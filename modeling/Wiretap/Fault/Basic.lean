import Wiretap.Item

/-!
# Faults of a listener

A listener can fail when it is created, in one of its hooks, or while it augments the context of a
subscription. A fault says where it arose and carries its cause; the cause is a plain message or
another fault, to any depth. The chain of a fault lists the causes from the outermost inwards.
-/

namespace Wiretap

/-- Where a fault arose. -/
inductive Origin
  /-- The listener could not be created. -/
  | creation
  /-- A hook of this name failed. -/
  | hook (name : String)
  /-- The context could not be augmented. -/
  | augmentation
deriving DecidableEq

/-- Why a listener failed. -/
inductive Cause
  /-- A plain message. -/
  | message (text : String)
  /-- Another fault. -/
  | fault (origin : Origin) (cause : Cause)
deriving DecidableEq

/-- A failure of a listener. -/
structure Fault where
  /-- Where it arose. -/
  origin : Origin
  /-- Why. -/
  cause : Cause
deriving DecidableEq

namespace Origin

/-- The text of a fault that arose here, given the text of its cause. -/
def describe : Origin → String → String
  | .creation, cause => "unable to create signal listener: " ++ cause
  | .hook name, cause => "signal listener hook `" ++ name ++ "` failed: " ++ cause
  | .augmentation, cause =>
    "unable to augment tap context at subscription via add_to_context: " ++ cause

/-- The structure of a fault that arose here, given the literal of its cause. -/
def inspect : Origin → String → String
  | .creation, cause => "Creation(" ++ cause ++ ")"
  | .hook name, cause =>
    "Hook \x7b hook: " ++ literal name ++ ", source: " ++ cause ++ " \x7d"
  | .augmentation, cause => "ContextAugmentation(" ++ cause ++ ")"

/-- The short name of this kind of fault. -/
def label : Origin → String
  | .creation => "listener_creation"
  | .hook _ => "listener_hook"
  | .augmentation => "listener_context_augmentation"

/-- The name of the hook, if this is one. -/
def hookName? : Origin → Option String
  | .hook name => some name
  | _ => none

end Origin

namespace Cause

/-- The text of a cause. -/
def describe : Cause → String
  | .message text => text
  | .fault origin cause => origin.describe cause.describe

/-- The structure of a cause; a message is quoted. -/
def inspect : Cause → String
  | .message text => literal text
  | .fault origin cause => origin.inspect cause.inspect

/-- The cause right below this one. A message has none. -/
def below? : Cause → Option Cause
  | .message _ => none
  | .fault _ cause => some cause

/-- The causes below this one, from the outermost inwards. A message has none. -/
def chain : Cause → List Cause
  | .message _ => []
  | .fault _ cause => cause :: cause.chain

end Cause

namespace Fault

/-- A fault seen as the cause of another one. -/
def toCause (f : Fault) : Cause := .fault f.origin f.cause

/-- The text of a fault. -/
def describe (f : Fault) : String := f.toCause.describe

/-- The cause right below a fault, which every fault has. -/
def below? (f : Fault) : Option Cause := some f.cause

/-- The causes of a fault, from the outermost inwards. -/
def chain (f : Fault) : List Cause := f.toCause.chain

/-- What a fault is called in a record of faults: the hook's name, or else the short name of its
kind. -/
def name (f : Fault) : String := f.origin.hookName?.getD f.origin.label

instance : Literal Fault := ⟨fun f => f.toCause.inspect⟩

end Fault

end Wiretap
