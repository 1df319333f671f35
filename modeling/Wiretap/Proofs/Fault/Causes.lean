import Mathlib.Data.List.Infix
import Wiretap.Fault.Tapped

/-!
# The causes of a fault

A fault may have a fault as its cause, which may have another one, and so on down to a plain
message. Whoever goes from an error to the cause right below it, and from there to the next, meets
every level once and in order, and the text of each level ends with the text of all levels below.
An error behind a tap lets this through only where it is a fault on its own.
-/

namespace Wiretap

/-- The text ends with another one. -/
def EndsWith (text tail : String) : Prop := ∃ lead, text = lead ++ tail

theorem EndsWith.trans {text tail last : String} (h : EndsWith text tail)
    (hlast : EndsWith tail last) : EndsWith text last := by
  obtain ⟨lead, rfl⟩ := h
  obtain ⟨middle, rfl⟩ := hlast
  exact ⟨lead ++ middle, String.append_assoc.symm⟩

theorem Origin.describe_endsWith (origin : Origin) (text : String) :
    EndsWith (origin.describe text) text := by
  cases origin <;> exact ⟨_, rfl⟩

namespace Cause

/-- Going from one cause to the one below it visits just these, and then comes to an end. It begins
with the given cause, if there is one. -/
inductive Visits : Option Cause → List Cause → Prop
  /-- There is none. -/
  | stop : Visits none []
  /-- The next one is visited. -/
  | visit {c : Cause} {later : List Cause} (h : Visits c.below? later) :
    Visits (some c) (c :: later)

/-- Faults within each other, the outermost one first, and at the bottom a message. -/
def nested (origins : List Origin) (text : String) : Cause := origins.foldr .fault (.message text)

theorem exists_nested (c : Cause) : ∃ origins text, c = nested origins text := by
  induction c with
  | message text => exact ⟨[], text, rfl⟩
  | fault origin c ih =>
      obtain ⟨origins, text, rfl⟩ := ih
      exact ⟨origin :: origins, text, rfl⟩

/-- Each of the causes within each other is met on the way down. -/
theorem cons_chain_nested (origins : List Origin) (text : String) :
    nested origins text :: (nested origins text).chain = origins.tails.map (nested · text) := by
  induction origins with
  | nil => rfl
  | cons origin origins ih =>
      rw [List.tails_cons, List.map_cons, ← ih]
      rfl

theorem visits_chain (c : Cause) : Visits c.below? c.chain := by
  induction c with
  | message text => exact .stop
  | fault origin c ih => exact .visit ih

theorem pairwise_endsWith (c : Cause) :
    (c.describe :: c.chain.map describe).Pairwise EndsWith := by
  induction c with
  | message text => exact List.pairwise_singleton _ _
  | fault origin c ih =>
      have hnext : EndsWith (fault origin c).describe c.describe := origin.describe_endsWith _
      refine List.pairwise_cons.mpr ⟨fun text htext => ?_, ih⟩
      rcases List.mem_cons.mp htext with rfl | hbelow
      · exact hnext
      · exact hnext.trans ((List.pairwise_cons.mp ih).1 text hbelow)

end Cause

theorem TapError.visits_chain {ε : Type} (e : TapError ε) : Cause.Visits e.below? e.chain := by
  cases e with
  | source e => exact .stop
  | listener f => exact f.toCause.visits_chain
  | multiple f e => exact .stop

theorem TapError.describe_listener {ε : Type} [Literal ε] (f : Fault) :
    (TapError.listener f : TapError ε).describe = f.describe := rfl

theorem TapError.describe_multiple {ε : Type} [Literal ε] (f : Fault) (e : ε) :
    (TapError.multiple f e).describe =
      "multiple errors: " ++ f.describe ++ ("; original error: " ++ literal e) :=
  String.append_assoc

/-- Going down from a fault, one visits its cause first and then whatever is nested in it, level by
level and down to the message, and nothing else. The text of the fault, and of all that is visited,
ends with the text of all that is visited later. Behind a tap a fault on its own has the same text,
and what is visited is the same. Going down from an error of the source, or from a fault together
with one, nothing is visited, but the text of the latter holds that of the fault. -/
theorem Fault.causes_visited {ε : Type} [Literal ε] (f : Fault) :
    (∃ origins text, f.cause = .nested origins text ∧
      f.chain = origins.tails.map (Cause.nested · text)) ∧
    Cause.Visits f.below? f.chain ∧ f.chain.head? = some f.cause ∧
    (f.describe :: f.chain.map Cause.describe).Pairwise EndsWith ∧
    (TapError.listener f : TapError ε).describe = f.describe ∧
    Cause.Visits (TapError.listener f : TapError ε).below? f.chain ∧
    ∀ e : ε, Cause.Visits (TapError.source e).below? [] ∧
      Cause.Visits (TapError.multiple f e).below? [] ∧
      ∃ lead trail, (TapError.multiple f e).describe = lead ++ f.describe ++ trail := by
  obtain ⟨origins, text, hcause⟩ := f.cause.exists_nested
  have hchain : f.chain = origins.tails.map (Cause.nested · text) := by
    rw [← Cause.cons_chain_nested, ← hcause]
    rfl
  refine ⟨⟨origins, text, hcause, hchain⟩, f.toCause.visits_chain, rfl,
    f.toCause.pairwise_endsWith, TapError.describe_listener f,
    (TapError.listener f : TapError ε).visits_chain, fun e => ⟨(TapError.source e).visits_chain,
      (TapError.multiple f e).visits_chain, _, _, TapError.describe_multiple f e⟩⟩

/-- A hook fails because a listener could not be created. -/
example : (⟨.hook "do_on_next", .fault .creation (.message "boom")⟩ : Fault).chain =
    [.fault .creation (.message "boom"), .message "boom"] := rfl

end Wiretap
