import Wiretap.Scope.Basic
import Wiretap.Text.Quoted
import Wiretap.Signal

/-!
# Texts of scopes and handles

A scope shows the keys to which it is restricted, if it is. A handle shows whether there is
something behind it, but not what.
-/

namespace Wiretap

/-- The structure of a scope. -/
def Scope.outline : Scope → String
  | .all => "ThreadLocalScope \x7b keys: None \x7d"
  | .keys listed => "ThreadLocalScope \x7b keys: Some(" ++ Text.quotedList listed ++ ") \x7d"
  | .inert => "NoopScope"

/-- What can be seen of a handle. -/
def Handle.outline : Handle → String
  | .empty => "EmptySubscription"
  | _ => "dyn Subscription"

end Wiretap
