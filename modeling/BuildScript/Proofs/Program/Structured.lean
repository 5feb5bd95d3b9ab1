import Mathlib
import BuildScript.Proofs.Program.Lines

/-!
Structured execution, for any embedding program that leaves the surroundings of a script alone. The
one place where the recursive meaning has a choice is the scope of the names that the condition of an
`else if` declares.
-/

namespace BuildScript.Program

open Session (context)

/-- The contexts of a run are faithful. -/
theorem context_faithful {host : Host} (hsteady : host.Steady) (hblind : host.Blind)
    (budget : Nat) (held : List Anchor) : Faithful (context host budget held) :=
  ⟨Session.context_blind hblind budget held, Session.context_restores hsteady budget held⟩

/-- The tokens of a line that lexes and does not go on. -/
def tokensOf (text : String) : List Token :=
  match Lexed.ofLine text with
  | .ok lexed => lexed.tokens
  | .error _ => []

def start : Machine := .initial .standard (.shelf ⟨[]⟩)

end BuildScript.Program
