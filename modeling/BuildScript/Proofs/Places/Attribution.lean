import BuildScript.Proofs.Places.Following
import BuildScript.Proofs.Run.Unwinding

/-!
The place of a message. A run of a file follows a course in which every message is told while one
logical line is the innermost one that is executed, and names its place.
-/

namespace BuildScript

open Text (SourceLine)
open Eval (Paired)

variable {held : String → List SourceLine → Prop}
  {nested : Bool → String → List SourceLine → Stage → Stage → Prop} {sources : List Source}
  {m m' : Machine} {file : String} {lines : List SourceLine} {inFunction : Bool}

/-- What restores its surroundings comes back to its place. -/
theorem Machine.Undisturbed.spot (h : m.Undisturbed m') : m'.spot = m.spot := by
  simp [Machine.spot, h.file, h.line]

namespace Session

end Session

end BuildScript
