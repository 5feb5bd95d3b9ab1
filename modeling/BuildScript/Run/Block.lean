import BuildScript.Eval.Expr

/-!
Blocks and the pairing of `if` with `else`. An `if` or `else` opens a scope that waits for its body:
a brace right after it makes the scope a block, any other item makes it the body of one statement
and closes it. What a completed `if` did is remembered until something else begins.
-/

namespace BuildScript.Run

open Eval (machine update recover)

/-- Changes the scopes. -/
def updateScopes (f : ScopeStack → ScopeStack) : Eval Unit :=
  update fun m => { m with env := { m.env with scopes := f m.env.scopes } }

def scopes : Eval ScopeStack := do return (← machine).env.scopes

def setLastIf (outcome : Option Bool) : Eval Unit := update fun m => { m with lastIf := outcome }

/-- The flow of a completed `if`. -/
def ifFlow : Option Bool → Flow
  | some true => .trueIf
  | some false => .falseIf
  | none => .nothing

/-- What an `else` after a scope of this kind may conclude, given what the statement inside it
said. A skipped body that holds an `if` of its own leaves the next `else` to that one. -/
def outcomeThrough (state : BlockState) (outcome : Option Bool) : Option Bool :=
  match state with
  | .ifBody => some (outcome.getD true)
  | .skippedIf => some outcome.isSome
  | .skippedElse => some true
  | .elseBody | .plain => outcome

/-- Closes the single statement bodies above `base` that a finished statement ends; the depth of
the stack bounds their number. Gives the outcome and whether anything was closed. -/
def closeSingles (base : Nat) (outcome : Option Bool) :
    List Scope → Nat → Option Bool × Nat
  | [], closed => (outcome, closed)
  | scope :: rest, closed =>
    if rest.length + 2 > base && scope.singleLine then
      closeSingles base (outcomeThrough scope.state outcome) rest (closed + 1)
    else (outcome, closed)

/-- Ends a statement, given what it says itself about a following `else`. The flow is that of the
`if` or `else` it was the body of, if it was. -/
def completeStatement (base : Nat) (outcome : Option Bool) : Eval (Option Flow) := do
  let (outcome, closed) := closeSingles base outcome (← scopes).inner 0
  updateScopes fun stack => { stack with inner := stack.inner.drop closed }
  setLastIf outcome
  return if closed > 0 then some (ifFlow outcome) else none

/-- Ends a statement that is no `if`. -/
def finishStatement (base : Nat) (flow : Flow) : Eval Flow := do
  return (← completeStatement base none).getD flow

/-- Opens the body of an `if`. A condition that fails counts as false. -/
def enterIf (skipping : Bool) (condition : Eval Bool) : Eval Unit := do
  setLastIf none
  let state : BlockState ←
    if skipping then pure .skippedIf
    else
      match ← Eval.attempt condition with
      | .ok true => pure .ifBody
      | .ok false => pure .skippedIf
      | .error fault => do
        recover fault
        pure .skippedIf
  updateScopes (·.push (.conditional state))

/-- Opens the body of an `else`, which needs an `if` completed right before it. -/
def enterElse (skipping : Bool) : Eval Flow := do
  let state : BlockState ←
    match skipping, (← machine).lastIf with
    | false, some false => pure .elseBody
    | false, none => do
      Eval.report (.eval .elseWithoutIf)
      pure .skippedElse
    | _, _ => pure .skippedElse
  setLastIf none
  updateScopes (·.push (.conditional state))
  return .elseMark

/-- Opens a block, or makes the body that awaits it one. -/
def openBlock : Eval Unit := do
  setLastIf none
  updateScopes fun stack =>
    if stack.current.singleLine && stack.current.awaitingBody then
      stack.mapCurrent fun scope => { scope with singleLine := false, awaitingBody := false }
    else stack.push .block

/-- What a closed block says about a following `else`. -/
def blockOutcome : BlockState → Option Bool
  | .ifBody => some true
  | .skippedIf => some false
  | _ => none

/-- The number of single statement bodies above `base` at the front. -/
def openSingles (base : Nat) : List Scope → Nat
  | [] => 0
  | scope :: rest =>
    if rest.length + 2 > base && scope.singleLine then openSingles base rest + 1 else 0

/-- Closes the innermost block above `base`. -/
def closeBlock (base : Nat) : Eval Flow := do
  updateScopes fun stack => { stack with inner := stack.inner.drop (openSingles base stack.inner) }
  let stack ← scopes
  if stack.depth ≤ base then
    recover (.eval .unmatchedBrace)
    return .error
  else
    let (closed, stack) := stack.pop
    updateScopes fun _ => stack
    let outcome := (closed.map (blockOutcome ·.state)).getD none
    return (← completeStatement base outcome).getD (ifFlow outcome)

end BuildScript.Run
