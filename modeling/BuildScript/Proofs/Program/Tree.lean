import BuildScript.Run.Item

/-!
Structured programs: statements as trees, and their recursive meaning. A branch of an `if` opens a
scope of its own, in braces or not, and a finished statement closes what it opened.
-/

namespace BuildScript.Program

open Eval (machine update attempt recover)

/-- A statement, with the numbers of the lines that its parts stand on. -/
inductive Tree where
  | expression (line : Nat) (expr : Expr)
  | giveBack (line : Nat) (expr : Option (Except SyntaxError Expr))
  | block (first : Nat) (body : List Tree) (last : Nat)
  | ifOnly (line : Nat) (condition : Except SyntaxError Expr) (body : Tree)
  | ifElse (line : Nat) (condition : Except SyntaxError Expr) (body : Tree) (elseLine : Nat)
      (otherwise : Tree)

namespace Tree

def isBlock : Tree → Bool
  | block _ _ _ => true
  | _ => false

/-- An `if` without braces around it. -/
def isIf : Tree → Bool
  | ifOnly _ _ _ | ifElse _ _ _ _ _ => true
  | _ => false

end Tree

/-- An item and the number of the line it stands on. -/
abbrev Placed := Nat × Item

mutual

/-- A statement unit by unit. -/
def items : Tree → List Placed
  | .expression line expr => [(line, .expression expr)]
  | .giveBack line expr => [(line, .giveBack expr)]
  | .block first body last => (first, .blockOpen) :: (itemsAll body ++ [(last, .blockClose)])
  | .ifOnly line condition body => (line, .condition condition) :: items body
  | .ifElse line condition body elseLine otherwise =>
    (line, .condition condition) :: (items body ++ (elseLine, .elseMark) :: items otherwise)

def itemsAll : List Tree → List Placed
  | [] => []
  | tree :: rest => items tree ++ itemsAll rest

end

/-- Where the names live that the condition of an `else if` declares. -/
inductive Scoping where
  /-- In all branches after it. -/
  | lexical
  /-- In its own branch: what follows the next `else` no longer sees them. -/
  | chained
  deriving DecidableEq

/-- The depth to return to after the first branch of an `if` with an `else`, for a statement that
returns to `close` itself. -/
def Scoping.between (scoping : Scoping) (close : Nat) (stack : ScopeStack) : Nat :=
  match scoping with
  | lexical => stack.depth
  | chained => close

/-- What a statement gave back, if a `return` was executed. -/
abbrev Outcome := Option (Option Value)

/-- The scope of a branch. -/
def branchScope (state : BlockState) (braced : Bool) : Scope :=
  { Scope.block with state, singleLine := !braced, skipping := state.isSkipped }

/-- Opens the scope of a branch. -/
def enterBranch (state : BlockState) (braced : Bool) : Eval Unit :=
  Run.updateScopes (·.push (branchScope state braced))

def closeTo (depth : Nat) : Eval Unit := Run.updateScopes (·.truncate depth)

/-- One evaluation after another, unless the first one returned. -/
def followedBy (x y : Eval Outcome) : Eval Outcome := do
  match ← x with
  | some value => return some value
  | none => y

/-- Closes the scopes of a statement unless it returned. -/
def closing (depth : Nat) (x : Eval Outcome) : Eval Outcome :=
  followedBy x do
    closeTo depth
    return none

def atLine (line : Nat) : Eval Unit := update fun m => { m with line }

/-- An expression as a statement. A fault is reported where it stands. -/
def perform (line : Nat) (expr : Expr) : Eval Outcome := do
  atLine line
  let _ ← Run.guarded (Run.expressionFlow expr)
  return none

/-- Whether a condition holds. One that fails is reported once and does not hold. -/
def holds (line : Nat) (condition : Except SyntaxError Expr) : Eval Bool := do
  atLine line
  match ← attempt (Run.conditionHolds condition) with
  | .ok result => return result
  | .error fault => do
    recover fault
    return false

/-- A `return`. Outside a function it is reported and has no effect. -/
def giveBack (inFunction : Bool) (line : Nat) (expr : Option (Except SyntaxError Expr)) :
    Eval Outcome := do
  atLine line
  if inFunction then return some (← Run.returned expr)
  else
    recover (.eval .returnOutsideFunction)
    return none

mutual

/-- Executes a statement whose scope is open, if it has one, and returns to the depth `close`. -/
def exec (scoping : Scoping) (inFunction : Bool) (close : Nat) : Tree → Eval Outcome
  | .expression line expr => closing close (perform line expr)
  | .giveBack line expr => closing close (giveBack inFunction line expr)
  | .block _ body _ => closing close (execAll scoping inFunction body)
  | .ifOnly line condition body => do
    if ← holds line condition then
      enterBranch .ifBody body.isBlock
      exec scoping inFunction close body
    else closing close (pure none)
  | .ifElse line condition body _ otherwise => do
    let between := scoping.between close (← Run.scopes)
    if ← holds line condition then
      enterBranch .ifBody body.isBlock
      closing close (exec scoping inFunction between body)
    else
      closeTo between
      enterBranch .elseBody otherwise.isBlock
      exec scoping inFunction close otherwise

/-- Executes statements in order; a `return` that is executed ends them. -/
def execAll (scoping : Scoping) (inFunction : Bool) : List Tree → Eval Outcome
  | [] => return none
  | tree :: rest => do
    let depth := (← Run.scopes).depth
    if tree.isBlock then Run.updateScopes (·.push .block)
    followedBy (exec scoping inFunction depth tree) (execAll scoping inFunction rest)

end

/-- Executes a program and returns to the depth it began at, also when a fault ends it. -/
def run (scoping : Scoping) (inFunction : Bool) (trees : List Tree) : Eval Outcome := do
  let depth := (← Run.scopes).depth
  let result ← attempt (execAll scoping inFunction trees)
  closeTo depth
  match result with
  | .ok outcome => return outcome
  | .error fault => Eval.fail fault

mutual

/-- Statements as the grammar without nested `if`s in place of a first branch has them: the first
branch of an `if` is an expression, a `return` or a block, the second may be an `if` again. -/
def Plain : Tree → Prop
  | .expression _ _ | .giveBack _ _ => True
  | .block _ body _ => PlainAll body
  | .ifOnly _ _ body => body.isIf = false ∧ Plain body
  | .ifElse _ _ body _ otherwise => body.isIf = false ∧ Plain body ∧ Plain otherwise

def PlainAll : List Tree → Prop
  | [] => True
  | tree :: rest => Plain tree ∧ PlainAll rest

end

mutual

/-- No `if` that has an `else` has an `if` without braces as its first branch. -/
def Guarded : Tree → Prop
  | .expression _ _ | .giveBack _ _ => True
  | .block _ body _ => GuardedAll body
  | .ifOnly _ _ body => Guarded body
  | .ifElse _ _ body _ otherwise => body.isIf = false ∧ Guarded body ∧ Guarded otherwise

def GuardedAll : List Tree → Prop
  | [] => True
  | tree :: rest => Guarded tree ∧ GuardedAll rest

end

mutual

theorem Plain.guarded : (tree : Tree) → Plain tree → Guarded tree
  | .expression _ _, _ | .giveBack _ _, _ => trivial
  | .block _ body _, h => PlainAll.guarded body h
  | .ifOnly _ _ body, h => Plain.guarded body h.2
  | .ifElse _ _ body _ otherwise, h =>
    ⟨h.1, Plain.guarded body h.2.1, Plain.guarded otherwise h.2.2⟩

theorem PlainAll.guarded : (trees : List Tree) → PlainAll trees → GuardedAll trees
  | [], _ => trivial
  | tree :: rest, h => ⟨Plain.guarded tree h.1, PlainAll.guarded rest h.2⟩

end

end BuildScript.Program
