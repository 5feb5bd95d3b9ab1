import BuildScript.Proofs.Program.Inert

/-!
The nesting of scopes, without their bindings and without what they skip. Lines that are run from the
outside run above the global scope only, whatever is open: how many scopes of a running script they
close depends on the kinds of these and on the outlines of their items alone.
-/

namespace BuildScript

open Item (Outline)

namespace Scope

/-- What a scope is to the statements in it. -/
inductive Kind where
  | block
  /-- The body of an `if` or `else` that a brace would make a block. -/
  | waiting
  /-- A body without braces, which the end of its statement closes. -/
  | single
  deriving DecidableEq

def Kind.isBody : Kind → Bool
  | .block => false
  | .waiting | .single => true

def kind (scope : Scope) : Kind :=
  if scope.singleLine then if scope.awaitingBody then .waiting else .single else .block

theorem kind_isBody (scope : Scope) : scope.kind.isBody = scope.singleLine := by
  unfold kind
  cases scope.singleLine
  · rfl
  · cases scope.awaitingBody <;> rfl

theorem kind_isWaiting (scope : Scope) : scope.kind = .waiting ↔ scope.isWaiting = true := by
  unfold kind isWaiting
  cases scope.singleLine
  · simp
  · cases scope.awaitingBody <;> simp

theorem Keeps.kind {a b : Scope} (h : a.Keeps b) (hsettled : a.isWaiting = false) :
    b.kind = a.kind := by
  have hsingle := h.singleLine hsettled
  have hafter := h.isWaiting hsettled
  unfold Scope.isWaiting at hsettled hafter
  unfold Scope.kind
  rw [hsingle] at hafter ⊢
  cases hbody : a.singleLine with
  | false => rfl
  | true =>
    rw [hbody, Bool.true_and] at hsettled hafter
    rw [hsettled, hafter]

/-- What an item that begins makes of the innermost scope. -/
def begunKinds : List Kind → List Kind
  | .waiting :: rest => .single :: rest
  | kinds => kinds

/-- Opens a block, or makes the body that waits for one a block. -/
def braced : List Kind → List Kind
  | .waiting :: rest => .block :: rest
  | kinds => .block :: kinds

/-- Closes the bodies that the end of a statement closes. -/
def closeBodies (kinds : List Kind) : List Kind := kinds.dropWhile Kind.isBody

theorem kinds_closed (scopes : List Scope) :
    (scopes.dropWhile (·.singleLine)).map kind = closeBodies (scopes.map kind) := by
  unfold closeBodies
  rw [List.dropWhile_map]
  congr 2
  funext scope
  exact (kind_isBody scope).symm

end Scope

open Scope (Kind kind closeBodies begunKinds braced)

/-- The scopes that lines have opened, and those that are left of the ones that were there before,
innermost first. -/
structure Nesting where
  own : List Kind
  below : List Kind
  deriving DecidableEq

namespace Nesting

/-- The end of a statement. -/
def complete (nesting : Nesting) : Nesting :=
  match closeBodies nesting.own with
  | [] => ⟨[], closeBodies nesting.below⟩
  | own => ⟨own, nesting.below⟩

/-- What an item makes of the nesting. A closing brace closes a block of the lines, if they have one
open, and else one that was there before; outside of all blocks it closes none. -/
def next (nesting : Nesting) : Outline → Nesting
  | .condition | .elseMark => ⟨.waiting :: begunKinds nesting.own, nesting.below⟩
  | .blockOpen => ⟨braced nesting.own, nesting.below⟩
  | .blockClose =>
    match nesting.complete with
    | ⟨_ :: own, below⟩ => complete ⟨own, below⟩
    | ⟨[], _ :: below⟩ => complete ⟨[], below⟩
    | ⟨[], []⟩ => ⟨[], []⟩
  | .statement => nesting.complete
  | .malformed => ⟨begunKinds nesting.own, nesting.below⟩

def run (nesting : Nesting) (outlines : List Outline) : Nesting := outlines.foldl next nesting

end Nesting

namespace ScopeStack

variable {a b : ScopeStack}

theorem begun_isWaiting (stack : ScopeStack) : stack.begun.current.isWaiting = false := by
  obtain ⟨inner, names⟩ := stack
  cases inner with
  | nil => rfl
  | cons scope rest => exact Bool.and_false _

/-- Above the global scope the end of a statement closes all bodies in a row. -/
theorem drop_openSingles (scopes : List Scope) :
    scopes.drop (Run.openSingles 1 scopes) = scopes.dropWhile (·.singleLine) := by
  induction scopes with
  | nil => rfl
  | cons scope rest ih =>
    have habove : rest.length + 2 > 1 := by omega
    rw [List.dropWhile_cons]
    unfold Run.openSingles
    rw [decide_eq_true habove, Bool.true_and]
    split
    · rw [List.drop_succ_cons, ih]
    · rfl

theorem Within.without (h : Within a b) (count : Nat) :
    Within (a.without count) (b.without count) := by
  cases h with
  | global before after =>
    cases count <;> exact .global before after
  | inner hkeeps rest names =>
    cases count with
    | zero => exact .inner hkeeps rest names
    | succ count => exact .refl _

theorem dropWhile_settled (scopes : List Scope) (names : Bindings) :
    (current ⟨scopes.dropWhile (·.singleLine), names⟩).isWaiting = false := by
  unfold current
  cases hleft : scopes.dropWhile (·.singleLine) with
  | nil => rfl
  | cons scope rest =>
    have hfirst := List.head?_dropWhile_not (fun scope : Scope => scope.singleLine) scopes
    rw [hleft] at hfirst
    have hblock : scope.singleLine = false := hfirst
    dsimp only
    unfold Scope.isWaiting
    rw [hblock, Bool.false_and]

end ScopeStack

namespace Nesting

open ScopeStack (Within)

/-- The scopes of `b` are some that lines have opened, above what they have left of those of `a`:
all but the innermost `count`, with further bindings in the first of them. -/
structure Describes (nesting : Nesting) (a b : ScopeStack) (above inner : List Scope) (count : Nat) :
    Prop where
  scopes : b.inner = above ++ inner
  own : above.map kind = nesting.own
  below : inner.map kind = nesting.below
  count_le : count ≤ a.inner.length
  within : (a.without count).Within ⟨inner, b.global⟩
  settled : (ScopeStack.current ⟨inner, b.global⟩).isWaiting = false

/-- Some scopes are as the nesting says. -/
def Tracks (nesting : Nesting) (a b : ScopeStack) : Prop :=
  ∃ above inner count, nesting.Describes a b above inner count

variable {nesting : Nesting} {a b b' : ScopeStack} {above inner : List Scope} {count : Nat}

theorem Describes.refl (stack : ScopeStack) (hsettled : stack.current.isWaiting = false) :
    Describes ⟨[], stack.inner.map kind⟩ stack stack [] stack.inner 0 where
  scopes := rfl
  own := rfl
  below := rfl
  count_le := Nat.zero_le _
  within := .refl stack
  settled := hsettled

/-- As many scopes are closed as the nesting has lost. -/
theorem Describes.count_below (h : nesting.Describes a b above inner count) :
    count + nesting.below.length = a.inner.length := by
  have hlength := h.within.length_inner
  have hcount := h.count_le
  unfold ScopeStack.without at hlength
  dsimp only at hlength
  rw [List.length_drop] at hlength
  rw [← h.below, List.length_map, hlength]
  omega

/-- What runs in the innermost scope leaves its kind, unless a brace could still open it. -/
theorem Describes.within_current (h : nesting.Describes a b above inner count)
    (hsettled : b.current.isWaiting = false) (hwithin : b.Within b') : nesting.Tracks a b' := by
  obtain ⟨binner, names⟩ := b
  obtain ⟨hscopes, hown, hbelow, hcount, habove, hinner⟩ := h
  dsimp only at hscopes habove hinner
  subst hscopes
  cases above with
  | nil =>
    refine ⟨[], b'.inner, count, rfl, hown, ?_, hcount, habove.trans hwithin, ?_⟩
    · rw [← hbelow]
      cases hwithin with
      | global before after => rfl
      | inner hkeeps rest names => exact congrArg (· :: _) (hkeeps.kind hsettled)
    · exact hwithin.current.isWaiting hsettled
  | cons scope rest =>
    cases hwithin with
    | @inner _ scope' hkeeps rest' names =>
      refine ⟨scope' :: rest, inner, count, rfl, ?_, hbelow, hcount, habove, hinner⟩
      rw [← hown, List.map_cons, List.map_cons, hkeeps.kind hsettled]

/-- The beginning of an item ends the wait for a brace. -/
theorem Describes.begun (h : nesting.Describes a b above inner count) :
    Tracks ⟨begunKinds nesting.own, nesting.below⟩ a b.begun := by
  obtain ⟨binner, names⟩ := b
  cases above with
  | nil =>
    obtain ⟨hscopes, hown, hbelow, hcount, habove, hinner⟩ := h
    dsimp only at hscopes habove hinner
    subst hscopes
    have hsame : begunKinds nesting.own = nesting.own := by
      rw [← hown]
      rfl
    rw [hsame]
    exact Describes.within_current ⟨rfl, hown, hbelow, hcount, habove, hinner⟩ hinner (.begun _)
  | cons scope rest =>
    obtain ⟨hscopes, hown, hbelow, hcount, habove, hinner⟩ := h
    dsimp only at hscopes habove hinner
    subst hscopes
    refine ⟨{ scope with awaitingBody := false } :: rest, inner, count, rfl, ?_, hbelow, hcount,
      habove, hinner⟩
    rw [← hown, List.map_cons, List.map_cons]
    unfold kind
    dsimp only
    cases scope.singleLine
    · rfl
    · cases scope.awaitingBody <;> rfl

/-- The body of an `if` or `else` waits for a brace when it is opened. -/
theorem Describes.push (h : nesting.Describes a b above inner count) (state : BlockState) :
    Tracks ⟨.waiting :: nesting.own, nesting.below⟩ a (b.push (.conditional state)) :=
  ⟨_ :: above, inner, count, congrArg (_ :: ·) h.scopes, congrArg (_ :: ·) h.own, h.below,
    h.count_le, h.within, h.settled⟩

theorem Describes.opened (h : nesting.Describes a b above inner count) :
    Tracks ⟨braced nesting.own, nesting.below⟩ a b.opened := by
  obtain ⟨binner, names⟩ := b
  obtain ⟨hscopes, hown, hbelow, hcount, habove, hinner⟩ := h
  dsimp only at hscopes habove hinner
  subst hscopes
  rw [← hown]
  cases above with
  | nil =>
    have hpush : ScopeStack.opened ⟨inner, names⟩ = ScopeStack.push ⟨inner, names⟩ .block := by
      unfold Scope.isWaiting at hinner
      unfold ScopeStack.opened
      rw [hinner]
      rfl
    exact ⟨[_], inner, count, congrArg ScopeStack.inner hpush, rfl, hbelow, hcount,
      hpush ▸ habove, hpush ▸ hinner⟩
  | cons scope rest =>
    by_cases hwaiting : scope.isWaiting = true
    · have hkind := (Scope.kind_isWaiting scope).mpr hwaiting
      have hblock : ScopeStack.opened ⟨scope :: (rest ++ inner), names⟩ =
          ⟨{ scope with singleLine := false, awaitingBody := false } :: (rest ++ inner), names⟩ :=
        if_pos hwaiting
      rw [List.cons_append, hblock, List.map_cons, hkind]
      exact ⟨_ :: rest, inner, count, rfl, rfl, hbelow, hcount, habove, hinner⟩
    · have hkind := mt (Scope.kind_isWaiting scope).mp hwaiting
      have hpush : ScopeStack.opened ⟨scope :: (rest ++ inner), names⟩ =
          ScopeStack.push ⟨scope :: (rest ++ inner), names⟩ .block := if_neg hwaiting
      have hbraced : braced (scope.kind :: rest.map kind) =
          .block :: scope.kind :: rest.map kind := by
        unfold braced
        split
        · rename_i heq
          exact absurd (List.cons.inj heq).1 hkind
        · rfl
      rw [List.cons_append, hpush, List.map_cons, hbraced]
      exact ⟨_ :: scope :: rest, inner, count, rfl, rfl, hbelow, hcount, habove, hinner⟩

/-- With some scopes gone, the single statement bodies in front of the rest are closed. -/
theorem Tracks.behind {names : Bindings} (hcount : count ≤ a.inner.length)
    (habove : (a.without count).Within ⟨inner, names⟩) {gone : Nat} (hgone : gone ≤ inner.length) :
    Tracks (complete ⟨[], (inner.drop gone).map kind⟩) a
      ⟨(inner.drop gone).dropWhile (·.singleLine), names⟩ := by
  have hlength := habove.length_inner
  have hclosing := ScopeStack.openSingles_le 1 (inner.drop gone)
  have hdrop : inner.drop (gone + Run.openSingles 1 (inner.drop gone)) =
      (inner.drop gone).dropWhile (·.singleLine) := by
    rw [← List.drop_drop, ScopeStack.drop_openSingles]
  have hwithin := habove.without (gone + Run.openSingles 1 (inner.drop gone))
  rw [ScopeStack.without_without] at hwithin
  unfold ScopeStack.without at hlength hwithin
  dsimp only at hlength hwithin
  rw [List.length_drop] at hlength hclosing
  rw [hdrop] at hwithin
  exact ⟨[], _, count + (gone + Run.openSingles 1 (inner.drop gone)), rfl, rfl,
    Scope.kinds_closed (inner.drop gone), by omega, hwithin, ScopeStack.dropWhile_settled _ names⟩

/-- The end of a statement closes bodies, those that the lines have opened before all others. -/
theorem Describes.singles (h : nesting.Describes a b above inner count) :
    nesting.complete.Tracks a (b.without (Run.openSingles 1 b.inner)) := by
  obtain ⟨binner, names⟩ := b
  obtain ⟨own, below⟩ := nesting
  obtain ⟨hscopes, hown, hbelow, hcount, habove, hinner⟩ := h
  dsimp only at hscopes hown hbelow habove hinner
  subst hscopes hown hbelow
  have hclosed := Scope.kinds_closed above
  unfold ScopeStack.without complete
  dsimp only
  rw [ScopeStack.drop_openSingles, List.dropWhile_append, ← hclosed]
  cases hleft : above.dropWhile (·.singleLine) with
  | nil => exact Tracks.behind hcount habove (Nat.zero_le _)
  | cons scope rest =>
    exact ⟨scope :: rest, inner, count, rfl, rfl, rfl, hcount, habove, hinner⟩

/-- A closing brace above a scope that is open closes the innermost block. -/
theorem Tracks.popped (h : nesting.complete.Tracks a b) (hopen : 1 < b.depth) :
    (nesting.next .blockClose).Tracks a
      (b.pop.2.without (Run.openSingles 1 b.pop.2.inner)) := by
  obtain ⟨binner, names⟩ := b
  unfold next
  generalize nesting.complete = completed at h ⊢
  obtain ⟨own, below⟩ := completed
  obtain ⟨above, inner, count, hscopes, hown, hbelow, hcount, habove, hinner⟩ := h
  dsimp only at hscopes hown hbelow habove hinner
  subst hscopes hown hbelow
  cases above with
  | cons scope rest =>
    exact Describes.singles (b := ⟨rest ++ inner, names⟩)
      ⟨rfl, rfl, rfl, hcount, habove, hinner⟩
  | nil =>
    cases inner with
    | nil => exact absurd hopen (Nat.lt_irrefl 1)
    | cons scope rest =>
      have hbehind := Tracks.behind hcount habove (Nat.succ_pos rest.length)
      rw [List.drop_succ_cons, List.drop_zero, ← ScopeStack.drop_openSingles] at hbehind
      exact hbehind

/-- A closing brace that finds no scope open closes none. -/
theorem Tracks.unmatched (h : nesting.complete.Tracks a b) (hclosed : b.depth ≤ 1) :
    (nesting.next .blockClose).Tracks a b := by
  obtain ⟨binner, names⟩ := b
  unfold next
  generalize nesting.complete = completed at h ⊢
  obtain ⟨own, below⟩ := completed
  obtain ⟨above, inner, count, hscopes, hown, hbelow, hcount, habove, hinner⟩ := h
  dsimp only at hscopes hown hbelow habove hinner
  subst hscopes hown hbelow
  cases above with
  | cons scope rest => exact absurd hclosed (by simp [ScopeStack.depth])
  | nil =>
    cases inner with
    | cons scope rest => exact absurd hclosed (by simp [ScopeStack.depth])
    | nil => exact ⟨[], [], count, rfl, rfl, rfl, hcount, habove, hinner⟩

/-- What is closed below stays closed. -/
theorem run_below (own : List Kind) (outlines : List Outline) :
    (run ⟨own, []⟩ outlines).below = [] := by
  have hcomplete (own : List Kind) : (complete ⟨own, []⟩).below = [] := by
    unfold complete
    split <;> rfl
  induction outlines generalizing own with
  | nil => rfl
  | cons outline rest ih =>
    have hnext : (next ⟨own, []⟩ outline).below = [] := by
      cases outline with
      | statement => exact hcomplete own
      | blockClose =>
        have hfirst := hcomplete own
        unfold next
        dsimp only
        generalize complete ⟨own, []⟩ = completed at hfirst
        obtain ⟨own', below⟩ := completed
        obtain rfl : below = [] := hfirst
        cases own' with
        | nil => rfl
        | cons kind rest => exact hcomplete rest
      | _ => rfl
    show (run (next ⟨own, []⟩ outline) rest).below = []
    generalize next ⟨own, []⟩ outline = after at hnext ⊢
    obtain ⟨own', below⟩ := after
    obtain rfl : below = [] := hnext
    exact ih own'

/-- A single block can stand for all that is below: what leaves it alone leaves any scopes alone whose
innermost is no body. -/
theorem next_firm {kinds own : List Kind} (hfirm : closeBodies kinds = kinds) (outline : Outline)
    (h : (next ⟨own, [.block]⟩ outline).below ≠ []) :
    (next ⟨own, [.block]⟩ outline).below = [.block] ∧
      next ⟨own, kinds⟩ outline = ⟨(next ⟨own, [.block]⟩ outline).own, kinds⟩ := by
  have hcomplete (own : List Kind) : complete ⟨own, [.block]⟩ = ⟨closeBodies own, [.block]⟩ ∧
      complete ⟨own, kinds⟩ = ⟨closeBodies own, kinds⟩ := by
    unfold complete
    dsimp only
    split
    · rename_i hnone
      rw [hnone, hfirm]
      exact ⟨rfl, rfl⟩
    · exact ⟨rfl, rfl⟩
  obtain ⟨hblock, hkinds⟩ := hcomplete own
  cases outline with
  | statement =>
    unfold next
    dsimp only
    rw [hblock, hkinds]
    exact ⟨rfl, rfl⟩
  | blockClose =>
    unfold next at h ⊢
    dsimp only at h ⊢
    rw [hblock] at h ⊢
    rw [hkinds]
    cases hclosed : closeBodies own with
    | nil =>
      rw [hclosed] at h
      exact absurd rfl h
    | cons kind rest =>
      obtain ⟨hblock', hkinds'⟩ := hcomplete rest
      dsimp only
      rw [hblock', hkinds']
      exact ⟨rfl, rfl⟩
  | _ => exact ⟨rfl, rfl⟩

theorem run_firm {kinds : List Kind} (hfirm : closeBodies kinds = kinds) {own : List Kind}
    {outlines : List Outline} (h : (run ⟨own, [.block]⟩ outlines).below ≠ []) :
    run ⟨own, kinds⟩ outlines = ⟨(run ⟨own, [.block]⟩ outlines).own, kinds⟩ := by
  induction outlines generalizing own with
  | nil => rfl
  | cons outline rest ih =>
    have hnext : (next ⟨own, [.block]⟩ outline).below ≠ [] := by
      intro hnone
      apply h
      show (run (next ⟨own, [.block]⟩ outline) rest).below = []
      generalize next ⟨own, [.block]⟩ outline = after at hnone ⊢
      obtain ⟨own', below⟩ := after
      obtain rfl : below = [] := hnone
      exact run_below own' rest
    obtain ⟨hbelow, hkinds⟩ := next_firm hfirm outline hnext
    have hrest : (run (next ⟨own, [.block]⟩ outline) rest).below ≠ [] := h
    show run (next ⟨own, kinds⟩ outline) rest =
      ⟨(run (next ⟨own, [.block]⟩ outline) rest).own, kinds⟩
    rw [hkinds]
    generalize next ⟨own, [.block]⟩ outline = after at hbelow hrest ⊢
    obtain ⟨own', below⟩ := after
    obtain rfl : below = [.block] := hbelow
    exact ih hrest

/-- The items close what they open and nothing else. -/
def Balanced (outlines : List Outline) : Prop :=
  run ⟨[], [.block]⟩ outlines = ⟨[], [.block]⟩

instance (outlines : List Outline) : Decidable (Balanced outlines) :=
  inferInstanceAs (Decidable (_ = _))

/-- Balanced lines leave a nesting alone whose innermost scope is no body. -/
theorem Balanced.run {outlines : List Outline} (h : Balanced outlines) {kinds : List Kind}
    (hfirm : closeBodies kinds = kinds) : run ⟨[], kinds⟩ outlines = ⟨[], kinds⟩ := by
  unfold Balanced at h
  have hkept : (Nesting.run ⟨[], [.block]⟩ outlines).below ≠ [] := by
    rw [h]
    exact List.cons_ne_nil _ _
  rw [run_firm hfirm hkept, h]

/-- An `if` with its block is balanced. -/
example : Balanced [.condition, .blockOpen, .statement, .blockClose] := by decide

end Nesting

/-- The innermost scope is no body that the end of a statement would close. -/
theorem ScopeStack.closeBodies_kinds {stack : ScopeStack} (h : stack.current.singleLine = false) :
    closeBodies (stack.inner.map kind) = stack.inner.map kind := by
  obtain ⟨inner, names⟩ := stack
  cases inner with
  | nil => rfl
  | cons scope rest =>
    have hblock : scope.kind.isBody = false := (Scope.kind_isBody scope).trans h
    unfold closeBodies
    rw [List.map_cons, List.dropWhile_cons, hblock]
    rfl

end BuildScript
