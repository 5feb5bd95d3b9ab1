import BuildScript.Proofs.Run.Moves

/-!
Counting the braced blocks above the scopes that were there first. Bodies of one statement come and
go without being counted; a brace counts unless it turns the outermost scope, one that was there
before and still waits for its body, into a block.
-/

namespace BuildScript

open Item (Outline)

namespace ScopeStack

variable {a b start : ScopeStack} {base : Nat}

/-- The braced blocks above the first `base` scopes. -/
def openBlocks (base : Nat) (stack : ScopeStack) : Nat :=
  (stack.inner.take (stack.depth - base)).countP fun scope => !scope.singleLine

theorem openBlocks_pos (stack : ScopeStack) (hbase : 1 ≤ base) :
    0 < stack.openBlocks base ↔ stack.hasOpenBlock base = true := by
  have hglobal : (base == 0) = false := beq_eq_false_iff_ne.mpr (by omega)
  unfold hasOpenBlock openBlocks
  rw [hglobal, Bool.false_or, List.countP_pos_iff, List.any_eq_true]

theorem openBlocks_base (stack : ScopeStack) (hdepth : stack.depth ≤ base) :
    stack.openBlocks base = 0 := by
  have hnone : stack.depth - base = 0 := by omega
  unfold openBlocks
  rw [hnone]
  rfl

theorem openBlocks_cons (scope : Scope) (rest : List Scope) (names names' : Bindings)
    (habove : base < rest.length + 2) :
    openBlocks base ⟨scope :: rest, names⟩ =
      openBlocks base ⟨rest, names'⟩ + if scope.singleLine then 0 else 1 := by
  have htake : (scope :: rest).length + 1 - base = rest.length + 1 - base + 1 := by
    rw [List.length_cons]
    omega
  unfold openBlocks depth
  dsimp only
  rw [htake, List.take_succ_cons, List.countP_cons]
  cases scope.singleLine <;> rfl

theorem openBlocks_push (stack : ScopeStack) (scope : Scope) (hdepth : base ≤ stack.depth) :
    (stack.push scope).openBlocks base =
      stack.openBlocks base + if scope.singleLine then 0 else 1 := by
  obtain ⟨inner, names⟩ := stack
  exact openBlocks_cons _ inner names names (Nat.lt_succ_of_le hdepth)

/-- What runs in the innermost scope opens no block there, unless that waits for its body. -/
theorem Within.openBlocks (h : Within a b) (hwaiting : a.current.isWaiting = false) (base : Nat) :
    b.openBlocks base = a.openBlocks base := by
  cases h with
  | global before after => rfl
  | @inner before after hkeeps rest names =>
    have hsingle := hkeeps.singleLine hwaiting
    by_cases habove : base < rest.length + 2
    · rw [openBlocks_cons _ rest names names habove, openBlocks_cons _ rest names names habove,
        hsingle]
    · rw [openBlocks_base _ (Nat.le_of_not_lt habove), openBlocks_base _ (Nat.le_of_not_lt habove)]

theorem openBlocks_begun (stack : ScopeStack) (base : Nat) :
    stack.begun.openBlocks base = stack.openBlocks base := by
  obtain ⟨inner, names⟩ := stack
  cases inner with
  | nil => rfl
  | cons scope rest =>
    by_cases habove : base < rest.length + 2
    · exact (openBlocks_cons _ rest names names habove).trans
        (openBlocks_cons scope rest names names habove).symm
    · have hbase := Nat.le_of_not_lt habove
      exact (openBlocks_base (begun ⟨scope :: rest, names⟩) hbase).trans
        (openBlocks_base ⟨scope :: rest, names⟩ hbase).symm

/-- A brace opens one more block above the first scopes, unless the last of these is the innermost one
and waits for its body. -/
theorem openBlocks_opened (stack : ScopeStack) (hdepth : base ≤ stack.depth)
    (hwaiting : stack.depth = base → stack.current.isWaiting = false) :
    stack.opened.openBlocks base = stack.openBlocks base + 1 := by
  unfold opened
  split
  · rename_i hwaits
    obtain ⟨inner, names⟩ := stack
    cases inner with
    | nil => cases hwaits
    | cons scope rest =>
      have habove : base < rest.length + 2 := by
        apply Nat.lt_of_le_of_ne hdepth
        intro hbase
        exact Bool.false_ne_true ((hwaiting hbase.symm).symm.trans hwaits)
      have hsingle : scope.singleLine = true := (Bool.and_eq_true_iff.mp hwaits).1
      have hbefore := openBlocks_cons scope rest names names habove
      rw [hsingle] at hbefore
      rw [hbefore]
      exact openBlocks_cons _ rest names names habove
  · exact openBlocks_push stack .block hdepth

/-- A brace for the outermost scope opens no block above it. -/
theorem openBlocks_opened_waiting (stack : ScopeStack) (hdepth : stack.depth = base)
    (hwaiting : stack.current.isWaiting = true) : stack.opened.openBlocks base = 0 := by
  obtain ⟨inner, names⟩ := stack
  apply openBlocks_base
  unfold opened Scope.isWaiting at *
  rw [if_pos hwaiting]
  cases inner with
  | nil => cases hwaiting
  | cons scope rest => exact Nat.le_of_eq hdepth

/-- The bodies that the end of a statement closes are no blocks. -/
theorem openBlocks_singles (stack : ScopeStack) (base : Nat) :
    (stack.without (Run.openSingles base stack.inner)).openBlocks base =
      stack.openBlocks base := by
  obtain ⟨inner, names⟩ := stack
  induction inner with
  | nil => rfl
  | cons scope rest ih =>
    unfold Run.openSingles
    split
    · rename_i hsingle
      simp only [Bool.and_eq_true, decide_eq_true_eq] at hsingle
      rw [openBlocks_cons scope rest names names hsingle.1, hsingle.2]
      exact ih
    · rfl

/-- Behind the bodies that are closed comes a block, if anything above the first scopes does. -/
theorem openBlocks_pop {closed : ScopeStack}
    (hclosed : closed = a.without (Run.openSingles base a.inner)) (hopen : base < closed.depth)
    (hbase : 1 ≤ base) : closed.openBlocks base = closed.pop.2.openBlocks base + 1 := by
  subst hclosed
  obtain ⟨inner, names⟩ := a
  induction inner with
  | nil => exact absurd hopen (Nat.not_lt.mpr hbase)
  | cons scope rest ih =>
    unfold Run.openSingles at hopen ⊢
    split at hopen
    · rename_i hsingle
      rw [if_pos hsingle]
      exact ih hopen
    · rename_i hsingle
      rw [if_neg hsingle]
      have habove : base < rest.length + 2 := hopen
      rw [decide_eq_true habove, Bool.true_and, Bool.not_eq_true] at hsingle
      have hcount := openBlocks_cons scope rest names names habove
      rw [hsingle] at hcount
      exact hcount

/-- Above scopes that do not wait for a body, no scope does that was there before. -/
theorem Below.settled (h : Below start b) (hsettled : start.current.isWaiting = false) :
    b.depth = start.depth → b.current.isWaiting = false := by
  obtain ⟨above, inner, hinner, hwithin⟩ := h
  intro hdepth
  have hlength := hwithin.length_inner
  dsimp only at hlength
  unfold depth at hdepth
  rw [hinner, List.length_append, hlength] at hdepth
  obtain rfl : above = [] := List.eq_nil_of_length_eq_zero (by omega)
  have hcurrent := hwithin.current.isWaiting hsettled
  obtain ⟨binner, names⟩ := b
  dsimp only at hinner hcurrent
  rw [hinner]
  exact hcurrent

theorem Below.depth (h : Below start b) : start.depth ≤ b.depth := Nat.succ_le_succ h.length

end ScopeStack

namespace Run

open ScopeStack (Below)

variable {a b start : ScopeStack} {base : Nat} {outline : Outline}

/-- An item that moves the scopes closes none of those that were there first. -/
theorem Moves.below (h : Moves start.depth a outline b) (ha : Below start a) : Below start b := by
  have hbegun : Below start a.begun := ha.within (.begun a)
  cases h with
  | condition hwithin state => exact (hbegun.within hwithin).push _
  | elseMark state => exact hbegun.push _
  | blockOpen => exact ha.opened
  | blockClose hb hopen =>
    subst hb
    exact (hbegun.singles.pop hopen).singles
  | unmatched hb hclosed =>
    subst hb
    exact hbegun.singles
  | statement hwithin => exact (hbegun.within hwithin).singles
  | malformed hwithin => exact hbegun.within hwithin

/-- What an item does to the blocks above the first scopes: an opening brace opens one and a closing
brace closes one if there is one. -/
theorem Moves.openBlocks (h : Moves base a outline b) (hbase : 1 ≤ base) (hdepth : base ≤ a.depth)
    (hwaiting : outline = .blockOpen → a.depth = base → a.current.isWaiting = false) :
    b.openBlocks base + (if outline = .blockClose ∧ a.hasOpenBlock base = true then 1 else 0) =
      a.openBlocks base + if outline = .blockOpen then 1 else 0 := by
  have hbegun := a.openBlocks_begun base
  have hwithin {c : ScopeStack} (hc : a.begun.Within c) : c.openBlocks base = a.openBlocks base :=
    (hc.openBlocks (ScopeStack.begun_isWaiting a) base).trans hbegun
  have hbegunDepth := (ScopeStack.Within.begun a).depth
  have hopenBlock := ScopeStack.hasOpenBlock_begun a base
  cases h with
  | @condition c hc state =>
    have hpush := c.openBlocks_push (.conditional state) (hc.depth ▸ hbegunDepth ▸ hdepth)
    simpa [hwithin hc, Scope.conditional] using hpush
  | elseMark state =>
    have hpush := a.begun.openBlocks_push (.conditional state) (hbegunDepth ▸ hdepth)
    simpa [hbegun, Scope.conditional] using hpush
  | blockOpen => simpa using a.openBlocks_opened hdepth (hwaiting rfl)
  | @blockClose closed hclosed hopen =>
    have hblock : a.hasOpenBlock base = true := by
      rw [← hopenBlock, ScopeStack.hasOpenBlock_iff, ← hclosed]
      exact hopen
    have hsame : closed.openBlocks base = a.openBlocks base := by
      rw [hclosed, ScopeStack.openBlocks_singles, hbegun]
    have hpop := ScopeStack.openBlocks_pop hclosed hopen hbase
    rw [ScopeStack.openBlocks_singles, if_pos ⟨rfl, hblock⟩, ← hsame, hpop]
    rfl
  | unmatched hclosed hnone =>
    have hblock : ¬a.hasOpenBlock base = true := by
      rw [← hopenBlock, ScopeStack.hasOpenBlock_iff, ← hclosed]
      exact Nat.not_lt.mpr hnone
    rw [if_neg fun h => hblock h.2, hclosed, ScopeStack.openBlocks_singles, hbegun]
    rfl
  | @statement c hc =>
    rw [ScopeStack.openBlocks_singles, hwithin hc]
    rfl
  | malformed hc =>
    rw [hwithin hc]
    rfl

end Run

end BuildScript
