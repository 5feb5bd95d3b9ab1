import Mathlib
import BuildScript.Proofs.Program.Execution

/-!
Trial programs: for every shape of statements the programs that only test literals and compute
nothing, written one unit a line. They show what a shape alone makes of `if` and `else`.
-/

namespace BuildScript.Program

open Text (SourceLine)

/-- The condition of a trial. -/
def verdict (outcome : Bool) : Except SyntaxError Expr := .ok (.literal (.bool outcome))

/-- The single statement of a trial. -/
def idle (line : Nat) : Tree := .expression line (.literal (.int 0))

mutual

/-- A program of the same shape that tests literals and computes nothing, its units on lines of
their own from `first` on. -/
inductive Trial : Nat → Tree → Tree → Prop
  | expression {first line : Nat} {expr : Expr} :
      Trial first (.expression line expr) (idle first)
  | giveBack {first line : Nat} {expr : Option (Except SyntaxError Expr)} :
      Trial first (.giveBack line expr) (idle first)
  | block {first line line' : Nat} {body body' : List Tree}
      (hbody : TrialAll (first + 1) body body') :
      Trial first (.block line body line')
        (.block first body' (first + 1 + (itemsAll body').length))
  | ifOnly {first line : Nat} {condition : Except SyntaxError Expr} {body body' : Tree}
      (outcome : Bool) (hbody : Trial (first + 1) body body') :
      Trial first (.ifOnly line condition body) (.ifOnly first (verdict outcome) body')
  | ifElse {first line elseLine : Nat} {condition : Except SyntaxError Expr}
      {body body' otherwise otherwise' : Tree} (outcome : Bool)
      (hbody : Trial (first + 1) body body')
      (hotherwise : Trial (first + 1 + (items body').length + 1) otherwise otherwise') :
      Trial first (.ifElse line condition body elseLine otherwise)
        (.ifElse first (verdict outcome) body' (first + 1 + (items body').length) otherwise')

inductive TrialAll : Nat → List Tree → List Tree → Prop
  | nil {first : Nat} : TrialAll first [] []
  | cons {first : Nat} {tree tree' : Tree} {rest rest' : List Tree}
      (htree : Trial first tree tree')
      (hrest : TrialAll (first + (items tree').length) rest rest') :
      TrialAll first (tree :: rest) (tree' :: rest')

end

variable {first : Nat} {tree tree' : Tree} {trees trees' : List Tree}

theorem Trial.isIf (h : Trial first tree tree') : tree'.isIf = tree.isIf := by
  cases h <;> rfl

mutual

theorem Trial.guarded : {first : Nat} → {tree tree' : Tree} → Trial first tree tree' →
    Guarded tree → Guarded tree'
  | _, _, _, .expression, _ => trivial
  | _, _, _, .giveBack, _ => trivial
  | _, _, _, .block hbody, h => TrialAll.guarded hbody h
  | _, _, _, .ifOnly _ hbody, h =>
    have hguarded := Trial.guarded hbody h
    hguarded
  | _, _, _, .ifElse _ hbody hotherwise, h =>
    ⟨hbody.isIf.trans h.1, Trial.guarded hbody h.2.1, Trial.guarded hotherwise h.2.2⟩

theorem TrialAll.guarded : {first : Nat} → {trees trees' : List Tree} →
    TrialAll first trees trees' → GuardedAll trees → GuardedAll trees'
  | _, _, _, .nil, _ => trivial
  | _, _, _, .cons htree hrest, h => ⟨Trial.guarded htree h.1, TrialAll.guarded hrest h.2⟩

end

mutual

/-- Every shape has a trial. -/
theorem Trial.exists (first : Nat) : (tree : Tree) → ∃ tree', Trial first tree tree'
  | .expression _ _ => ⟨_, .expression⟩
  | .giveBack _ _ => ⟨_, .giveBack⟩
  | .block _ body _ =>
    have ⟨_, hbody⟩ := TrialAll.exists (first + 1) body
    ⟨_, .block hbody⟩
  | .ifOnly _ _ body =>
    have ⟨_, hbody⟩ := Trial.exists (first + 1) body
    ⟨_, .ifOnly false hbody⟩
  | .ifElse _ _ body _ otherwise =>
    have ⟨body', hbody⟩ := Trial.exists (first + 1) body
    have ⟨_, hotherwise⟩ := Trial.exists (first + 1 + (items body').length + 1) otherwise
    ⟨_, .ifElse false hbody hotherwise⟩

theorem TrialAll.exists (first : Nat) : (trees : List Tree) → ∃ trees', TrialAll first trees trees'
  | [] => ⟨_, .nil⟩
  | tree :: rest =>
    have ⟨tree', htree⟩ := Trial.exists first tree
    have ⟨_, hrest⟩ := TrialAll.exists (first + (items tree').length) rest
    ⟨_, .cons htree hrest⟩

end

/-- The units of trials. -/
def trialUnits : List Item :=
  [.condition (verdict true), .condition (verdict false), .elseMark, .blockOpen, .blockClose,
    .expression (.literal (.int 0))]

/-- Units of trials on the lines from `first` on. -/
structure Listed (first : Nat) (placed : List Placed) : Prop where
  numbers : placed.map Prod.fst = List.range' first placed.length
  units : ∀ unit ∈ placed.map Prod.snd, unit ∈ trialUnits

theorem Listed.cons {item : Item} {rest : List Placed} (hitem : item ∈ trialUnits)
    (h : Listed (first + 1) rest) : Listed first ((first, item) :: rest) where
  numbers := by
    rw [List.map_cons, h.numbers, List.length_cons, List.range'_succ]
  units := by
    intro unit hmem
    rcases List.mem_cons.mp hmem with rfl | hmem
    · exact hitem
    · exact h.units unit hmem

theorem Listed.append {before after : List Placed} (hbefore : Listed first before)
    (hafter : Listed (first + before.length) after) : Listed first (before ++ after) where
  numbers := by
    rw [List.map_append, hbefore.numbers, hafter.numbers, List.length_append]
    exact List.range'_append_1
  units := by
    intro unit hmem
    rw [List.map_append, List.mem_append] at hmem
    exact hmem.elim (hbefore.units unit) (hafter.units unit)

theorem Listed.nil : Listed first [] := ⟨rfl, nofun⟩

theorem verdict_unit (outcome : Bool) : .condition (verdict outcome) ∈ trialUnits := by
  cases outcome <;> simp [trialUnits]

mutual

theorem Trial.listed : {first : Nat} → {tree tree' : Tree} → Trial first tree tree' →
    Listed first (items tree')
  | _, _, _, .expression | _, _, _, .giveBack => by
    unfold idle items
    exact .cons (by simp [trialUnits]) .nil
  | _, _, _, .block hbody => by
    unfold items
    have hclose : Item.blockClose ∈ trialUnits := by simp [trialUnits]
    exact .cons (by simp [trialUnits]) ((TrialAll.listed hbody).append (.cons hclose .nil))
  | _, _, _, .ifOnly outcome hbody => by
    unfold items
    exact .cons (verdict_unit outcome) (Trial.listed hbody)
  | _, _, _, .ifElse outcome hbody hotherwise => by
    unfold items
    have helse : Item.elseMark ∈ trialUnits := by simp [trialUnits]
    exact .cons (verdict_unit outcome)
      ((Trial.listed hbody).append (.cons helse (Trial.listed hotherwise)))

theorem TrialAll.listed : {first : Nat} → {trees trees' : List Tree} →
    TrialAll first trees trees' → Listed first (itemsAll trees')
  | _, _, _, .nil => .nil
  | _, _, _, .cons htree hrest => (Trial.listed htree).append (TrialAll.listed hrest)

end

/-- How a unit of a trial is written. -/
def unitText : Item → String
  | .condition (.ok (.literal (.bool true))) => "if (true)"
  | .condition _ => "if (false)"
  | .elseMark => "else"
  | .blockOpen => "\x7b"
  | .blockClose => "\x7d"
  | _ => "0"

/-- A unit of a trial is read back from its line. -/
theorem unitText_reads {item : Item} (h : item ∈ trialUnits) :
    ∃ tokens, Lexed.ofLine (unitText item) = .ok ⟨tokens, false⟩ ∧
      (Clause.split tokens).map (fun clause => Item.ofClause clause.2) =
        [item].map Sum.inl := by
  simp only [trialUnits, List.mem_cons, List.not_mem_nil, or_false] at h
  rcases h with rfl | rfl | rfl | rfl | rfl | rfl
  all_goals exact ⟨_, by cbv, by cbv⟩

/-- The source text of lines, each ended by a newline. -/
def sourceOf (lines : List String) : String :=
  String.ofList (lines.flatMap fun line => line.toList ++ ['\n'])

theorem splitAtNewlines_line {line : List Char} (hline : '\n' ∉ line) (rest : List Char) :
    Text.splitAtNewlines (line ++ '\n' :: rest) =
      (line, (Text.splitAtNewlines rest).1 :: (Text.splitAtNewlines rest).2) := by
  induction line with
  | nil => rfl
  | cons c line ih =>
    have hne : (c == '\n') = false := by
      rw [beq_eq_false_iff_ne]
      rintro rfl
      exact hline List.mem_cons_self
    have hrest := ih fun hmem => hline (List.mem_cons_of_mem _ hmem)
    rw [List.cons_append, Text.splitAtNewlines, hrest]
    simp only [hne, Bool.false_eq_true, if_false]

theorem dropReturn_eq {line : List Char} (hline : '\r' ∉ line) : Text.dropReturn line = line := by
  unfold Text.dropReturn
  split
  · rename_i hlast
    have hlast' : line.getLast? = some '\r' := by simpa using hlast
    exact absurd (List.mem_of_getLast? hlast') hline
  · rfl

/-- A text is cut back into the lines it was made of. -/
theorem lines_sourceOf {lines : List String}
    (hplain : ∀ line ∈ lines, '\n' ∉ line.toList ∧ '\r' ∉ line.toList) :
    Text.lines (sourceOf lines) = lines := by
  have hpieces : Text.terminatedLines
      (Text.splitAtNewlines (lines.flatMap fun line => line.toList ++ ['\n'])).1
      (Text.splitAtNewlines (lines.flatMap fun line => line.toList ++ ['\n'])).2 =
        lines.map String.toList := by
    induction lines with
    | nil => rfl
    | cons line rest ih =>
      obtain ⟨hnewline, hreturn⟩ := hplain line List.mem_cons_self
      have hrest := ih fun line hmem => hplain line (List.mem_cons_of_mem _ hmem)
      rw [List.flatMap_cons, List.append_assoc, List.singleton_append,
        splitAtNewlines_line hnewline]
      simp only [Text.terminatedLines]
      rw [hrest, dropReturn_eq hreturn, List.map_cons]
  unfold Text.lines sourceOf
  simp only [String.toList_ofList]
  rw [hpieces, List.map_map]
  simp [Function.comp_def]

/-- The script of a trial: its units, one a line. -/
def scriptOf (placed : List Placed) : String := sourceOf (placed.map (unitText ·.2))

theorem split_scriptOf {placed : List Placed} (h : Listed 1 placed) :
    SourceLine.split (scriptOf placed) = placed.map fun unit => ⟨unit.1, unitText unit.2⟩ := by
  have hplain : ∀ line ∈ placed.map (unitText ·.2), '\n' ∉ line.toList ∧ '\r' ∉ line.toList := by
    intro line hmem
    obtain ⟨unit, hunit, rfl⟩ := List.mem_map.mp hmem
    have hitem := h.units unit.2 (List.mem_map_of_mem hunit)
    simp only [trialUnits, List.mem_cons, List.not_mem_nil, or_false] at hitem
    rcases hitem with heq | heq | heq | heq | heq | heq
    all_goals
      rw [heq]
      decide
  unfold SourceLine.split scriptOf
  rw [lines_sourceOf hplain]
  apply List.ext_getElem
  · simp
  · intro i hi hi'
    have hnumber : (placed.map Prod.fst)[i]? = (List.range' 1 placed.length)[i]? := by
      rw [h.numbers]
    have hlength : i < placed.length := by simpa using hi'
    simp [hlength] at hnumber
    simp [hnumber, Nat.add_comm]

/-- The script of a trial holds its units. -/
theorem laid_scriptOf {placed : List Placed} (h : Listed 1 placed) :
    Laid (SourceLine.split (scriptOf placed)) placed := by
  rw [split_scriptOf h]
  have hunits := h.units
  clear h
  induction placed with
  | nil => exact .nil
  | cons unit rest ih =>
    obtain ⟨tokens, hlex, hread⟩ := unitText_reads (hunits unit.2 List.mem_cons_self)
    have hrest := ih fun unit hmem => hunits unit (List.mem_cons_of_mem _ hmem)
    have hline (after : List SourceLine) :
        spliceLine ⟨unit.1, unitText unit.2⟩ after = (.ok tokens, after) := by
      cases after <;> simp [spliceLine, hlex]
    exact Laid.line (hline _) hread hrest

/-- The trials of a shape have scripts. -/
theorem TrialAll.laid (h : TrialAll 1 trees trees') :
    ∃ source, Laid (SourceLine.split source) (itemsAll trees') :=
  ⟨_, laid_scriptOf h.listed⟩

end BuildScript.Program
