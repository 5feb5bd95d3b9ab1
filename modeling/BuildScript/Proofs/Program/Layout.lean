import BuildScript.Proofs.Program.Tree
import BuildScript.Script.Item

/-!
Layout: the units of a program over physical lines. A line may hold any number of whole units, may
be continued on the lines after it, and may be blank; how the units fall into lines does not change
what they are.
-/

namespace BuildScript.Program

open Text (SourceLine)

/-- The lines hold the placed items: each logical line lexes to tokens whose clauses are its
items. -/
inductive Laid : List SourceLine → List Placed → Prop
  | nil : Laid [] []
  | line {line : SourceLine} {rest after : List SourceLine} {tokens : List Token}
      {units : List Item} {items : List Placed}
      (hlex : spliceLine line rest = (.ok tokens, after))
      (hunits : (Clause.split tokens).map (fun clause => Item.ofClause clause.2) =
        units.map Sum.inl)
      (hrest : Laid after items) :
      Laid (line :: rest) (units.map (line.number, ·) ++ items)

/-- The items of the lines of a script, each with its line, if every line lexes and none declares
anything. -/
inductive Places : Script → List Placed → Prop
  | nil : Places [] []
  | line {number : Nat} {units : List Item} {script : Script} {items : List Placed}
      (hunits : ∀ unit ∈ units, ∀ header body, unit ≠ .declaration header body)
      (hrest : Places script items) :
      Places (⟨number, .ok units⟩ :: script) (units.map (number, ·) ++ items)

/-- Without declarations, the items of a line are its clauses, and no line after it is touched. -/
theorem ofTokens_eq (number position : Nat) (tokens : List Token) (rest : List SourceLine)
    (units : List Item)
    (h : (Clause.splitFrom position tokens).map (fun clause => Item.ofClause clause.2) =
      units.map Sum.inl) : Item.ofTokens number tokens rest = (units, rest) := by
  fun_induction Clause.splitFrom position tokens generalizing units with
  | case1 position =>
    cases units with
    | nil => simp [Item.ofTokens]
    | cons item items => simp at h
  | case2 position token tokens hread ih =>
    rw [Item.ofTokens, hread]
    exact ih units h
  | case3 position token tokens clause n hread ih =>
    cases units with
    | nil => simp at h
    | cons item items =>
      simp only [List.map_cons, List.cons.injEq] at h
      rw [Item.ofTokens, hread]
      dsimp only
      rw [h.1]
      dsimp only
      rw [ih items h.2]

theorem ofClause_undeclared {clause : Clause} {item : Item}
    (h : Item.ofClause clause = .inl item) (header : Header)
    (body : Except SyntaxError (List SourceLine)) : item ≠ .declaration header body := by
  rintro rfl
  cases clause with
  | statement tokens =>
    simp only [Item.ofClause] at h
    split at h <;> cases h
  | _ => cases h

/-- Lines that hold items make a script that does. -/
theorem Laid.places {lines : List SourceLine} {items : List Placed} (h : Laid lines items) :
    Places (Script.ofLines lines) items := by
  induction h with
  | nil =>
    rw [Script.ofLines]
    exact .nil
  | @line line rest after tokens units items hlex hunits hrest ih =>
    rw [Script.ofLines]
    simp only [hlex]
    rw [ofTokens_eq _ 0 _ _ _ hunits]
    refine .line (fun item hmem => ?_) ih
    have hclause : (Sum.inl item : Item ⊕ Header) ∈ units.map Sum.inl := List.mem_map_of_mem hmem
    rw [← hunits] at hclause
    obtain ⟨clause, -, hclause⟩ := List.mem_map.mp hclause
    exact ofClause_undeclared hclause

end BuildScript.Program
