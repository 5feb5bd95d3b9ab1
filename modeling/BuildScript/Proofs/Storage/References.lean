import BuildScript.Proofs.Evaluation.Triples
import BuildScript.Proofs.Storage.Preservation

/-!
Every reference that an evaluation gives is to a solid slot, and every object it finds is there with
all its fields, as long as the variables have solid slots.
-/

namespace BuildScript

/-- The variables have solid slots, and what is held on to stands. -/
structure Machine.Upholds (anchors : List Anchor) (m : Machine) : Prop where
  sound : m.env.Sound
  stands : ∀ anchor ∈ anchors, m.env.memory.Stands anchor

namespace Machine

variable {m m' : Machine} {anchors more : List Anchor}

theorem Upholds.preserved {base : Nat} (h : m.Upholds anchors)
    (hpreserves : m.Preserves base m') : m'.Upholds anchors where
  sound := hpreserves.sound h.sound
  stands anchor hanchor := hpreserves.persists anchor (h.stands anchor hanchor)

theorem Upholds.subset (h : m.Upholds anchors) (hsubset : more ⊆ anchors) : m.Upholds more where
  sound := h.sound
  stands anchor hanchor := h.stands anchor (hsubset hanchor)

theorem Upholds.solid (h : m.Upholds anchors) {slot : Slot} (hslot : .slot slot ∈ anchors) :
    m.env.memory.Solid slot := h.stands (.slot slot) hslot

theorem Upholds.cons (h : m.Upholds anchors) {anchor : Anchor}
    (hanchor : m.env.memory.Stands anchor) : m.Upholds (anchor :: anchors) where
  sound := h.sound
  stands other hother := by
    rcases List.mem_cons.mp hother with rfl | hmem
    · exact hanchor
    · exact h.stands other hmem

end Machine

open Machine (Upholds Preserves)

namespace Memory

/-- The object in a solid slot stands. -/
theorem Solid.stands {memory : Memory} {slot : Slot} (h : memory.Solid slot) {id : ObjectId}
    (hid : memory.content slot = .object id) : memory.Stands (.object id) := by
  refine ⟨h.object hid, ?_⟩
  intro field hfield
  apply h.part
  unfold Part
  rw [hid]
  exact List.mem_map_of_mem hfield

end Memory

namespace Eval

variable {α : Type} {ctx : Context}

/-- The evaluation gives a value or a reference to a slot that stands. -/
def Refers (ctx : Context) (x : Eval Operand) : Prop :=
  ∀ anchors, Leads ctx (Upholds anchors) x fun operand => Upholds (operand.anchors ++ anchors)

/-- What every evaluation preserves, whatever scopes count as those of callers. -/
theorem preserves (h : ctx.Preserves) : Steps (Keeps (Preserves 0) ctx) :=
  (preserves_effects h).steps

theorem leads_upheld {x : Eval α} (h : Keeps (Preserves 0) ctx x) (anchors : List Anchor) :
    Leads ctx (Upholds anchors) x fun _ => Upholds anchors :=
  .of_keeps h fun _ _ hpreserves hupholds => hupholds.preserved hpreserves

/-- What gives no references refers to nothing. -/
theorem Refers.of_temporary {x : Eval Operand} (h : Keeps (Preserves 0) ctx x)
    (htemporary : Temporary x) : Refers ctx x := by
  intro anchors held m operand m' hm hrun
  have hupheld := leads_upheld h anchors held m operand m' hm hrun
  rwa [htemporary _ _ _ _ hrun]

theorem require_leads (operand : Operand) {P : Machine → Prop} :
    Leads ctx P (require operand) fun found m => found = operand ∧ P m := by
  refine .read fun m hm => ?_
  split
  · exact .raise _
  · apply Leads.pure
    rintro _ rfl
    exact ⟨rfl, hm⟩

theorem valueOf_leads (operand : Operand) {P : Machine → Prop} :
    Leads ctx P (valueOf operand) fun _ => P :=
  .read fun _ hm => .pure fun _ heq => heq ▸ hm

theorem elementOf_leads (index : Int32) (items : List Slot) (anchors : List Anchor) :
    Leads ctx (fun m => m.Upholds anchors ∧ ∀ item ∈ items, m.env.memory.Solid item)
      (elementOf index items) fun operand => Upholds (operand.anchors ++ anchors) := by
  unfold elementOf
  refine .bind (.ofExcept _ fun i m _ hm => hm) fun i => ?_
  split
  · rename_i slot hslot
    apply Leads.pure
    intro m hm
    exact hm.1.cons (hm.2 slot (List.mem_of_getElem? hslot))
  · exact .raise _

/-- The parts of a value that was given a place stand. -/
theorem place_leads (value : Value) (anchors : List Anchor) :
    Leads ctx (Upholds anchors) (place value) fun content m => m.Upholds anchors ∧
      (∀ part ∈ m.env.memory.parts content, m.env.memory.Solid part) ∧
        ∀ id, content = .object id → m.env.memory.Stands (.object id) := by
  intro held m content m' hm hrun
  cases hrun
  have hplanted := Memory.place_planted m.env.memory value
  have hparts (part : Slot) (hpart : part ∈ (m.env.memory.place value).2.parts
      (m.env.memory.place value).1) : (m.env.memory.place value).2.Solid part :=
    hplanted.solidPart hpart
  have hplaced : m.Preserves 0 { m with env := { m.env with memory := (m.env.memory.place value).2 } } :=
    .placed m value
  refine ⟨hm.preserved hplaced, hparts, ?_⟩
  intro id hid
  refine ⟨(hplanted.object id hid).2, ?_⟩
  intro field hfield
  apply hparts
  rw [hid]
  exact List.mem_map_of_mem hfield

theorem character_refers (index : Int32) (value : Value) (anchors : List Anchor) :
    Leads ctx (Upholds anchors) (element.character index value)
      fun operand => Upholds (operand.anchors ++ anchors) := by
  unfold element.character
  split
  · exact .bind (.ofExcept _ fun i m _ hm => hm) fun i => .pure fun m hm => hm
  · exact .raise _

/-- An element of something solid is solid, and a value in a place of its own is. -/
theorem element_leads (container : Operand) (index : Int32) (anchors : List Anchor) :
    Leads ctx (Upholds (container.anchors ++ anchors)) (element container index)
      fun operand => Upholds (operand.anchors ++ anchors) := by
  unfold element
  dsimp only
  split
  · refine .bind (place_leads _ anchors) fun content => ?_
    split
    · exact (elementOf_leads index _ anchors).strengthen fun m hm => ⟨hm.1, hm.2.1⟩
    · exact (elementOf_leads index [] anchors).strengthen fun m hm => ⟨hm.1, List.forall_mem_nil _⟩
  · refine .bind (place_leads _ anchors) fun content => ?_
    split
    · exact (elementOf_leads index _ anchors).strengthen fun m hm => ⟨hm.1, hm.2.1⟩
    · exact (elementOf_leads index [] anchors).strengthen fun m hm => ⟨hm.1, List.forall_mem_nil _⟩
  · exact character_refers index _ anchors
  · rename_i slot
    refine .read fun m hm => ?_
    have hslot : m.env.memory.Solid slot := hm.solid List.mem_cons_self
    have hrest : m.Upholds anchors := hm.subset (List.subset_cons_self _ _)
    have hitems {items : List Slot} (hcontent : m.env.memory.parts (m.env.memory.content slot) = items) :
        Leads ctx (· = m) (elementOf index items)
          fun operand => Upholds (operand.anchors ++ anchors) := by
      apply (elementOf_leads index items anchors).strengthen
      rintro _ rfl
      refine ⟨hrest, fun item hitem => hslot.part ?_⟩
      unfold Memory.Part
      rwa [hcontent]
    split
    · rename_i hcontent
      apply hitems
      rw [hcontent]
      rfl
    · rename_i hcontent
      apply hitems
      rw [hcontent]
      rfl
    · have hcharacter : Leads ctx (Upholds anchors)
          (valueOf (.reference slot) >>= element.character index)
          fun operand => Upholds (operand.anchors ++ anchors) :=
        .bind (valueOf_leads _) fun value => character_refers index value anchors
      apply hcharacter.strengthen
      rintro _ rfl
      exact hrest

/-- The object that an operand holds stands. -/
theorem objectOf_leads (operand : Operand) (anchors : List Anchor) :
    Leads ctx (Upholds (operand.anchors ++ anchors)) (objectOf operand) fun found m =>
      m.Upholds anchors ∧ ∀ id, found = some id → m.env.memory.Stands (.object id) := by
  unfold objectOf
  split
  · rename_i slot
    refine .read fun m hm => ?_
    have hrest : m.Upholds anchors := hm.subset (List.subset_cons_self _ _)
    have hslot : m.env.memory.Solid slot := hm.solid List.mem_cons_self
    split
    · rename_i id hcontent
      apply Leads.pure
      rintro _ rfl
      refine ⟨hrest, ?_⟩
      rintro _ ⟨⟩
      exact hslot.stands hcontent
    · apply Leads.pure
      rintro _ rfl
      exact ⟨hrest, nofun⟩
  · refine .bind (place_leads _ anchors) fun content => ?_
    split
    · apply Leads.pure
      rintro m ⟨hupholds, -, hobject⟩
      refine ⟨hupholds, ?_⟩
      rintro _ ⟨⟩
      exact hobject _ rfl
    · apply Leads.pure
      rintro m ⟨hupholds, -, -⟩
      exact ⟨hupholds, nofun⟩
  · apply Leads.pure
    intro m hm
    exact ⟨hm, nofun⟩

/-- A field of an object that stands is solid. -/
theorem memberOf_leads (target : Operand) (name : String) (anchors : List Anchor) :
    Leads ctx (Upholds (target.anchors ++ anchors)) (memberOf target name)
      fun operand => Upholds (operand.anchors ++ anchors) := by
  refine .bind (objectOf_leads target anchors) fun found => ?_
  split
  · exact .read fun m hm => .raise _
  · rename_i id
    have hobject : Leads ctx (fun m => m.Upholds anchors ∧
        ∀ other, some id = some other → m.env.memory.Stands (.object other))
        (instantiated id name) fun object m =>
          m.Upholds anchors ∧ ∀ field ∈ object.fields, m.env.memory.Solid field.2 := by
      refine .read fun m hm => ?_
      dsimp only
      split
      · exact .raise _
      · apply Leads.pure
        rintro _ rfl
        exact ⟨hm.1, (hm.2 id rfl).2⟩
    refine .bind hobject fun object => ?_
    split
    · rename_i slot hslot
      apply Leads.pure
      rintro m ⟨hupholds, hfields⟩
      exact hupholds.cons (hfields _ (lookupName_mem hslot))
    · apply Leads.pure
      rintro m ⟨hupholds, -⟩
      exact hupholds
    · exact .raise _

/-- A variable that a name stands for has a solid slot. -/
theorem visible_stands {m : Machine} {anchors : List Anchor} (h : m.Upholds anchors) {name : String}
    {slot : Slot} (hslot : m.env.scopes.lookup name = some slot) :
    m.Upholds (.slot slot :: anchors) :=
  h.cons (h.sound slot (ScopeStack.lookup_mem hslot))

theorem resolve_refers (name : String) : Refers ctx do return resolve (← machine) name := by
  intro anchors
  refine .read fun m hm => .pure ?_
  rintro _ rfl
  unfold resolve
  split
  · exact hm
  · split
    · rename_i slot hslot
      exact visible_stands hm hslot
    · split
      · exact hm
      · split <;> exact hm

theorem receiver_refers : Refers ctx receiver := by
  intro anchors
  refine .read fun m hm => ?_
  split
  · rename_i slot hslot
    apply Leads.pure
    rintro _ rfl
    exact visible_stands hm hslot
  · exact .raise _

/-- What was assigned to stands. -/
theorem assign_leads (target : Operand) (source : Value) (anchors : List Anchor) :
    Leads ctx (Upholds (target.anchors ++ anchors)) (assign target source)
      fun operand => Upholds (operand.anchors ++ anchors) := by
  cases target with
  | temporary value isLiteral => exact .raise _
  | reference slot =>
    refine .read fun m hm => ?_
    refine .bind (.ofExcept _ fun value after _ heq => heq) fun value => ?_
    refine .bind (R := fun _ => Upholds (.slot slot :: anchors)) ?_ fun _ => .pure fun _ hm => hm
    rintro held m _ m' rfl hrun
    cases hrun
    have hwritten : m.Preserves 0 { m with env := m.env.write slot value } := .written m slot value
    exact hm.preserved hwritten

theorem declare_refers (h : ctx.Preserves) (type : DataType) (name : String)
    (initial : Option Value) : Refers ctx (declare type name initial) := by
  intro anchors
  have hdefine (value : Value) : Leads ctx (Upholds anchors) (do
      return Operand.reference (← define name value))
      fun operand => Upholds (operand.anchors ++ anchors) := by
    intro held m operand m' hm hrun
    obtain ⟨slot, between, hrun, hresult⟩ := andThen_ok hrun
    obtain ⟨env, hdefine, rfl⟩ := define_ok hrun
    cases hresult
    have hdefined : m.Preserves 0 { m with env } ∧ env.memory.Solid slot :=
      Preserves.defined hdefine
    exact (hm.preserved hdefined.1).cons hdefined.2
  have hsteps := preserves h
  cases initial with
  | some value => exact .bind (leads_upheld (hsteps.ofExcept _) anchors) hdefine
  | none => exact .bind (leads_upheld (hsteps.startOf type name) anchors) hdefine

section

variable {x container index object target value : Eval Operand}

theorem indexWith_refers (hcomposes : Composes (Keeps (Preserves 0) ctx))
    (hcontainer : Refers ctx container) (hindex : Keeps (Preserves 0) ctx index) :
    Refers ctx (indexWith container index) := by
  intro anchors
  have hrest (operand : Operand) : Leads ctx (Upholds (operand.anchors ++ anchors)) (do
      let position ← holding operand.anchors (valueBy index)
      element operand (← Eval.ofExcept position.asInt))
      fun operand => Upholds (operand.anchors ++ anchors) := by
    refine .bind (leads_upheld (hcomposes.holding _ (hcomposes.valueBy hindex)) _) fun position => ?_
    refine .bind (leads_upheld (hcomposes.ofExcept _) _) fun i => ?_
    exact element_leads operand i anchors
  exact .bind (hcontainer anchors) fun found => .bind (require_leads found) fun operand =>
    (hrest operand).strengthen fun m hm => hm.1 ▸ hm.2

theorem memberWith_refers (hobject : Refers ctx object) (name : String) :
    Refers ctx (memberWith object name) := by
  intro anchors
  exact .bind (hobject anchors) fun found => .bind (require_leads found) fun operand =>
    (memberOf_leads operand name anchors).strengthen fun m hm => hm.1 ▸ hm.2

theorem declareWith_refers (h : ctx.Preserves) (type : DataType) (name : String)
    (hvalue : Keeps (Preserves 0) ctx value) : Refers ctx (declareWith type name value) := by
  intro anchors
  exact .bind (leads_upheld ((preserves h).valueBy hvalue) anchors) fun initial =>
    declare_refers h type name _ anchors

/-- An assignment gives its target. -/
theorem assignWith_refers (hcomposes : Composes (Keeps (Preserves 0) ctx)) (op : Operator)
    (htarget : Refers ctx target) (hvalue : Keeps (Preserves 0) ctx value) :
    Refers ctx (assignWith op target value) := by
  intro anchors
  have hsource (target : Operand) (source : Value) :
      Leads ctx (Upholds (target.anchors ++ anchors)) (assignSource op target source)
        fun operand => Upholds (operand.anchors ++ anchors) := by
    unfold assignSource
    split
    · exact assign_leads target source anchors
    · refine .bind (leads_upheld (hcomposes.valueOf target) _) fun current => ?_
      refine .bind (leads_upheld (hcomposes.ofExcept _) _) fun value => ?_
      exact assign_leads target value anchors
  have hrest (target : Operand) : Leads ctx (Upholds (target.anchors ++ anchors))
      (holding target.anchors (Eval.valueBy value) >>= assignSource op target)
        fun operand => Upholds (operand.anchors ++ anchors) :=
    .bind (leads_upheld (hcomposes.holding _ (hcomposes.valueBy hvalue)) _) fun source =>
      hsource target source
  refine .bind (htarget anchors) fun target => ?_
  cases target with
  | reference slot => exact hrest _
  | temporary value isLiteral =>
    exact .bind (require_leads _) fun operand =>
      (hrest operand).strengthen fun m hm => hm.1 ▸ hm.2

end

/-- Every reference that an expression gives is to a solid slot, in every context that preserves
storage. -/
theorem evalExpr_refers (h : ctx.Preserves) (expr : Expr) : Refers ctx (evalExpr expr) := by
  cases expr with
  | literal value =>
    unfold evalExpr
    intro anchors
    exact .pure fun _ hm => hm
  | identifier name =>
    unfold evalExpr
    exact resolve_refers name
  | ownMember name =>
    unfold evalExpr
    intro anchors
    exact .bind (receiver_refers anchors) fun target => memberOf_leads target name anchors
  | declare type name =>
    unfold evalExpr
    exact declare_refers h type name none
  | arrayLiteral elements =>
    have hkeeps := (preserves h).evalExpr (.arrayLiteral elements)
    unfold evalExpr at hkeeps ⊢
    exact .of_temporary hkeeps (.bind fun values => .bind fun value => .ofValue value)
  | unary op operand =>
    have hkeeps := (preserves h).evalExpr (.unary op operand)
    unfold evalExpr at hkeeps ⊢
    exact .of_temporary hkeeps (.unaryWith op _)
  | binary op left right =>
    have hsteps := preserves h
    have hkeeps := hsteps.evalExpr (.binary op left right)
    have hleft := evalExpr_refers h left
    have hright := hsteps.evalExpr right
    unfold evalExpr at hkeeps ⊢
    split
    · exact indexWith_refers hsteps.toComposes hleft hright
    · rename_i hindex
      rw [if_neg hindex] at hkeeps
      split
      · rename_i hlogic
        rw [if_pos hlogic] at hkeeps
        exact .of_temporary hkeeps (.logicWith op _ _)
      · rename_i hlogic
        rw [if_neg hlogic] at hkeeps
        split
        · split
          · exact declareWith_refers h _ _ hright
          · exact assignWith_refers hsteps.toComposes _ hleft hright
        · rename_i hassign
          rw [if_neg hassign] at hkeeps
          exact .of_temporary hkeeps (.binaryWith op _ _)
  | member object name =>
    unfold evalExpr
    exact memberWith_refers (evalExpr_refers h object) name
  | call callee arguments =>
    have hkeeps := (preserves h).evalExpr (.call callee arguments)
    refine .of_temporary hkeeps ?_
    unfold evalExpr
    split
    · exact .bind fun operand => .bind fun target => .callMember _ _ _
    · exact .bind fun target => .callMember _ _ _
    · exact .bind fun function => .bind fun args => .callValue _ _
  | cast type arguments =>
    have hkeeps := (preserves h).evalExpr (.cast type arguments)
    unfold evalExpr at hkeeps ⊢
    exact .of_temporary hkeeps (.castWith type _)

end Eval

end BuildScript
