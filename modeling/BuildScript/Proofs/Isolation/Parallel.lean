import BuildScript.Proofs.Evaluation.Steps
import BuildScript.Proofs.Scopes.Within

/-!
Two runs side by side, on machines that differ in the scopes of a caller. Of a caller's scopes an
evaluation above them can tell one thing only: whether they keep an object in existence. So the two
runs hold on to things of their own, such that both keep the same in all.
-/

namespace BuildScript

/-- The machine with other scopes above the global one. -/
def Machine.over (m : Machine) (inner : List Scope) : Machine :=
  m.mapScopes fun stack => { stack with inner }

theorem Machine.mapScopes_over (m : Machine) {f : ScopeStack → ScopeStack}
    {inner inner' : List Scope}
    (h : f ⟨inner, m.env.scopes.global⟩ = ⟨inner', m.env.scopes.global⟩) :
    (m.over inner).mapScopes f = m.over inner' := by
  show m.mapScopes (fun _ => f ⟨inner, m.env.scopes.global⟩) = _
  rw [h]
  rfl

/-- Two machines that differ in their scopes, their line and their last `if` at most. -/
def Machine.Resembles (m m' : Machine) : Prop :=
  m' = { m with
    env := { m.env with scopes := m'.env.scopes }
    line := m'.line
    lastIf := m'.lastIf }

/-- What scopes keep in existence. -/
def keptBy (scopes : List Scope) : List Anchor :=
  (scopes.flatMap (·.bindings)).map fun entry => .slot entry.2

/-- What is held over two sequences of scopes keeps, with what they keep, the same in existence. -/
def Shares (below below' : List Scope) (held held' : List Anchor) : Prop :=
  ∀ anchor, anchor ∈ keptBy below ++ held ↔ anchor ∈ keptBy below' ++ held'

theorem Shares.append {below below' : List Scope} {held held' : List Anchor}
    (h : Shares below below' held held') (anchors : List Anchor) :
    Shares below below' (anchors ++ held) (anchors ++ held') := by
  intro anchor
  have hheld := h anchor
  simp only [List.mem_append] at hheld ⊢
  grind

theorem keptBy_append (above below : List Scope) :
    keptBy (above ++ below) = keptBy above ++ keptBy below := by
  unfold keptBy
  rw [List.flatMap_append, List.map_append]

/-- Scopes that are above both keep the same in addition. -/
theorem Shares.above {below below' : List Scope} {held held' : List Anchor}
    (h : Shares below below' held held') (above : List Scope) :
    Shares (above ++ below) (above ++ below') held held' := by
  intro anchor
  have hheld := h anchor
  rw [keptBy_append, keptBy_append]
  simp only [List.mem_append] at hheld ⊢
  grind

namespace Eval

/-- Whether an object lies in what an evaluation holds on to. -/
def leadsTo (memory : Memory) (id : ObjectId) : Anchor → Bool
  | .slot slot => memory.reaches id slot
  | .object other =>
    other == id || (memory.instanceOf other).fields.any fun (_, slot) => memory.reaches id slot

theorem isAlive_iff (m : Machine) (held : List Anchor) (id : ObjectId) :
    isAlive m held id = true ↔
      (∃ anchor ∈ keptBy m.env.scopes.inner ++ held, leadsTo m.env.memory id anchor = true) ∨
        ∃ entry ∈ m.env.scopes.global, m.env.memory.reaches id entry.2 = true := by
  show (m.env.scopes.slots.any (m.env.memory.reaches id) || held.any (leadsTo m.env.memory id)) =
    true ↔ _
  simp only [ScopeStack.slots, keptBy, List.map_append, List.any_append, List.any_map,
    Bool.or_eq_true, List.any_eq_true, List.mem_append, List.mem_map, Function.comp_apply]
  constructor
  · rintro ((⟨entry, hmem, hreaches⟩ | ⟨entry, hmem, hreaches⟩) | ⟨anchor, hmem, hleads⟩)
    · exact .inl ⟨.slot entry.2, .inl ⟨entry, hmem, rfl⟩, hreaches⟩
    · exact .inr ⟨entry, hmem, hreaches⟩
    · exact .inl ⟨anchor, .inr hmem, hleads⟩
  · rintro (⟨anchor, ⟨entry, hmem, rfl⟩ | hmem, hleads⟩ | ⟨entry, hmem, hreaches⟩)
    · exact .inl (.inl ⟨entry, hmem, hleads⟩)
    · exact .inr ⟨anchor, hmem, hleads⟩
    · exact .inl (.inr ⟨entry, hmem, hreaches⟩)

theorem isAlive_congr {m m' : Machine} {held held' : List Anchor}
    (hmemory : m'.env.memory = m.env.memory) (hglobal : m'.env.scopes.global = m.env.scopes.global)
    (hkept : Shares m.env.scopes.inner m'.env.scopes.inner held held') (id : ObjectId) :
    isAlive m held id = isAlive m' held' id := by
  rw [Bool.eq_iff_iff, isAlive_iff, isAlive_iff, hmemory, hglobal]
  simp only [hkept _]

variable {α β : Type} {R : Machine → Machine → Prop} {below below' : List Scope} {ctx : Context}

/-- On related machines the two evaluations have the same result and leave related machines. -/
def Parallel (R : Machine → Machine → Prop) (below below' : List Scope) (ctx : Context)
    ⦃α : Type⦄ (x x' : Eval α) : Prop :=
  ∀ ⦃held held' : List Anchor⦄, Shares below below' held held' → ∀ ⦃m m' : Machine⦄, R m m' →
    Agree R (x { ctx with held } m) (x' { ctx with held := held' } m')

/-- On related machines the evaluation has the same result and leaves related machines. -/
def Isolated (R : Machine → Machine → Prop) (below below' : List Scope) (ctx : Context)
    ⦃α : Type⦄ (x : Eval α) : Prop :=
  Parallel R below below' ctx x x

namespace Parallel

theorem bind {x x' : Eval α} {f f' : α → Eval β} (hx : Parallel R below below' ctx x x')
    (hf : ∀ a, Parallel R below below' ctx (f a) (f' a)) :
    Parallel R below below' ctx (x >>= f) (x' >>= f') := by
  intro held held' hshares m m' hm
  obtain ⟨hresult, hafter⟩ := hx hshares hm
  rw [andThen_apply, andThen_apply]
  generalize x { ctx with held } m = first at hresult hafter
  generalize x' { ctx with held := held' } m' = second at hresult hafter
  obtain ⟨result, after⟩ := first
  obtain ⟨result', after'⟩ := second
  obtain rfl : result = result' := hresult
  cases result with
  | ok a => exact hf a hshares hafter
  | error fault => exact ⟨rfl, hafter⟩

theorem attempt {x x' : Eval α} (hx : Parallel R below below' ctx x x') :
    Parallel R below below' ctx (attempt x) (attempt x') := by
  intro held held' hshares m m' hm
  obtain ⟨hresult, hafter⟩ := hx hshares hm
  exact ⟨congrArg Except.ok hresult, hafter⟩

/-- Both evaluations go on with what each reads off its machine. -/
theorem look {f f' : Machine → Eval α}
    (h : ∀ ⦃held held' : List Anchor⦄, Shares below below' held held' → ∀ ⦃m m' : Machine⦄,
      R m m' → Agree R (f m { ctx with held } m) (f' m' { ctx with held := held' } m')) :
    Parallel R below below' ctx (machine >>= f) (machine >>= f') := h

end Parallel

namespace Isolated

/-- What machines that resemble each other have in common is read off both. -/
theorem read (hR : ∀ ⦃m m' : Machine⦄, R m m' → m.Resembles m') {f : Machine → Eval α}
    (hread : ∀ (m : Machine) scopes line outcome log,
      f ({ m with env := { m.env with scopes }, line, lastIf := outcome }.withLog log) = f m)
    (hf : ∀ m, Isolated R below below' ctx (f m)) :
    Isolated R below below' ctx (machine >>= f) := by
  refine Parallel.look fun held held' hshares m m' hm => ?_
  have hsame : f m' = f m := by
    rw [hR hm]
    exact hread m _ _ _ m.log
  rw [hsame]
  exact hf m hshares hm

theorem composes (hR : ∀ ⦃m m' : Machine⦄, R m m' → m.Resembles m') :
    Composes (Isolated R below below' ctx) where
  pure _ _ _ _ _ _ hm := ⟨rfl, hm⟩
  fail _ _ _ _ _ _ hm := ⟨rfl, hm⟩
  bind := Parallel.bind
  attempt := Parallel.attempt
  holding anchors _ hx _ _ hshares := hx (hshares.append anchors)
  read := read hR

end Isolated

end Eval

end BuildScript
