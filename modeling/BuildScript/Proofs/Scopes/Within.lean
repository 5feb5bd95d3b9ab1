import BuildScript.Run.Block

/-!
How far the scope stack can change. What runs inside the innermost scope leaves the scopes below it
as they were, and of the innermost one it changes the bindings only: its flags stay, except that a
body which still waits for a brace may get it. What runs above a stack may open further scopes, but
never closes one that was there.
-/

namespace BuildScript

namespace Environment

variable {env env' : Environment} {name : String} {value : Value} {slot : Slot}

theorem bind_eq (h : env.scopes.lookupCurrent name = none) :
    env.bind name slot = .ok { env with scopes := env.scopes.addBinding name slot } := by
  unfold Environment.bind ScopeStack.bind
  rw [h]
  rfl

theorem define_eq (h : env.scopes.lookupCurrent name = none) :
    env.define name value = .ok ((env.memory.alloc value).1,
      ⟨env.scopes.addBinding name (env.memory.alloc value).1, (env.memory.alloc value).2⟩) := by
  unfold Environment.define
  rw [h]

/-- A name that is bound was free in the innermost scope. -/
theorem bind_ok (h : env.bind name slot = .ok env') :
    env.scopes.lookupCurrent name = none ∧
      env' = { env with scopes := env.scopes.addBinding name slot } := by
  unfold Environment.bind ScopeStack.bind at h
  split at h
  · cases h
  · rename_i hfree
    cases h
    exact ⟨hfree, rfl⟩

/-- A name that is declared was free in the innermost scope and gets a new slot. -/
theorem define_ok (h : env.define name value = .ok (slot, env')) :
    env.scopes.lookupCurrent name = none ∧ slot = (env.memory.alloc value).1 ∧
      env' = ⟨env.scopes.addBinding name slot, (env.memory.alloc value).2⟩ := by
  unfold Environment.define at h
  split at h
  · cases h
  · rename_i hfree
    cases h
    exact ⟨hfree, rfl, rfl⟩

end Environment

/-- The machine with its scopes changed. -/
def Machine.mapScopes (m : Machine) (f : ScopeStack → ScopeStack) : Machine :=
  { m with env := { m.env with scopes := f m.env.scopes } }

/-- Whether a brace would make the body of this scope a block. -/
def Scope.isWaiting (scope : Scope) : Bool := scope.singleLine && scope.awaitingBody

/-- What stays of a scope while something runs in it. -/
structure Scope.Keeps (before after : Scope) : Prop where
  isolated : after.isolated = before.isolated
  state : after.state = before.state
  skipping : after.skipping = before.skipping
  awaitingBody : after.awaitingBody = true → before.awaitingBody = true
  singleLine : before.isWaiting = false → after.singleLine = before.singleLine

namespace Scope.Keeps

theorem refl (scope : Scope) : scope.Keeps scope := ⟨rfl, rfl, rfl, id, fun _ => rfl⟩

theorem settled {a b : Scope} (h : a.Keeps b) (ha : a.awaitingBody = false) :
    b.awaitingBody = false := by
  cases hb : b.awaitingBody with
  | false => rfl
  | true => exact absurd (h.awaitingBody hb) (by rw [ha]; nofun)

theorem isWaiting {a b : Scope} (h : a.Keeps b) (hnot : a.isWaiting = false) :
    b.isWaiting = false := by
  have hsingle := h.singleLine hnot
  have hawaiting := h.awaitingBody
  unfold Scope.isWaiting at hnot ⊢
  rw [hsingle]
  cases hb : b.awaitingBody with
  | false => exact Bool.and_false _
  | true => rwa [hawaiting hb] at hnot

theorem trans {a b c : Scope} (h : a.Keeps b) (h' : b.Keeps c) : a.Keeps c where
  isolated := h'.isolated.trans h.isolated
  state := h'.state.trans h.state
  skipping := h'.skipping.trans h.skipping
  awaitingBody hc := h.awaitingBody (h'.awaitingBody hc)
  singleLine hnot := (h'.singleLine (h.isWaiting hnot)).trans (h.singleLine hnot)

end Scope.Keeps

namespace ScopeStack

/-- Nothing can open the innermost scope as a block any more. -/
def begun (stack : ScopeStack) : ScopeStack :=
  stack.mapCurrent fun scope => { scope with awaitingBody := false }

/-- A block is open, or the body that awaited one is. -/
def opened (stack : ScopeStack) : ScopeStack :=
  if stack.current.singleLine && stack.current.awaitingBody then
    stack.mapCurrent fun scope => { scope with singleLine := false, awaitingBody := false }
  else stack.push .block

/-- Without its innermost scopes. -/
def without (stack : ScopeStack) (count : Nat) : ScopeStack :=
  { stack with inner := stack.inner.drop count }

/-- What stays of a stack while something runs in its innermost scope. -/
inductive Within : ScopeStack → ScopeStack → Prop
  | global (before after : Bindings) : Within ⟨[], before⟩ ⟨[], after⟩
  | inner {before after : Scope} (h : before.Keeps after) (rest : List Scope)
      (global : Bindings) : Within ⟨before :: rest, global⟩ ⟨after :: rest, global⟩

namespace Within

variable {a b c : ScopeStack}

theorem refl : (stack : ScopeStack) → Within stack stack
  | ⟨[], names⟩ => .global names names
  | ⟨scope :: rest, names⟩ => .inner (.refl scope) rest names

theorem trans (h : Within a b) (h' : Within b c) : Within a c := by
  cases h with
  | global before after =>
    cases h' with
    | global _ last => exact .global before last
  | inner hkeeps rest global =>
    cases h' with
    | inner hkeeps' => exact .inner (hkeeps.trans hkeeps') rest global

theorem length_inner (h : Within a b) : b.inner.length = a.inner.length := by
  cases h <;> rfl

theorem depth (h : Within a b) : b.depth = a.depth := by
  cases h <;> rfl

theorem current (h : Within a b) : a.current.Keeps b.current := by
  cases h with
  | global before after => exact ⟨rfl, rfl, rfl, id, fun _ => rfl⟩
  | inner hkeeps rest names => exact hkeeps

theorem mapCurrent (stack : ScopeStack) {f : Scope → Scope}
    (hf : ∀ scope, stack.inner.head? = some scope → scope.Keeps (f scope)) :
    Within stack (stack.mapCurrent f) := by
  obtain ⟨scopes, names⟩ := stack
  cases scopes with
  | nil => exact refl _
  | cons scope rest => exact .inner (hf scope rfl) rest names

theorem begun (stack : ScopeStack) : Within stack stack.begun :=
  mapCurrent stack fun _ _ => ⟨rfl, rfl, rfl, nofun, fun _ => rfl⟩

theorem addBinding (stack : ScopeStack) (name : String) (slot : Slot) :
    Within stack (stack.addBinding name slot) := by
  obtain ⟨scopes, names⟩ := stack
  cases scopes with
  | nil => exact .global _ _
  | cons scope rest =>
    have hkeeps : scope.Keeps { scope with bindings := (name, slot) :: scope.bindings } :=
      ⟨rfl, rfl, rfl, id, fun _ => rfl⟩
    exact .inner hkeeps rest names

end Within

/-- What stays of the stack `a` while something runs in scopes above it. -/
def Below (a b : ScopeStack) : Prop :=
  ∃ above inner, b.inner = above ++ inner ∧ Within a ⟨inner, b.global⟩

namespace Below

variable {a b c : ScopeStack}

theorem of_within (h : Within a b) : Below a b := ⟨[], b.inner, rfl, h⟩

theorem within (h : Below a b) (h' : Within b c) : Below a c := by
  obtain ⟨above, inner, hinner, hwithin⟩ := h
  obtain ⟨binner, global⟩ := b
  dsimp only at hinner hwithin
  subst hinner
  cases above with
  | nil => exact ⟨[], c.inner, rfl, hwithin.trans h'⟩
  | cons scope rest =>
    cases h' with
    | inner hkeeps => exact ⟨_ :: rest, inner, rfl, hwithin⟩

theorem push (h : Below a b) (scope : Scope) : Below a (b.push scope) := by
  obtain ⟨above, inner, hinner, hwithin⟩ := h
  exact ⟨_ :: above, inner, congrArg (List.cons _) hinner, hwithin⟩

theorem opened (h : Below a b) : Below a b.opened := by
  unfold ScopeStack.opened
  split
  · rename_i hwaiting
    refine h.within (Within.mapCurrent b fun scope hscope => ?_)
    have hcurrent : scope = b.current := by
      unfold ScopeStack.current
      cases hb : b.inner with
      | nil => simp [hb] at hscope
      | cons first rest =>
        rw [hb] at hscope
        exact (Option.some.inj hscope).symm
    refine ⟨rfl, rfl, rfl, nofun, fun hnot => ?_⟩
    rw [hcurrent] at hnot
    unfold Scope.isWaiting at hnot
    exact absurd hwaiting (by rw [hnot]; nofun)
  · exact h.push .block

/-- The number of scopes above. -/
theorem length (h : Below a b) : a.inner.length ≤ b.inner.length := by
  obtain ⟨above, inner, hinner, hwithin⟩ := h
  have hlength := hwithin.length_inner
  dsimp only at hlength
  rw [hinner, List.length_append]
  omega

theorem without (h : Below a b) {count : Nat} (hcount : count + a.inner.length ≤ b.inner.length) :
    Below a (b.without count) := by
  obtain ⟨above, inner, hinner, hwithin⟩ := h
  have hlength := hwithin.length_inner
  dsimp only at hlength
  rw [hinner, List.length_append] at hcount
  refine ⟨above.drop count, inner, ?_, hwithin⟩
  unfold ScopeStack.without
  dsimp only
  rw [hinner, List.drop_append_of_le_length (by omega)]

theorem pop (h : Below a b) (hdepth : a.depth < b.depth) : Below a b.pop.2 := by
  obtain ⟨binner, global⟩ := b
  unfold ScopeStack.depth at hdepth
  cases binner with
  | nil => simp at hdepth
  | cons scope rest =>
    have hone : 1 + a.inner.length ≤ (scope :: rest).length := by
      dsimp only at hdepth
      omega
    exact h.without hone

theorem truncate (h : Below a b) : Within a (b.truncate a.depth) := by
  obtain ⟨above, inner, hinner, hwithin⟩ := h
  have hlength := hwithin.length_inner
  dsimp only at hlength
  have hdrop : b.depth - max a.depth 1 = above.length := by
    unfold ScopeStack.depth
    rw [hinner, List.length_append]
    omega
  unfold ScopeStack.truncate
  rw [hdrop, hinner, List.drop_left]
  exact hwithin

end Below

/-- Only scopes above the first `base` are single statement bodies to close. -/
theorem openSingles_le (base : Nat) (scopes : List Scope) :
    Run.openSingles base scopes + (base - 1) ≤ max scopes.length (base - 1) := by
  induction scopes with
  | nil => simp [Run.openSingles]
  | cons scope rest ih =>
    unfold Run.openSingles
    split
    · rename_i hsingle
      simp only [Bool.and_eq_true, decide_eq_true_eq] at hsingle
      rw [List.length_cons]
      omega
    · omega

theorem Below.singles {a b : ScopeStack} (h : Below a b) :
    Below a (b.without (Run.openSingles a.depth b.inner)) := by
  have hle := openSingles_le a.depth b.inner
  have hlength := h.length
  unfold ScopeStack.depth at hle ⊢
  exact h.without (by omega)

end ScopeStack

end BuildScript
