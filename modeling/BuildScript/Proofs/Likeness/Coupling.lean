import BuildScript.Proofs.Evaluation.Steps
import BuildScript.Proofs.Likeness.Storage

/-!
Two runs side by side. The machines they start in are the same but for the bodies of functions and
what was said, and so are those they end in; the results are the same but for bodies, and so are the
faults. What one evaluation does to the machine is a change of storage or of the files, something
said, or a run of a body: where two machines stay related through these, they do through any
evaluation.
-/

namespace BuildScript

/-- Nothing is said from one machine to the other, and the place in the file and the depths are the
same. -/
structure Machine.Mute (m n : Machine) : Prop where
  events : n.events = m.events
  file : n.file = m.file
  line : n.line = m.line
  options : n.options = m.options
  callDepth : n.callDepth = m.callDepth
  includeDepth : n.includeDepth = m.includeDepth

theorem Machine.Mute.refl (m : Machine) : m.Mute m := ⟨rfl, rfl, rfl, rfl, rfl, rfl⟩

theorem Machine.Mute.trans {a b c : Machine} (h : a.Mute b) (h' : b.Mute c) : a.Mute c :=
  ⟨h'.events.trans h.events, h'.file.trans h.file, h'.line.trans h.line,
    h'.options.trans h.options, h'.callDepth.trans h.callDepth,
    h'.includeDepth.trans h.includeDepth⟩

namespace Eval

variable {α β γ γ' δ : Type} {R : Sight → Machine → Machine → Prop} {ctx ctx' : Context} {s : Sight}

/-- The same fault, or results that are related. -/
inductive Paired (A : α → β → Prop) : Except Fault α → Except Fault β → Prop
  | ok {a b} (h : A a b) : Paired A (.ok a) (.ok b)
  | error (fault) : Paired A (.error fault) (.error fault)

/-- Run in related machines, both give related results and leave related machines. More may be taken
for the same afterwards. -/
def Couples (R : Sight → Machine → Machine → Prop) (ctx ctx' : Context) (s : Sight)
    (A : Sight → α → β → Prop) (x : Eval α) (y : Eval β) : Prop :=
  ∀ held m m', R s m m' → ∃ t, s ≤ t ∧
    Paired (A t) (x { ctx with held } m).1 (y { ctx' with held } m').1 ∧
      R t (x { ctx with held } m).2 (y { ctx' with held } m').2

/-- Results that are the same for every sight. -/
abbrev Same (_ : Sight) (a b : α) : Prop := a = b

theorem Paired.mono {A A' : α → β → Prop} (h : ∀ {a b}, A a b → A' a b) {x : Except Fault α}
    {y : Except Fault β} (hpaired : Paired A x y) : Paired A' x y := by
  cases hpaired with
  | ok hA => exact .ok (h hA)
  | error fault => exact .error fault

namespace Couples

variable {A : Sight → α → β → Prop} {B : Sight → γ → δ → Prop} {x : Eval α} {y : Eval β}

theorem pure {a : α} {b : β} (h : A s a b) : Couples R ctx ctx' s A (pure a) (pure b) :=
  fun _ _ _ hR => ⟨s, le_rfl, .ok h, hR⟩

theorem fail (fault : Fault) : Couples R ctx ctx' s A (fail fault) (fail fault) :=
  fun _ _ _ hR => ⟨s, le_rfl, .error fault, hR⟩

theorem raise (error : EvalError) : Couples R ctx ctx' s A (raise error) (raise error) :=
  .fail _

theorem bind {f : α → Eval γ} {g : β → Eval δ} (hx : Couples R ctx ctx' s A x y)
    (hf : ∀ {t a b}, s ≤ t → A t a b → Couples R ctx ctx' t B (f a) (g b)) :
    Couples R ctx ctx' s B (x >>= f) (y >>= g) := by
  intro held m m' hR
  obtain ⟨t, hst, hfirst⟩ := hx held m m' hR
  simp only [andThen_apply]
  generalize x { ctx with held } m = ran at hfirst ⊢
  generalize y { ctx' with held } m' = ran' at hfirst ⊢
  obtain ⟨result, after⟩ := ran
  obtain ⟨result', after'⟩ := ran'
  obtain ⟨hresult, hafter⟩ := hfirst
  cases hresult with
  | ok h =>
    obtain ⟨u, htu, hrest⟩ := hf hst h held after after' hafter
    exact ⟨u, hst.trans htu, hrest⟩
  | error fault => exact ⟨t, hst, .error fault, hafter⟩

theorem mono {A' : Sight → α → β → Prop} (hx : Couples R ctx ctx' s A x y)
    (h : ∀ {t a b}, A t a b → A' t a b) : Couples R ctx ctx' s A' x y := by
  intro held m m' hR
  obtain ⟨t, hst, hpaired, hafter⟩ := hx held m m' hR
  exact ⟨t, hst, hpaired.mono h, hafter⟩

/-- What would come after a fault plays no part. -/
theorem raise_bind (error : EvalError) (f : α → Eval γ) (g : β → Eval δ) :
    Couples R ctx ctx' s B (Eval.raise error >>= f) (Eval.raise error >>= g) :=
  fun _ _ _ hR => ⟨s, le_rfl, .error _, hR⟩

theorem attempt (hx : Couples R ctx ctx' s A x y) :
    Couples R ctx ctx' s (fun t => Paired (A t)) (attempt x) (attempt y) := by
  intro held m m' hR
  obtain ⟨t, hst, hresult, hafter⟩ := hx held m m' hR
  exact ⟨t, hst, .ok hresult, hafter⟩

theorem holding (anchors : List Anchor) (hx : Couples R ctx ctx' s A x y) :
    Couples R ctx ctx' s A (holding anchors x) (holding anchors y) :=
  fun held => hx (anchors ++ held)

/-- A step that gives no result and keeps what is taken for the same. -/
theorem step {f g : Machine → Machine} (h : ∀ m m', R s m m' → R s (f m) (g m')) :
    Couples R ctx ctx' s Same (Eval.update f) (Eval.update g) :=
  fun _ m m' hR => ⟨s, le_rfl, .ok rfl, h m m' hR⟩

theorem check {f : Sight → α → γ} {g : Sight → β → γ} {result : Except EvalError α}
    {result' : Except EvalError β} (h : result.map (f s) = result'.map (g s)) :
    Couples R ctx ctx' s (fun t a b => f t a = g t b) (Eval.ofExcept result)
      (Eval.ofExcept result') := by
  cases result with
  | ok a =>
    cases result' with
    | ok b => exact .pure (Except.ok.inj h)
    | error e => cases h
  | error e =>
    cases result' with
    | ok b => cases h
    | error e' =>
      cases h
      exact .fail _

/-- What is checked the same way on both sides. -/
theorem checkSame {result result' : Except EvalError α} (h : result = result') :
    Couples R ctx ctx' s Same (Eval.ofExcept result) (Eval.ofExcept result') := by
  subst h
  cases result with
  | ok a => exact .pure rfl
  | error e => exact .fail _

/-- A check leaves the machines alone. -/
theorem checking {f : α → γ} {g : β → γ} {result : Except EvalError α}
    {result' : Except EvalError β} (h : result.map f = result'.map g) {B : Sight → γ' → δ → Prop}
    {k : α → Eval γ'} {k' : β → Eval δ}
    (hk : ∀ {a b}, f a = g b → Couples R ctx ctx' s B (k a) (k' b)) :
    Couples R ctx ctx' s B (Eval.ofExcept result >>= k) (Eval.ofExcept result' >>= k') := by
  cases result with
  | ok a =>
    cases result' with
    | ok b => exact hk (Except.ok.inj h)
    | error e => cases h
  | error e =>
    cases result' with
    | ok b => cases h
    | error e' =>
      cases h
      exact .raise_bind e k k'

theorem checkingSame {result result' : Except EvalError α} (h : result = result')
    {k : α → Eval γ} {k' : α → Eval δ} (hk : ∀ a, Couples R ctx ctx' s B (k a) (k' a)) :
    Couples R ctx ctx' s B (Eval.ofExcept result >>= k) (Eval.ofExcept result' >>= k') := by
  subst h
  cases result with
  | ok a => exact hk a
  | error e => exact .raise_bind e k k'

end Couples

/-- A relation between machines that are the same but for bodies, which is kept by whatever is done
to both of them alike without a word. -/
structure Resemblance (R : Sight → Machine → Machine → Prop) : Prop where
  same : ∀ {s m m'}, R s m m' → m.Akin s m'
  silent : ∀ {s m m' n n'}, R s m m' → n.Akin s n' → m.Mute n → m'.Mute n' → R s n n'

/-- The machines may go into a call. -/
def Deepens (R : Sight → Machine → Machine → Prop) : Prop :=
  ∃ s m m', R s m m' ∧ m.callDepth < m.options.maxCallDepth

/-- Two flows that give the same back but for bodies, or both nothing. -/
abbrev GivesAkin (s : Sight) (flow flow' : Flow) : Prop :=
  (givenBack flow).map (Value.recast s.left) = (givenBack flow').map (Value.recast s.right)

/-- A resemblance that is kept by all that an evaluation does. -/
structure Coupling (R : Sight → Machine → Machine → Prop) (ctx ctx' : Context) : Prop
    extends Resemblance R where
  print : ∀ {s m m'}, R s m m' → ∀ text, R s (m.print text) (m'.print text)
  warn : ∀ {s m m'}, R s m m' → ∀ text, R s (m.warn text) (m'.warn text)
  debug : ∀ {s m m'}, R s m m' → ∀ text, R s (m.emit (.debug text)) (m'.emit (.debug text))
  reportMessage : ∀ {s m m'}, R s m m' → ∀ text, R s (m.reportMessage text) (m'.reportMessage text)
  frame : ∀ {s file body body' receiver bound bound'}, Deepens R →
    s.left file body = s.right file body' → Bound.AllAkin s bound bound' →
      Couples R ctx ctx' s GivesAkin (inFrame file (callBody receiver bound body))
        (inFrame file (callBody receiver bound' body'))
  includeFile : ∀ {s} path, Couples R ctx ctx' s Same (includeFile path) (includeFile path)
  callHost : ∀ {s} entry {args args'}, Operand.AllAkin s args args' →
    Couples R ctx ctx' s Value.Akin (callHost entry args) (callHost entry args')

variable {m m' : Machine}

theorem valueIn_akin (hm : m.Akin s m') {o o' : Operand}
    (h : o.Akin s o') : (valueIn m o).Akin s (valueIn m' o') := by
  unfold Value.Akin
  rw [← valueIn_recast, ← valueIn_recast, hm, h]

theorem typeIn_akin (hm : m.Akin s m') {o o' : Operand}
    (h : o.Akin s o') : typeIn m o = typeIn m' o' := by
  rw [← @typeIn_recast s.left m o, hm, h, typeIn_recast]

theorem voidIn?_akin (hm : m.Akin s m') {o o' : Operand}
    (h : o.Akin s o') : voidIn? m o = voidIn? m' o' := by
  rw [← @voidIn?_recast s.left m o, hm, h, voidIn?_recast]

theorem type_akin {v v' : Value} (h : v.Akin s v') : v.type = v'.type := by
  rw [← @Value.type_recast s.left, h, Value.type_recast]

theorem env_akin (hm : m.Akin s m') : m.env.recast s.left = m'.env.recast s.right :=
  congrArg Machine.env hm

theorem content_akin (hm : m.Akin s m') (slot : Slot) :
    (m.env.memory.content slot).recast s.left = (m'.env.memory.content slot).recast s.right := by
  have hmemory := congrArg Environment.memory (env_akin hm)
  rw [← Memory.content_recast, ← Memory.content_recast]
  exact congrArg (Memory.content · slot) hmemory

theorem scopes_akin (hm : m.Akin s m') : m.env.scopes = m'.env.scopes := by
  have hscopes := congrArg Environment.scopes (env_akin hm)
  exact hscopes

/-- Other storage in both machines. -/
theorem withEnv_akin (hm : m.Akin s m') {env env' : Environment}
    (h : env.recast s.left = env'.recast s.right) :
    ({ m with env } : Machine).Akin s { m' with env := env' } := by
  change { m.recast s.left with env := env.recast s.left } =
    { m'.recast s.right with env := env'.recast s.right }
  rw [hm, h]

/-- Two values that are the same but for bodies, told apart by their form. -/
inductive Kindred (s : Sight) : Value → Value → Prop
  | scalar (a : Atom) (hfunction : ∀ c r, a ≠ .function c r) (hprocedure : ∀ p, a ≠ .procedure p)
    (hclass : ∀ t, a ≠ .classTemplate t) : Kindred s (.atom a) (.atom a)
  | function {c c'} (h : Callable.recast s.left c = Callable.recast s.right c') (receiver) :
    Kindred s (.atom (.function c receiver)) (.atom (.function c' receiver))
  | procedure {p p'} (h : Procedure.recast s.left p = Procedure.recast s.right p') :
    Kindred s (.atom (.procedure p)) (.atom (.procedure p'))
  | classTemplate (t t') : Kindred s (.atom (.classTemplate t)) (.atom (.classTemplate t'))
  | array (element) {items items'} (h : items.map (Value.recast s.left) = items'.map (Value.recast s.right)) :
    Kindred s (.array element items) (.array element items')
  | list {items items'} (h : items.map (Value.recast s.left) = items'.map (Value.recast s.right)) :
    Kindred s (.list items) (.list items')
  | object (className) (fields fields' methods methods') :
    Kindred s (.object className fields methods) (.object className fields' methods')

/-- What two slots hold that are the same but for bodies: atoms, or the same. -/
theorem content_kindred {content content' : Content}
    (h : content.recast s.left = content'.recast s.right) :
    (∃ a a', content = .atom a ∧ content' = .atom a') ∨ content = content' := by
  cases content <;> cases content' <;> simp_all [Content.recast]

/-- Two operands that are the same but for bodies, told apart by their form. -/
inductive Operand.Kindred (s : Sight) : Operand → Operand → Prop
  | reference (slot) : Kindred s (.reference slot) (.reference slot)
  | temporary {v v'} (h : v.Akin s v') (isLiteral) :
    Kindred s (.temporary v isLiteral) (.temporary v' isLiteral)

theorem Operand.kindred {o o' : Operand} (h : o.Akin s o') : Operand.Kindred s o o' := by
  cases o with
  | reference slot =>
    cases o' with
    | reference slot' =>
      cases h
      exact .reference slot
    | temporary v' isLiteral' => cases h
  | temporary v isLiteral =>
    cases o' with
    | reference slot' => cases h
    | temporary v' isLiteral' =>
      obtain ⟨hv, rfl⟩ := Operand.temporary.inj h
      exact .temporary hv isLiteral

theorem kindred {v v' : Value} (h : v.Akin s v') : Kindred s v v' := by
  unfold Value.Akin at h
  cases v with
  | atom a =>
    cases v' with
    | atom b =>
      cases a <;> cases b <;> simp only [Value.recast, Atom.recast, Value.atom.injEq] at h <;>
        first
        | cases h; exact .scalar _ (by simp) (by simp) (by simp)
        | (injection h with hcallable hreceiver; cases hreceiver; exact .function hcallable _)
        | (injection h with hprocedure; exact .procedure hprocedure)
        | exact .classTemplate _ _
        | cases h
    | _ => simp [Value.recast] at h
  | array element items =>
    cases v' with
    | array element' items' =>
      simp only [Value.recast, Value.recastItems_eq, Value.array.injEq] at h
      obtain ⟨rfl, hitems⟩ := h
      exact .array element hitems
    | _ => simp [Value.recast] at h
  | list items =>
    cases v' with
    | list items' =>
      simp only [Value.recast, Value.recastItems_eq, Value.list.injEq] at h
      exact .list h
    | _ => simp [Value.recast] at h
  | object className fields methods =>
    cases v' with
    | object className' fields' methods' =>
      simp only [Value.recast, Value.object.injEq] at h
      obtain ⟨rfl, -, -⟩ := h
      exact .object className fields fields' methods methods'
    | _ => simp [Value.recast] at h

end Eval

end BuildScript
