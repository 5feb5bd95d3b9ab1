import BuildScript.Proofs.Likeness.Storage
import BuildScript.Proofs.Places.Recorded

/-!
The bodies a machine holds, in its storage and in its classes. Two replacements that agree on them
give the same machine, so whether all of them are recorded can be read off a sight under which
recorded bodies only are the same on both sides.
-/

namespace BuildScript

open Text (SourceLine)

/-- A body and the file it was declared in. -/
abbrev Declared := String × List SourceLine

def Callable.bodies : Callable → List Declared
  | user f => [(f.file, f.body)]
  | _ => []

/-- The bodies of methods. -/
def Callable.allBodies (methods : List (String × Callable)) : List Declared :=
  methods.flatMap fun (_, method) => method.bodies

def Atom.bodies : Atom → List Declared
  | function callable _ => callable.bodies
  | procedure p => [(p.file, p.body)]
  | classTemplate template => Callable.allBodies template.methods
  | _ => []

def Content.bodies : Content → List Declared
  | atom a => a.bodies
  | _ => []

/-- All bodies that storage and classes hold. -/
def Machine.bodies (m : Machine) : List Declared :=
  m.env.memory.cells.toList.flatMap Content.bodies ++
    m.env.memory.objects.toList.flatMap (fun object => Callable.allBodies object.methods) ++
    List.flatMap (fun template => Callable.allBodies template.methods) m.classes

/-- A body of a file is held in storage or by a class. -/
def Machine.Holds (m : Machine) (file : String) (body : List SourceLine) : Prop :=
  (file, body) ∈ m.bodies

/-- What takes the place of a body. -/
def Recast.apply (ρ : Recast) : Declared → Declared := fun (file, body) => (file, ρ file body)

section

variable (ρ : Recast)

theorem Callable.bodies_recast (callable : Callable) :
    (callable.recast ρ).bodies = callable.bodies.map ρ.apply := by
  cases callable <;> rfl

theorem Callable.allBodies_recast (methods : List (String × Callable)) :
    allBodies (recastAll ρ methods) = (allBodies methods).map ρ.apply := by
  simp [allBodies, recastAll, List.flatMap_map, List.map_flatMap, bodies_recast]

theorem Atom.bodies_recast (a : Atom) : (a.recast ρ).bodies = a.bodies.map ρ.apply := by
  cases a with
  | function callable receiver => exact callable.bodies_recast ρ
  | classTemplate template => exact Callable.allBodies_recast ρ template.methods
  | _ => rfl

theorem Content.bodies_recast (content : Content) :
    (content.recast ρ).bodies = content.bodies.map ρ.apply := by
  cases content with
  | atom a => exact a.bodies_recast ρ
  | _ => rfl

theorem Machine.bodies_recast (m : Machine) : (m.recast ρ).bodies = m.bodies.map ρ.apply := by
  simp [bodies, recast, Environment.recast, Memory.recast, ClassTable.recast, List.flatMap_map,
    List.map_flatMap, Content.bodies_recast, Instance.recast, ClassTemplate.recast,
    Callable.allBodies_recast]

end

section

variable {ρ ρ' : Recast}

/-- Both replacements do the same to some bodies. -/
def Recast.AgreeOn (ρ ρ' : Recast) (bodies : List Declared) : Prop :=
  ∀ body ∈ bodies, ρ body.1 body.2 = ρ' body.1 body.2

theorem Callable.recast_congr {callable : Callable} (h : ρ.AgreeOn ρ' callable.bodies) :
    callable.recast ρ = callable.recast ρ' := by
  cases callable with
  | user f => simp [recast, UserFunction.recast, h (f.file, f.body) (List.mem_singleton_self _)]
  | _ => rfl

theorem Callable.recastAll_congr {methods : List (String × Callable)}
    (h : ρ.AgreeOn ρ' (allBodies methods)) : recastAll ρ methods = recastAll ρ' methods := by
  apply List.map_congr_left
  intro method hmem
  have hmethod : ρ.AgreeOn ρ' method.2.bodies :=
    fun body hbody => h body (List.mem_flatMap.mpr ⟨method, hmem, hbody⟩)
  simp [recast_congr hmethod]

theorem Content.recast_congr {content : Content} (h : ρ.AgreeOn ρ' content.bodies) :
    content.recast ρ = content.recast ρ' := by
  cases content with
  | atom a =>
    cases a with
    | function callable receiver => simp [recast, Atom.recast, Callable.recast_congr h]
    | procedure p =>
      simp [recast, Atom.recast, Procedure.recast, h (p.file, p.body) (List.mem_singleton_self _)]
    | classTemplate template =>
      simp [recast, Atom.recast, ClassTemplate.recast, Callable.recastAll_congr h]
    | _ => rfl
  | _ => rfl

/-- Replacements that agree on the bodies a machine holds give the same machine. -/
theorem Machine.recast_congr {m : Machine} (h : ρ.AgreeOn ρ' m.bodies) :
    m.recast ρ = m.recast ρ' := by
  have hcells : m.env.memory.cells.map (Content.recast ρ) =
      m.env.memory.cells.map (Content.recast ρ') := by
    apply Array.map_congr_left
    intro content hmem
    apply Content.recast_congr
    intro body hbody
    apply h
    simp only [bodies, List.mem_append, List.mem_flatMap]
    exact .inl (.inl ⟨content, hmem.val, hbody⟩)
  have hobjects : m.env.memory.objects.map (Instance.recast ρ) =
      m.env.memory.objects.map (Instance.recast ρ') := by
    apply Array.map_congr_left
    intro object hmem
    have hmethods : ρ.AgreeOn ρ' (Callable.allBodies object.methods) := by
      intro body hbody
      apply h
      simp only [bodies, List.mem_append, List.mem_flatMap]
      exact .inl (.inr ⟨object, hmem.val, hbody⟩)
    simp [Instance.recast, Callable.recastAll_congr hmethods]
  have hclasses : m.classes.recast ρ = m.classes.recast ρ' := by
    apply List.map_congr_left
    intro template hmem
    have hmethods : ρ.AgreeOn ρ' (Callable.allBodies template.methods) := by
      intro body hbody
      apply h
      simp only [bodies, List.mem_append, List.mem_flatMap]
      exact .inr ⟨template, hmem, hbody⟩
    simp [ClassTemplate.recast, Callable.recastAll_congr hmethods]
  simp [recast, Environment.recast, Memory.recast, hcells, hobjects, hclasses]

end

/-! The sight under which a body is the same on both sides if it is recorded. -/

section

variable (held : String → List SourceLine → Prop) (sources : List Source)

open Classical in
/-- The left side puts another mark on bodies that are not recorded than the right side does. -/
noncomputable def Sight.ofSources : Sight where
  left file body := if Recorded held sources file body then ⟨0, ""⟩ :: body else ⟨1, ""⟩ :: body
  right _ body := ⟨0, ""⟩ :: body

variable {held sources} {file : String} {body body' : List SourceLine}

theorem Sight.ofSources_same :
    (ofSources held sources).left file body = (ofSources held sources).right file body' ↔
      Recorded held sources file body ∧ body = body' := by
  by_cases h : Recorded held sources file body <;> simp [ofSources, h]

/-- More texts that were run record more. -/
theorem Sight.ofSources_le {more : List Source} (hmore : sources ⊆ more) :
    ofSources held sources ≤ ofSources held more := by
  classical
  -- What was marked as not recorded is looked at once more.
  let again : Recast := fun file marked =>
    if marked.head? = some ⟨0, ""⟩ then marked
    else (ofSources held more).left file marked.tail
  refine ⟨again, ?_, rfl⟩
  funext file body
  by_cases h : Recorded held sources file body
  · simp [ofSources, Recast.after, again, h, h.mono hmore]
  · simp only [ofSources, Recast.after, again, if_neg h]
    rfl

end

end BuildScript
