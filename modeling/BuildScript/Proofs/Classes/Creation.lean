import BuildScript.Proofs.Classes.Expansion
import BuildScript.Proofs.Storage.Branching
import BuildScript.Run.Session

/-!
Creating objects. For every table of classes, whatever classes its fields name, an object of a known
class has what its fields come to and all methods of the class, and what was left out or unknown is
reported, once for every time that it was met.
-/

namespace BuildScript

/-- Errors are reported one after the other, all at the same place. -/
theorem Machine.reportAll_events (m : Machine) (errors : List EvalError) :
    (m.reportAll errors).events =
      (errors.map fun error => Event.error (m.diagnostic error.message)).reverse ++ m.events := by
  unfold reportAll
  induction errors generalizing m with
  | nil => rfl
  | cons error rest ih =>
    rw [List.foldl_cons, ih]
    have hplace : (m.report (.eval error)).diagnostic = m.diagnostic := rfl
    have hevents : (m.report (.eval error)).events =
        .error (m.diagnostic error.message) :: m.events := rfl
    simp [hplace, hevents]

namespace ClassTable

variable {classes : ClassTable} {name : String}

theorem instantiate_unknown (hfind : classes.find? name = none) :
    classes.instantiate name = (.object "" [] [], [.unknownClass name]) := by
  simp only [instantiate, expand, hfind]

theorem instantiate_known {template : ClassTemplate} (hfind : classes.find? name = some template) :
    ∃ entries faults, classes.Fills [name] name template.fields entries faults ∧
      classes.instantiate name = (.object name entries template.methods, faults) := by
  have hstart := classes.instantiate_starts name
  generalize classes.instantiate name = made at hstart ⊢
  obtain ⟨value, faults⟩ := made
  dsimp only at hstart
  cases hstart with
  | zero hzero => cases hzero
  | unknown _ hnone =>
    rw [hfind] at hnone
    cases hnone
  | known _ hfind' hfields =>
    obtain rfl := Option.some.inj (hfind.symm.trans hfind')
    exact ⟨_, _, hfields, rfl⟩

end ClassTable

/-- Making an object ends for every table of classes. An unknown class is reported and gives the
placeholder. An object of a known class has all its methods, an entry for every field of the class
that has a start, in the order of the fields, and one report for each field, at any depth, that is
left out or names an unknown class. A field is left out exactly if its type has no zero value or
names a class that is being expanded on the path to it. The object is a tree of its own wherever it
is stored. -/
theorem instantiate_expands (m : Machine) (name : String) :
    (m.classes.find? name = none →
      Session.instantiate m name = (.object "" [] [], m.report (.eval (.unknownClass name)))) ∧
    (∀ template, m.classes.find? name = some template → ∃ entries faults,
      m.classes.Fills [name] name template.fields entries faults ∧
      Session.instantiate m name = (.object name entries template.methods, m.reportAll faults) ∧
      (m.reportAll faults).events =
        (faults.map fun error => Event.error (m.diagnostic error.message)).reverse ++ m.events) ∧
    (∀ path type value faults, m.classes.Starts path type value faults →
      (value = none ↔ type.zero? = none ∧ ∀ inner, type = .object inner → inner ∈ path)) ∧
    ∀ memory : Memory,
      memory.HoldsFresh (memory.alloc (Session.instantiate m name).1).1
        (Session.instantiate m name).1 (memory.alloc (Session.instantiate m name).1).2 := by
  refine ⟨?unknown, ?known, ?omitted, ?fresh⟩
  case unknown =>
    intro hfind
    unfold Session.instantiate
    rw [ClassTable.instantiate_unknown hfind]
    rfl
  case known =>
    intro template hfind
    obtain ⟨entries, faults, hfields, hvalue⟩ := ClassTable.instantiate_known hfind
    refine ⟨entries, faults, hfields, ?_, m.reportAll_events faults⟩
    unfold Session.instantiate
    rw [hvalue]
  case omitted =>
    intro path type value faults hstart
    exact hstart.eq_none_iff
  case fresh =>
    intro memory
    exact memory.alloc_holdsFresh _

end BuildScript
