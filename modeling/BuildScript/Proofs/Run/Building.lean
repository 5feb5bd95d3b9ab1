import Mathlib
import BuildScript.Proofs.Evaluation.Equations
import BuildScript.Proofs.Script.Members

/-!
Building a class. Of the entries of a body the members make up the class, in their order, and the
faults are told, each at its line. The line the machine stood at before is then in force again.
-/

namespace BuildScript

open Text (SourceLine)

namespace ClassEntry

/-- The field an entry declares. -/
def field? (entry : ClassEntry) : Option Field :=
  match entry.entry with
  | .ok (.field type name) => some ⟨type, name⟩
  | _ => none

/-- The method an entry declares, given its identity and the file of the body. -/
def method? (entry : ClassEntry) (file : String) : Option (Identity → UserFunction) :=
  match entry.entry with
  | .ok (.method signature body) => some fun id =>
    { id
      name := signature.name
      params := signature.params
      returnType := signature.returnType
      body
      file
      line := entry.line
      isMethod := true }
  | _ => none

def fault? (entry : ClassEntry) : Option (Nat × Fault) :=
  match entry.entry with
  | .ok _ => none
  | .error e => some (entry.line, .parse e)

/-- The fields declared, in order. -/
def fields (entries : List ClassEntry) : List Field := entries.filterMap field?

/-- The methods declared, in order, with identities from `id` on. -/
def methods (file : String) (id : Identity) (entries : List ClassEntry) : List (String × Callable) :=
  (entries.filterMap (·.method? file)).mapIdx fun index method =>
    ((method (id + index)).name, .user (method (id + index)))

def faults (entries : List ClassEntry) : List (Nat × Fault) := entries.filterMap fault?

theorem methods_append (file : String) (id : Identity) (before after : List ClassEntry) :
    methods file id (before ++ after) =
      methods file id before ++ methods file (id + (methods file id before).length) after := by
  simp [methods, List.mapIdx_append, Nat.add_comm, Nat.add_left_comm]

end ClassEntry

namespace Machine

def atLine (m : Machine) (line : Nat) : Machine := { m with line }

/-- A fault reported at another line than the current one. -/
def reportAt (m : Machine) (line : Nat) (fault : Fault) : Machine :=
  ((m.atLine line).report fault).atLine m.line

/-- Faults reported one after another, each at its line. -/
def tellAll (m : Machine) (faults : List (Nat × Fault)) : Machine :=
  faults.foldl (fun m (line, fault) => m.reportAt line fault) m

theorem tellAll_atLine (m : Machine) (line : Nat) (faults : List (Nat × Fault)) :
    (m.atLine line).tellAll faults = (m.tellAll faults).atLine line := by
  induction faults generalizing m with
  | nil => rfl
  | cons fault faults ih => exact ih (m.reportAt fault.1 fault.2)

@[simp]
theorem tellAll_file (m : Machine) (faults : List (Nat × Fault)) :
    (m.tellAll faults).file = m.file := by
  induction faults generalizing m with
  | nil => rfl
  | cons fault faults ih => exact ih _

@[simp]
theorem tellAll_line (m : Machine) (faults : List (Nat × Fault)) :
    (m.tellAll faults).line = m.line := by
  induction faults generalizing m with
  | nil => rfl
  | cons fault faults ih => exact ih _

end Machine

namespace Run

open Eval (machine update recover)

variable {ctx : Context}

/-- The class that entries add to. -/
def extended (template : ClassTemplate) (file : String) (entries : List ClassEntry) :
    ClassTemplate :=
  { template with
    fields := template.fields ++ ClassEntry.fields entries
    methods := template.methods ++
      ClassEntry.methods file (template.id + template.methods.length + 1) entries }

theorem extended_append (template : ClassTemplate) (file : String)
    (before after : List ClassEntry) :
    extended template file (before ++ after) =
      extended (extended template file before) file after := by
  simp only [extended, ClassEntry.fields, ClassEntry.methods_append, List.filterMap_append,
    List.append_assoc, List.length_append, Nat.add_assoc, Nat.add_comm 1]

/-- One entry joins the class or is told, and its line stays in force. -/
theorem addEntry_apply (template : ClassTemplate) (entry : ClassEntry) (m : Machine) :
    addEntry template entry ctx m = (.ok (extended template m.file [entry]),
      (m.tellAll (ClassEntry.faults [entry])).atLine entry.line) := by
  obtain ⟨line, result⟩ := entry
  cases result with
  | error e =>
    unfold addEntry
    rw [Eval.andThen_apply_ok (Eval.update_apply _ ctx m)]
    dsimp only
    rw [Eval.andThen_apply_ok (Eval.recover_common rfl ctx _)]
    simp [extended, ClassEntry.fields, ClassEntry.methods, List.filterMap, ClassEntry.field?,
      ClassEntry.method?]
    rfl
  | ok member =>
    cases member with
    | field type name =>
      simp [extended, ClassEntry.fields, ClassEntry.methods, List.filterMap, ClassEntry.field?,
        ClassEntry.method?]
      rfl
    | method signature body =>
      simp [extended, ClassEntry.fields, ClassEntry.methods, List.filterMap, ClassEntry.field?,
        ClassEntry.method?]
      rfl

/-- What entries add to a class, and what they tell. -/
theorem addEntries_apply (template : ClassTemplate) (entries : List ClassEntry) (m : Machine) :
    ∃ line, addEntries template entries ctx m = (.ok (extended template m.file entries),
      (m.tellAll (ClassEntry.faults entries)).atLine line) := by
  induction entries generalizing template m with
  | nil =>
    refine ⟨m.line, ?_⟩
    simp only [addEntries, extended, ClassEntry.fields, ClassEntry.methods, List.filterMap_nil,
      List.mapIdx_nil, List.append_nil]
    rfl
  | cons entry entries ih =>
    obtain ⟨line, hrest⟩ := ih (extended template m.file [entry])
      ((m.tellAll (ClassEntry.faults [entry])).atLine entry.line)
    have hfile : ((m.tellAll (ClassEntry.faults [entry])).atLine entry.line).file = m.file :=
      m.tellAll_file _
    refine ⟨line, ?_⟩
    rw [addEntries, Eval.andThen_apply_ok (addEntry_apply template entry m), hrest, hfile,
      Machine.tellAll_atLine, ← extended_append]
    simp only [Machine.tellAll, ← List.foldl_append, ClassEntry.faults, ← List.filterMap_append]
    rfl

/-- A class is built from the members among the entries of its body, and all else there is told. -/
theorem buildClass_apply (name : String) (body : List SourceLine) (ctx : Context) (m : Machine) :
    buildClass name body ctx m =
      (.ok ⟨m.nextId, name, ClassEntry.fields (ClassEntry.ofLines body),
          ClassEntry.methods m.file (m.nextId + 1) (ClassEntry.ofLines body)⟩,
        m.tellAll (ClassEntry.faults (ClassEntry.ofLines body))) := by
  obtain ⟨line, hadd⟩ := @addEntries_apply ctx ⟨m.nextId, name, [], []⟩
    (ClassEntry.ofLines body) m
  unfold buildClass
  rw [Eval.andThen_apply_ok (Eval.machine_apply ctx m), Eval.andThen_apply_ok hadd]
  have hline : (m.tellAll (ClassEntry.faults (ClassEntry.ofLines body))).atLine m.line =
      m.tellAll (ClassEntry.faults (ClassEntry.ofLines body)) := by
    conv_lhs => rw [← m.tellAll_line (ClassEntry.faults (ClassEntry.ofLines body))]
    rfl
  rw [← hline]
  rfl

/-- The members of a body can be told if its lines lex. The class is built from exactly these, in
their order, and every statement at fault is reported at its line and passed over, if each is the last
of its line: and only then. -/
theorem class_built_from_members {body : List SourceLine}
    (hlexes : ∀ line ∈ body, ∃ lexed, Lexed.ofLine line.text = .ok lexed) :
    (∃ entries, ClassEntry.Lays false body entries) ∧
      ∀ entries, ClassEntry.Lays false body entries →
        (ClassEntry.Lays true body entries → ∀ name ctx m,
          buildClass name body ctx m =
            (.ok ⟨m.nextId, name, ClassEntry.fields entries,
                ClassEntry.methods m.file (m.nextId + 1) entries⟩,
              m.tellAll (ClassEntry.faults entries))) ∧
        (ClassEntry.Numbered body → ¬ClassEntry.Lays true body entries →
          ClassEntry.ofLines body ≠ entries) := by
  refine ⟨ClassEntry.Lays.total body hlexes, fun entries hlays => ⟨fun hstrict name ctx m => ?_,
    fun hnumbered hloose hentries => hloose (hlays.strict_of_eq hnumbered le_rfl hentries)⟩⟩
  have hentries : ClassEntry.ofLines body = entries := hstrict.ofLinesWithin_eq le_rfl
  rw [buildClass_apply, hentries]

/-- A stray value at the end of a line, and a method and a field on the next. -/
def strayValueLast : List SourceLine := [⟨2, "int x; 5"⟩, ⟨3, "void f() \x7b \x7d int y"⟩]

def strayValueLastEntries : List ClassEntry :=
  [⟨2, .ok (.field .int "x")⟩, ⟨2, .error .invalidClassMember⟩, ⟨3, .ok (.method ⟨"f", .void, []⟩ [])⟩,
    ⟨3, .ok (.field .int "y")⟩]

theorem strayValueLast_lays (strict : Bool) :
    ClassEntry.Lays strict strayValueLast strayValueLastEntries := by
  have hfirst : spliceLine ⟨2, "int x; 5"⟩ strayValueLast.tail =
      (.ok [⟨.identifier "int", "int", true⟩, ⟨.identifier "x", "x", true⟩,
        ⟨.separator .semicolon, ";", false⟩, ⟨.literal (.int 5), "5", true⟩],
        strayValueLast.tail) := by cbv
  have hsecond : spliceLine ⟨3, "void f() \x7b \x7d int y"⟩ [] =
      (.ok [⟨.identifier "void", "void", true⟩, ⟨.identifier "f", "f", true⟩,
        ⟨.separator .parenOpen, "(", false⟩, ⟨.separator .parenClose, ")", false⟩,
        ⟨.separator .braceOpen, "\x7b", true⟩, ⟨.separator .braceClose, "\x7d", true⟩,
        ⟨.identifier "int", "int", true⟩, ⟨.identifier "y", "y", true⟩], []) := by cbv
  have hrest : ClassEntry.Lays strict strayValueLast.tail [_, _] :=
    .line hsecond (.inlineMethod rfl (by cbv) rfl rfl .nil rfl (.field rfl (by cbv) .done)) .nil
  have hlays := ClassEntry.Lays.line hfirst (.field rfl (by cbv) (.empty rfl (.misplaced rfl (by cbv)
    (by rintro _ _ ⟨⟩) (by rintro _ ⟨⟩) .done fun _ => rfl))) hrest
  exact hlays

/-- Nothing but the value is missing. -/
theorem strayValueLast_built :
    (∀ line ∈ strayValueLast, ∃ lexed, Lexed.ofLine line.text = .ok lexed) ∧
      ClassEntry.Lays false strayValueLast strayValueLastEntries ∧
      ClassEntry.Lays true strayValueLast strayValueLastEntries ∧
      ∀ ctx m, buildClass "A" strayValueLast ctx m =
        (.ok ⟨m.nextId, "A", [⟨.int, "x"⟩, ⟨.int, "y"⟩], [("f", .user
          { id := m.nextId + 1
            name := "f"
            params := []
            returnType := .void
            body := []
            file := m.file
            line := 3
            isMethod := true })]⟩,
          m.reportAt 2 (.parse .invalidClassMember)) := by
  have hlexes : ∀ line ∈ strayValueLast, ∃ lexed, Lexed.ofLine line.text = .ok lexed := by
    refine List.forall_mem_cons.mpr ⟨⟨_, by cbv⟩, List.forall_mem_singleton.mpr ⟨_, by cbv⟩⟩
  have hstrict := strayValueLast_lays true
  have hbuilt := ((class_built_from_members hlexes).2 _ (strayValueLast_lays false)).1 hstrict "A"
  exact ⟨hlexes, strayValueLast_lays false, hstrict, fun ctx m => hbuilt ctx m⟩

/-- A stray value between two fields. -/
def strayValueAmid : List SourceLine := [⟨2, "int x; 5; int y"⟩]

/-- The field behind the value is lost. -/
theorem strayValueAmid_loses :
    ¬∀ (body : List SourceLine) (entries : List ClassEntry), ClassEntry.Lays false body entries →
      ∀ name ctx m, ∃ after, buildClass name body ctx m =
        (.ok ⟨m.nextId, name, ClassEntry.fields entries,
          ClassEntry.methods m.file (m.nextId + 1) entries⟩, after) := by
  intro hclaim
  have hline : spliceLine ⟨2, "int x; 5; int y"⟩ [] =
      (.ok [⟨.identifier "int", "int", true⟩, ⟨.identifier "x", "x", true⟩,
        ⟨.separator .semicolon, ";", false⟩, ⟨.literal (.int 5), "5", true⟩,
        ⟨.separator .semicolon, ";", false⟩, ⟨.identifier "int", "int", true⟩,
        ⟨.identifier "y", "y", true⟩], []) := by cbv
  have hlays : ClassEntry.Lays false strayValueAmid
      [⟨2, .ok (.field .int "x")⟩, ⟨2, .error .invalidClassMember⟩, ⟨2, .ok (.field .int "y")⟩] :=
    .line hline (.field rfl (by cbv) (.empty rfl (.misplaced rfl (by cbv) (by rintro _ _ ⟨⟩)
      (by rintro _ ⟨⟩) (.empty rfl (.field rfl (by cbv) .done)) Bool.false_ne_true.elim))) .nil
  have hentries : ClassEntry.ofLines strayValueAmid =
      [⟨2, .ok (.field .int "x")⟩, ⟨2, .error .invalidClassMember⟩] := by cbv
  obtain ⟨after, hbuilt⟩ := hclaim _ _ hlays "A" (Session.context .none 0 []) 
    (.initial .standard (.shelf ⟨[]⟩))
  rw [buildClass_apply, hentries] at hbuilt
  cases congrArg (fun built => built.map (·.fields.length)) (congrArg Prod.fst hbuilt)

end Run

end BuildScript
