import BuildScript.Proofs.Evaluation.Equations
import BuildScript.Proofs.Files.Wildcards
import Mathlib

/-!
Listing what a pattern names. A pattern is cut behind its last slash: the front says which directory
is read and is put before every name found there, the rear is the pattern for the names. The front
that is the root alone is taken for no front at all, so such a pattern lists the directory of the
script.
-/

namespace BuildScript

namespace Path

/-- The pieces of a path, as characters: the first one and the others. -/
def charPieces (path : List Char) : List Char × List (List Char) :=
  path.foldr
    (fun c (first, others) => if c == '/' then ([], first :: others) else (c :: first, others))
    ([], [])

theorem pieces_eq (path : String) :
    pieces path =
      ((charPieces path.toList).1 :: (charPieces path.toList).2).map String.ofList := rfl

theorem charPieces_cons (c : Char) (path : List Char) :
    charPieces (c :: path) =
      if c = '/' then ([], (charPieces path).1 :: (charPieces path).2)
      else (c :: (charPieces path).1, (charPieces path).2) := by
  simp [charPieces]

theorem charPieces_plain {name : List Char} (h : '/' ∉ name) : charPieces name = (name, []) := by
  induction name with
  | nil => rfl
  | cons c name ih =>
    simp only [List.mem_cons, not_or] at h
    rw [charPieces_cons, if_neg (Ne.symm h.1), ih h.2]

theorem charPieces_slash (directory rest : List Char) :
    charPieces (directory ++ '/' :: rest) =
      ((charPieces directory).1,
        (charPieces directory).2 ++ (charPieces rest).1 :: (charPieces rest).2) := by
  induction directory with
  | nil => simp [charPieces]
  | cons c directory ih =>
    rw [List.cons_append, charPieces_cons, charPieces_cons, ih]
    split <;> simp

theorem intercalate_charPieces (path : List Char) :
    ['/'].intercalate ((charPieces path).1 :: (charPieces path).2) = path := by
  induction path with
  | nil => rfl
  | cons c path ih =>
    rw [charPieces_cons]
    by_cases hc : c = '/'
    · rw [if_pos hc, List.intercalate_cons_cons, ih, hc]
      rfl
    · rw [if_neg hc]
      cases hothers : (charPieces path).2 with
      | nil => simp_all
      | cons second others => simp_all [List.intercalate_cons_cons]

theorem ofPieces_pieces (path : String) : ofPieces (pieces path) = path := by
  apply String.toList_inj.mp
  rw [ofPieces, String.toList_intercalate, pieces_eq, List.map_map]
  have hid : String.toList ∘ String.ofList = id := by
    funext cs
    simp
  rw [hid, List.map_id]
  exact intercalate_charPieces path.toList

theorem pieces_plain {name : String} (h : '/' ∉ name.toList) : pieces name = [name] := by
  simp [pieces_eq, charPieces_plain h]

theorem pieces_slash (directory : String) {name : String} (h : '/' ∉ name.toList) :
    pieces (directory ++ "/" ++ name) = pieces directory ++ [name] := by
  have hchars : (directory ++ "/" ++ name).toList = directory.toList ++ '/' :: name.toList := by
    simp
  simp [pieces_eq, hchars, charPieces_slash, charPieces_plain h]

end Path

namespace Listing

/-- Everything up to and including the last slash. -/
def front (pattern : String) : String := String.ofList (pattern.toList.rdropWhile (· != '/'))

/-- What follows the last slash. -/
def rear (pattern : String) : String := String.ofList (pattern.toList.rtakeWhile (· != '/'))

variable {file pattern name : String}

theorem front_append_rear (pattern : String) : front pattern ++ rear pattern = pattern := by
  apply String.toList_inj.mp
  simp [front, rear]

theorem rear_plain (pattern : String) : '/' ∉ (rear pattern).toList := by
  intro h
  have hkept := List.mem_rtakeWhile_imp (by simpa [rear] using h)
  simp at hkept

theorem front_cases (pattern : String) :
    front pattern = "" ∨ ∃ directory, front pattern = directory ++ "/" := by
  by_cases hempty : pattern.toList.rdropWhile (· != '/') = []
  · left
    simp [front, hempty]
  · right
    have hlast := List.rdropWhile_last_not (· != '/') pattern.toList hempty
    refine ⟨String.ofList (pattern.toList.rdropWhile (· != '/')).dropLast, ?_⟩
    apply String.toList_inj.mp
    have hslash : (pattern.toList.rdropWhile (· != '/')).getLast hempty = '/' := by simpa using hlast
    have hsplit := List.dropLast_append_getLast hempty
    rw [hslash] at hsplit
    simpa [front] using hsplit.symm

/-- The front without its last slash. -/
def directoryPart (pattern : String) : String := String.ofList (front pattern).toList.dropLast

theorem front_of_directoryPart (h : directoryPart pattern ≠ "") :
    front pattern = directoryPart pattern ++ "/" := by
  rcases front_cases pattern with hempty | ⟨directory, hfront⟩
  · simp [directoryPart, hempty] at h
  · simp [directoryPart, hfront]

/-- Without its last slash, the root is as empty as no front. -/
theorem directoryPart_eq_empty :
    directoryPart pattern = "" ↔ front pattern = "" ∨ front pattern = "/" := by
  rcases front_cases pattern with hempty | ⟨directory, hfront⟩
  · simp [directoryPart, hempty]
  · simp [directoryPart, hfront]

theorem splitPattern_eq (pattern : String) :
    splitPattern pattern = (directoryPart pattern, rear pattern) := by
  have hplain := rear_plain pattern
  have hwhole := front_append_rear pattern
  rcases front_cases pattern with hempty | ⟨directory, hfront⟩
  · rw [hempty, String.empty_append] at hwhole
    calc splitPattern pattern = splitPattern (rear pattern) := congrArg splitPattern hwhole.symm
      _ = ("", rear pattern) := by simp [splitPattern, Path.pieces_plain hplain, Path.ofPieces]
      _ = (directoryPart pattern, rear pattern) := by simp [directoryPart, hempty]
  · rw [hfront] at hwhole
    calc splitPattern pattern = splitPattern (directory ++ "/" ++ rear pattern) :=
          congrArg splitPattern hwhole.symm
      _ = (directory, rear pattern) := by
          simp [splitPattern, Path.pieces_slash directory hplain, Path.ofPieces_pieces]
      _ = (directoryPart pattern, rear pattern) := by simp [directoryPart, hfront]

/-- The directory that a front denotes in a file: an absolute one is where it is, any other one is
below the directory of the file, and the empty front is that directory itself. -/
def denoted (file front : String) : String :=
  let place :=
    if front = "" then "." else if front = "/" then "/" else String.ofList front.toList.dropLast
  if Path.isAbsolute front then place else Path.join ((Path.parent? file).getD "") place

/-- The strings are the names in the directory that the rear describes, each as often as the directory
has it and with the front before it, in ascending order. -/
structure Lists (list : String → Except IoError (List String)) (file front rear : String)
    (found : List String) : Prop where
  entries : found.Perm
    ((((list (denoted file front)).toOption.getD []).filter
      fun name => Text.Wildcard.Describes rear.toList name.toList).map (front ++ ·))
  ascending : found.Pairwise (· ≤ ·)

variable {list : String → Except IoError (List String)}

theorem le_append_left (front : String) {a b : String} (h : a ≤ b) : front ++ a ≤ front ++ b := by
  rcases lt_or_eq_of_le h with hlt | rfl
  · apply le_of_lt
    rw [String.lt_iff] at hlt ⊢
    simpa using List.append_left_lt hlt
  · exact le_refl _

/-- The names are put in order before the front is put before them, which keeps the order. -/
theorem lists_of_sorted {rear found : String} {strings : List String} (names : List String)
    (hnames : (list (denoted file found)).toOption.getD [] = names)
    (hstrings : strings = ((names.mergeSort fun a b => a ≤ b).filter
      (Text.wildcardMatches rear)).map (found ++ ·)) :
    Lists list file found rear strings := by
  have hmatches : Text.wildcardMatches rear =
      fun name => decide (Text.Wildcard.Describes rear.toList name.toList) := by
    funext name
    rw [Bool.eq_iff_iff, decide_eq_true_iff]
    exact Text.wildcardMatches_iff rear name
  subst hstrings
  constructor
  · rw [hnames, hmatches]
    exact ((List.mergeSort_perm names _).filter _).map _
  · have hsorted : (names.mergeSort fun a b => a ≤ b).Pairwise (· ≤ ·) := by
      have hpairs : (names.mergeSort fun a b => decide (a ≤ b)).Pairwise fun a b =>
          decide (a ≤ b) = true :=
        List.pairwise_mergeSort (by simpa using fun a b c => String.le_trans)
          (by simpa using String.le_total) names
      simpa using hpairs
    exact (hsorted.filter _).map _ fun a b => le_append_left found

/-- The names of the directory that is read. -/
def namesRead (list : String → Except IoError (List String)) (file pattern : String) : List String :=
  (list (Path.fromScript file
    (if directoryPart pattern = "" then "." else directoryPart pattern))).toOption.getD []

theorem listed_eq (list : String → Except IoError (List String)) (file pattern : String) :
    listed list file pattern =
      (((namesRead list file pattern).mergeSort fun a b => a ≤ b).filter
        (Text.wildcardMatches (rear pattern))).map
          ((if directoryPart pattern = "" then "" else front pattern) ++ ·) := by
  unfold listed matching directory namesRead
  rw [splitPattern_eq]
  by_cases hcut : directoryPart pattern = ""
  · cases hlist : list (Path.fromScript file ".") <;> simp [hcut, hlist, Except.toOption]
  · have hempty : (directoryPart pattern).isEmpty = false := by simpa using hcut
    cases hlist : list (Path.fromScript file (directoryPart pattern)) <;>
      simp [hcut, hlist, hempty, Except.toOption, front_of_directoryPart hcut]

theorem isAbsolute_directoryPart (h : directoryPart pattern ≠ "") :
    Path.isAbsolute (front pattern) = Path.isAbsolute (directoryPart pattern) := by
  have hchars : (directoryPart pattern).toList ≠ [] := by simpa using h
  rw [front_of_directoryPart h]
  simp [Path.isAbsolute, List.head?_append_of_ne_nil _ hchars]

/-- Unless the front is the root, the directory that is read is the one that the front denotes. -/
theorem denoted_front (h : front pattern ≠ "/") :
    denoted file (front pattern) =
      Path.fromScript file (if directoryPart pattern = "" then "." else directoryPart pattern) := by
  by_cases hcut : directoryPart pattern = ""
  · have hempty : front pattern = "" := (directoryPart_eq_empty.mp hcut).resolve_right h
    simp [denoted, hcut, hempty, Path.isAbsolute, Path.fromScript]
  · have hfront : front pattern ≠ "" := fun hempty => hcut (directoryPart_eq_empty.mpr (.inl hempty))
    have hplace : String.ofList (front pattern).toList.dropLast = directoryPart pattern := rfl
    simp only [denoted, hfront, h, hcut, if_false, hplace, isAbsolute_directoryPart hcut,
      Path.fromScript, Path.join]
    by_cases habsolute : Path.isAbsolute (directoryPart pattern) = true
    · simp [habsolute]
    · simp [habsolute]

theorem lists_listed (h : front pattern ≠ "/") :
    Lists list file (front pattern) (rear pattern) (listed list file pattern) := by
  apply lists_of_sorted (namesRead list file pattern)
  · rw [denoted_front h]
    rfl
  · rw [listed_eq]
    by_cases hcut : directoryPart pattern = ""
    · have hempty : front pattern = "" := (directoryPart_eq_empty.mp hcut).resolve_right h
      simp [hcut, hempty]
    · simp [hcut]

theorem rear_rear (pattern : String) : rear (rear pattern) = rear pattern := by
  simp [rear, List.rtakeWhile_idempotent]

theorem front_rear (pattern : String) : front (rear pattern) = "" := by
  have hwhole := front_append_rear (rear pattern)
  rw [rear_rear] at hwhole
  simpa using hwhole

/-- The root is taken for no front. -/
theorem listed_root (h : front pattern = "/") (list : String → Except IoError (List String))
    (file : String) : listed list file pattern = listed list file (rear pattern) := by
  have hcut : directoryPart pattern = "" := directoryPart_eq_empty.mpr (.inr h)
  have hrear : directoryPart (rear pattern) = "" :=
    directoryPart_eq_empty.mpr (.inl (front_rear pattern))
  simp [listed_eq, namesRead, hcut, hrear, rear_rear]

/-- Where every directory has the rear itself as its only name, the root is missing before it. -/
theorem not_lists_root (h : front pattern = "/") :
    ¬Lists (fun _ => .ok [rear pattern]) file (front pattern) (rear pattern)
      (listed (fun _ => .ok [rear pattern]) file pattern) := by
  intro hlists
  have hcut : directoryPart pattern = "" := directoryPart_eq_empty.mpr (.inr h)
  have hself : Text.wildcardMatches (rear pattern) (rear pattern) = true :=
    (Text.wildcardMatches_iff _ _).mpr (Text.Wildcard.describes_self _)
  have hfound : listed (fun _ => .ok [rear pattern]) file pattern = [rear pattern] := by
    simp [listed_eq, namesRead, hcut, hself, Except.toOption]
  have hentries := hlists.entries
  simp only [hfound, h, Except.toOption, Option.getD_some, List.filter_cons,
    Text.Wildcard.describes_self, List.filter_nil, decide_true, if_true, List.map_cons, List.map_nil,
    List.perm_singleton, List.cons.injEq, and_true] at hentries
  have hlength := congrArg String.length hentries
  simp at hlength

/-- Nothing else lists the same names. -/
theorem Lists.unique {front rear : String} {found found' : List String}
    (h : Lists list file front rear found) (h' : Lists list file front rear found') :
    found = found' :=
  (h.entries.trans h'.entries.symm).eq_of_pairwise' h.ascending h'.ascending

/-- With the root before it, every string starts with a slash. -/
theorem Lists.head_slash {rear : String} {found : List String} (h : Lists list file "/" rear found)
    (hname : name ∈ found) : name.toList.head? = some '/' := by
  obtain ⟨short, -, rfl⟩ := List.mem_map.mp (h.entries.mem_iff.mp hname)
  simp

theorem text_argument {value : Value} (function : String) (h : value.text? = some pattern) :
    Arguments.text function [value] 0 = .ok pattern := by
  have hrequire : value.require = .ok value := by
    unfold Value.text? at h
    split at h
    · rfl
    · rfl
    · simp at h
  simp only [Arguments.text, Arguments.value, List.getElem?_cons_zero, hrequire, bind, Except.bind, h]
  rfl

/-- A call with a text lists it, and leaves the machine as it is. -/
theorem callBuiltin_listFiles {operand : Operand} {ctx : Context} {m : Machine}
    (h : (Eval.valueIn m operand).text? = some pattern) :
    Eval.callBuiltin .listFiles [operand] ctx m =
      (.ok (.ofValue (.array .string ((listed m.files.list m.file pattern).map .string))), m) := by
  have hcall : Eval.runBuiltin .listFiles [operand] ctx m =
      (.ok (.array .string ((listed m.files.list m.file pattern).map .string)), m) := by
    simp only [Eval.runBuiltin, Eval.listFiles, List.map_cons, List.map_nil, Eval.andThen_apply,
      Eval.machine_apply, Eval.liftM_eq, Eval.ofExcept_apply, text_argument _ h]
    rfl
  simp only [Eval.callBuiltin]
  have haccepts : Builtin.listFiles.accepts [operand].length = true := rfl
  rw [if_pos haccepts, Eval.andThen_apply_ok hcall]
  rfl

/-- What a pattern lists is what its rear describes in the directory that its front denotes, exactly
if that front is not the root. With the root before it, the rear alone is listed. Called with a
text, the built-in function gives what that text lists. -/
theorem pattern_listed (file pattern : String) :
    (front pattern ≠ "/" ↔
      ∀ list, Lists list file (front pattern) (rear pattern) (listed list file pattern)) ∧
    (front pattern = "/" → ∀ list, listed list file pattern = listed list file (rear pattern)) ∧
    ∀ ctx (m : Machine) operand, (Eval.valueIn m operand).text? = some pattern →
      Eval.callBuiltin .listFiles [operand] ctx m =
        (.ok (.ofValue (.array .string ((listed m.files.list m.file pattern).map .string))), m) := by
  refine ⟨⟨fun h list => lists_listed h, fun h hroot => ?_⟩, fun h list => listed_root h list file,
    fun ctx m operand => callBuiltin_listFiles⟩
  exact not_lists_root hroot (h _)

/-- A file system with two sources in a directory and a third one beside it. -/
def sources : FileSystem :=
  .shelf ⟨["src/b.c", "src/a.c", "c.c"].map fun path => (path, ⟨"", Shelf.newTime⟩)⟩

/-- The sources in the directory are listed with the directory before them. In place of the root, the
directory of the script is listed. -/
theorem sources_listed :
    Lists sources.list "" "src/" "*.c" ["src/a.c", "src/b.c"] ∧
    listed sources.list "main.eve" "/*.c" = ["c.c"] ∧
    Eval.callBuiltin .listFiles [.ofValue (.string "src/*.c")] (Session.context Host.none 0 [])
        (.initial .standard sources) =
      (.ok (.ofValue (.array .string [.string "src/a.c", .string "src/b.c"])),
        .initial .standard sources) := by
  have hlisted : listed sources.list "" "src/*.c" = ["src/a.c", "src/b.c"] := by cbv
  obtain ⟨hlists, -, hcalled⟩ := pattern_listed "" "src/*.c"
  refine ⟨?_, ?_, ?_⟩
  · rw [← hlisted]
    exact hlists.mp (by decide) sources.list
  · rw [(pattern_listed "main.eve" "/*.c").2.1 (by decide)]
    cbv
  · rw [hcalled _ _ _ rfl]
    simp [Machine.initial, hlisted]

/-- The source that the root and a star list has no root before it. -/
theorem root_not_listed :
    ¬∀ (files : FileSystem) (file front rear : String),
      (front = "" ∨ ∃ directory, front = directory ++ "/") → '/' ∉ rear.toList →
        Lists files.list file front rear (listed files.list file (front ++ rear)) := by
  intro hclaim
  have hlists := hclaim sources "main.eve" "/" "*.c" (.inr ⟨"", rfl⟩) (by decide)
  have hlisted : listed sources.list "main.eve" ("/" ++ "*.c") = ["c.c"] := by cbv
  rw [hlisted] at hlists
  have hslash := hlists.head_slash (List.mem_singleton_self _)
  simp at hslash

end Listing

end BuildScript
