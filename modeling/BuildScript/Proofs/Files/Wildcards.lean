import BuildScript.Text.Wildcard
import Mathlib.Data.List.Forall2

/-!
The names that a pattern describes. The loop forgets all stars but the last one it came to: what lies
between two stars has a fixed length, so if it fits anywhere, then it may as well be taken at the first
place where it fits, and the next star takes what is left out.
-/

namespace BuildScript.Text.Wildcard

/-- What a character of a pattern can be replaced by. -/
inductive StandsFor : Char → List Char → Prop
  | star (run : List Char) : StandsFor '*' run
  | any (c : Char) : StandsFor '?' [c]
  | self {c : Char} (hstar : c ≠ '*') (hany : c ≠ '?') : StandsFor c [c]

/-- The name is the pattern with every character replaced by something that it stands for. -/
def Describes (pattern name : List Char) : Prop :=
  ∃ parts, List.Forall₂ StandsFor pattern parts ∧ parts.flatten = name

/-- The character of the pattern is no star and stands for that of the name. -/
def Fits (p c : Char) : Prop := p ≠ '*' ∧ admits p c = true

variable {p c : Char} {pattern name segment part : List Char}

theorem standsFor_iff_of_ne (hstar : p ≠ '*') :
    StandsFor p part ↔ ∃ c, admits p c = true ∧ part = [c] := by
  constructor
  · intro h
    cases h with
    | star => exact absurd rfl hstar
    | any c => exact ⟨c, by simp [admits], rfl⟩
    | self => exact ⟨p, by simp [admits], rfl⟩
  · rintro ⟨c, hadmits, rfl⟩
    by_cases hany : p = '?'
    · subst hany
      exact .any c
    · have hsame : p = c := by simpa [admits, hany] using hadmits
      subst hsame
      exact .self hstar hany

theorem describes_nil : Describes [] name ↔ name = [] := by
  simp [Describes, eq_comm]

theorem describes_cons :
    Describes (p :: pattern) name ↔
      ∃ part rest, name = part ++ rest ∧ StandsFor p part ∧ Describes pattern rest := by
  constructor
  · rintro ⟨parts, hparts, rfl⟩
    cases hparts with
    | cons hfirst hothers => exact ⟨_, _, List.flatten_cons, hfirst, _, hothers, rfl⟩
  · rintro ⟨part, rest, rfl, hfirst, parts, hothers, rfl⟩
    exact ⟨part :: parts, .cons hfirst hothers, List.flatten_cons⟩

/-- A pattern describes itself. -/
theorem describes_self (pattern : List Char) : Describes pattern pattern := by
  induction pattern with
  | nil => simp [describes_nil]
  | cons p pattern ih =>
    refine describes_cons.mpr ⟨[p], pattern, rfl, ?_, ih⟩
    by_cases hstar : p = '*'
    · subst hstar
      exact .star _
    · exact (standsFor_iff_of_ne hstar).mpr ⟨p, by simp [admits], rfl⟩

theorem describes_star :
    Describes ('*' :: pattern) name ↔ ∃ count, Describes pattern (name.drop count) := by
  rw [describes_cons]
  constructor
  · rintro ⟨part, rest, rfl, -, hrest⟩
    exact ⟨part.length, by simpa using hrest⟩
  · rintro ⟨count, hrest⟩
    exact ⟨name.take count, name.drop count, (List.take_append_drop count name).symm, .star _, hrest⟩

theorem describes_single (hstar : p ≠ '*') :
    Describes (p :: pattern) name ↔
      ∃ c rest, name = c :: rest ∧ admits p c = true ∧ Describes pattern rest := by
  rw [describes_cons]
  constructor
  · rintro ⟨part, rest, rfl, hpart, hrest⟩
    obtain ⟨c, hadmits, rfl⟩ := (standsFor_iff_of_ne hstar).mp hpart
    exact ⟨c, rest, rfl, hadmits, hrest⟩
  · rintro ⟨c, rest, rfl, hadmits, hrest⟩
    exact ⟨[c], rest, rfl, (standsFor_iff_of_ne hstar).mpr ⟨c, hadmits, rfl⟩, hrest⟩

/-- A star describes any way to go on in the name. -/
theorem describes_star_drop {n : Nat} :
    Describes ('*' :: pattern) (name.drop n) ↔ ∃ m, n ≤ m ∧ Describes pattern (name.drop m) := by
  simp only [describes_star, List.drop_drop]
  constructor
  · rintro ⟨count, h⟩
    exact ⟨n + count, by omega, h⟩
  · rintro ⟨m, hm, h⟩
    exact ⟨m - n, by rwa [Nat.add_sub_of_le hm]⟩

/-- Only stars stand for nothing. -/
theorem describes_empty : Describes pattern [] ↔ ∀ p ∈ pattern, p = '*' := by
  induction pattern with
  | nil => simp [describes_nil]
  | cons p pattern ih =>
    by_cases hstar : p = '*'
    · simp [hstar, describes_star, ih]
    · simp [hstar, describes_single]

/-- Without stars, a part of the pattern describes as many characters as it has. -/
theorem Describes.drop (hsegment : ∀ p ∈ segment, p ≠ '*')
    (h : Describes (segment ++ pattern) name) : Describes pattern (name.drop segment.length) := by
  induction segment generalizing name with
  | nil => simpa using h
  | cons p segment ih =>
    obtain ⟨c, rest, rfl, -, hrest⟩ := (describes_single (hsegment p (by simp))).mp h
    exact ih (fun q hq => hsegment q (by simp [hq])) hrest

theorem describes_fitting (h : List.Forall₂ Fits segment part) :
    Describes (segment ++ pattern) (part ++ name) ↔ Describes pattern name := by
  induction h with
  | nil => simp
  | cons hfirst _ ih => simp [describes_single hfirst.1, hfirst.2, ih]

theorem not_star_of_fitting (h : List.Forall₂ Fits segment part) : ∀ p ∈ segment, p ≠ '*' := by
  induction h with
  | nil => simp
  | cons hfirst _ ih => simpa using ⟨hfirst.1, ih⟩

/-- What follows a part without stars starts as many characters behind the place of the part. -/
theorem Describes.behind {m : Nat} (hfits : List.Forall₂ Fits segment part)
    (h : Describes (segment ++ pattern) (name.drop m)) :
    Describes pattern (name.drop (m + part.length)) := by
  have hdrop := h.drop (not_star_of_fitting hfits)
  rwa [List.drop_drop, hfits.length_eq] at hdrop

theorem not_describes_mismatch {i : Nat} (hname : name.head? = some c)
    (hpattern : ∀ p, pattern[i]? = some p → p ≠ '*' ∧ admits p c = false) :
    ¬Describes (pattern.drop i) name := by
  intro h
  cases hleft : pattern.drop i with
  | nil =>
    rw [hleft, describes_nil] at h
    simp [h] at hname
  | cons p rest =>
    have hp : pattern[i]? = some p := by rw [← List.head?_drop, hleft, List.head?_cons]
    obtain ⟨hstar, hadmits⟩ := hpattern p hp
    rw [hleft] at h
    obtain ⟨c', rest', rfl, hc', -⟩ := (describes_single hstar).mp h
    simp_all

theorem drop_of_getElem? {α : Type} {l : List α} {i : Nat} {a : α} (h : l[i]? = some a) :
    l.drop i = a :: l.drop (i + 1) := by
  obtain ⟨hlt, rfl⟩ := List.getElem?_eq_some_iff.mp h
  exact List.drop_eq_getElem_cons hlt

/-- What the loop has found out about a pattern and a name: where it is a matter of describing a rest by
a rest, and behind a star a rest by any rest from a place on, where the part of the pattern behind the
star has fitted so far. -/
inductive Cursor.Tracks (pattern name : List Char) (cursor : Cursor) : Prop
  | plain (hstar : cursor.star = none)
      (h : Describes pattern name ↔
        Describes (pattern.drop cursor.pattern) (name.drop cursor.name))
  | starred {star taken : Nat} {segment part : List Char} (hstar : cursor.star = some (star, taken))
      (hfits : List.Forall₂ Fits segment part)
      (hplace : cursor.name = taken + part.length)
      (hpattern : pattern.drop (star + 1) = segment ++ pattern.drop cursor.pattern)
      (hname : name.drop taken = part ++ name.drop cursor.name)
      (h : Describes pattern name ↔
        ∃ m, taken ≤ m ∧ Describes (pattern.drop (star + 1)) (name.drop m))

variable {cursor after : Cursor}

theorem Cursor.start_tracks : Cursor.start.Tracks pattern name := .plain rfl (by simp [start])

/-- A star takes over: what an earlier star could leave to it, it can take itself. -/
theorem Cursor.Tracks.withStar (h : cursor.Tracks pattern name)
    (hpattern : pattern[cursor.pattern]? = some '*') : cursor.withStar.Tracks pattern name := by
  refine .starred rfl .nil rfl rfl rfl ?_
  have hstar := drop_of_getElem? hpattern
  cases h with
  | plain _ hleft =>
    rw [hleft, hstar]
    exact describes_star_drop
  | starred _ hfits hplace hsegment hpart hleft =>
    rw [hleft, hsegment, hstar]
    constructor
    · rintro ⟨m, hm, hdescribes⟩
      obtain ⟨n, hn, hrest⟩ := describes_star_drop.mp (hdescribes.behind hfits)
      exact ⟨n, by omega, hrest⟩
    · rintro ⟨n, hn, hrest⟩
      refine ⟨_, Nat.le_refl _, ?_⟩
      rw [hpart, describes_fitting hfits]
      exact describes_star_drop.mpr ⟨n, hn, hrest⟩

theorem Cursor.Tracks.advanced (h : cursor.Tracks pattern name) (hfits : Fits p c)
    (hpattern : pattern[cursor.pattern]? = some p) (hname : name[cursor.name]? = some c) :
    cursor.advanced.Tracks pattern name := by
  have hp := drop_of_getElem? hpattern
  have hc := drop_of_getElem? hname
  cases h with
  | plain hstar hleft =>
    refine .plain hstar ?_
    rw [hleft, hp, hc, describes_single hfits.1]
    simp [hfits.2, Cursor.advanced]
  | starred hstar hsofar hplace hsegment hpart hleft =>
    refine .starred hstar (List.rel_append hsofar (.cons hfits .nil)) ?_ ?_ ?_ hleft
    · simp only [Cursor.advanced, List.length_append, List.length_singleton]
      omega
    · simp [hsegment, hp, Cursor.advanced]
    · simp [hpart, hc, Cursor.advanced]

/-- What a turn leads to agrees with what is to be found out. -/
def Turn.Sound (pattern name : List Char) : Turn → Prop
  | .next after => after.Tracks pattern name
  | .answer found => found = true ↔ Describes pattern name
  | .outOfRange => True

/-- Where the pattern does not go on like the name, the last star cannot stop where it does. -/
theorem Cursor.Tracks.back (h : cursor.Tracks pattern name)
    (hmismatch : ¬Describes (pattern.drop cursor.pattern) (name.drop cursor.name)) :
    cursor.back.Sound pattern name := by
  cases h with
  | plain hstar hleft => simpa [Cursor.back, hstar, Turn.Sound, hleft] using hmismatch
  | @starred star taken segment part hstar hfits hplace hsegment hpart hleft =>
    simp only [Cursor.back, hstar, Turn.Sound]
    refine .starred rfl .nil rfl rfl rfl ?_
    rw [hleft]
    constructor
    · rintro ⟨m, hm, hdescribes⟩
      have hlater : m ≠ taken := by
        rintro rfl
        rw [hsegment, hpart, describes_fitting hfits] at hdescribes
        exact hmismatch hdescribes
      exact ⟨m, by omega, hdescribes⟩
    · rintro ⟨m, hm, hdescribes⟩
      exact ⟨m, by omega, hdescribes⟩

/-- At the end of the name only the rest of the pattern matters: an earlier star that took more would
leave too little to the part behind it. -/
theorem Cursor.Tracks.nameEnd (h : cursor.Tracks pattern name)
    (hname : name.length ≤ cursor.name) :
    Describes pattern name ↔ ∀ p ∈ pattern.drop cursor.pattern, p = '*' := by
  have hend : name.drop cursor.name = [] := List.drop_eq_nil_of_le hname
  rw [← describes_empty]
  cases h with
  | plain _ hleft => rw [hleft, hend]
  | @starred _ _ _ part _ hfits hplace hsegment hpart hleft =>
    rw [hleft, hsegment]
    constructor
    · rintro ⟨m, hm, hdescribes⟩
      have hrest := hdescribes.behind hfits
      have hnothing : name.drop (m + part.length) = [] := List.drop_eq_nil_of_le (by omega)
      rwa [hnothing] at hrest
    · intro hrest
      refine ⟨_, Nat.le_refl _, ?_⟩
      rwa [hpart, describes_fitting hfits, hend]

section Loop

variable (pattern name : Array Char)

/-- The loop comes from a cursor to an answer, and no turn on the way is out of range. -/
inductive Answers : Cursor → Bool → Prop
  | answer {cursor : Cursor} {found : Bool} (h : turn pattern name cursor = .answer found) :
      Answers cursor found
  | next {cursor after : Cursor} {found : Bool} (h : turn pattern name cursor = .next after)
      (hafter : Answers after found) : Answers cursor found

theorem run_answers (cursor : Cursor) (h : cursor.InRange pattern name) :
    Answers pattern name cursor (run pattern name cursor h) := by
  fun_induction run with
  | case1 cursor h after hturn ih => exact .next hturn ih
  | case2 cursor h found hturn => exact .answer hturn

variable {pattern name} {found : Bool}

theorem Cursor.Tracks.turn (h : cursor.Tracks pattern.toList name.toList) :
    (turn pattern name cursor).Sound pattern.toList name.toList := by
  cases cursor.finds pattern name with
  | nameEnd hname _ hturn =>
    rw [hturn]
    simp [Turn.Sound, h.nameEnd hname]
  | beyond _ hturn =>
    rw [hturn]
    trivial
  | star _ hpattern hturn =>
    rw [hturn]
    exact h.withStar (by simpa using hpattern)
  | single p c hname hpattern hstar hadmits hturn =>
    rw [hturn]
    exact h.advanced ⟨hstar, hadmits⟩ (by simpa using hpattern) (by simpa using hname)
  | mismatch c hname hpattern hturn =>
    rw [hturn]
    refine h.back (not_describes_mismatch (c := c) ?_ ?_)
    · simpa using hname
    · simpa using hpattern

/-- The answer is right. -/
theorem Answers.sound (h : Answers pattern name cursor found)
    (htracks : cursor.Tracks pattern.toList name.toList) :
    found = true ↔ Describes pattern.toList name.toList := by
  induction h with
  | answer hturn =>
    have hsound := htracks.turn
    rwa [hturn] at hsound
  | next hturn _ ih =>
    have hsound := htracks.turn
    rw [hturn] at hsound
    exact ih hsound

end Loop

end Wildcard

open Wildcard

theorem wildcardMatches_answers (pattern name : String) :
    Answers pattern.toList.toArray name.toList.toArray .start (wildcardMatches pattern name) :=
  run_answers _ _ _ _

theorem wildcardMatches_iff (pattern name : String) :
    wildcardMatches pattern name = true ↔ Describes pattern.toList name.toList := by
  have hsound := (wildcardMatches_answers pattern name).sound
    (by simpa using Cursor.start_tracks)
  simpa using hsound

instance (pattern name : List Char) : Decidable (Describes pattern name) :=
  decidable_of_iff (wildcardMatches (String.ofList pattern) (String.ofList name) = true)
    (by simpa using wildcardMatches_iff (String.ofList pattern) (String.ofList name))

/-- A pattern matches exactly the names that it describes, and the loop that finds this out ends with
its answer and never reads behind the end of pattern or name. -/
theorem wildcard_language (pattern name : String) :
    Answers pattern.toList.toArray name.toList.toArray .start (wildcardMatches pattern name) ∧
      (wildcardMatches pattern name = true ↔ Describes pattern.toList name.toList) :=
  ⟨wildcardMatches_answers pattern name, wildcardMatches_iff pattern name⟩

end BuildScript.Text
