/-!
File name patterns: `*` stands for any run of characters and `?` for any single one; every other
character stands for itself. One loop walks through pattern and name side by side. Where they
differ, it goes back to the last star, which then takes one character more than before; the stars
before that one are forgotten.
-/

namespace BuildScript.Text.Wildcard

/-- Where the loop stands. -/
structure Cursor where
  /-- The next character of the pattern. -/
  pattern : Nat
  /-- The next character of the name. -/
  name : Nat
  /-- The last star, and the first character of the name behind those that it takes. -/
  star : Option (Nat × Nat)

/-- What one turn of the loop leads to. -/
inductive Turn where
  | next (cursor : Cursor)
  | answer (found : Bool)
  /-- Pattern or name were read behind their end. -/
  | outOfRange

/-- Whether a character of the pattern that is no star stands for one of the name. -/
def admits (p c : Char) : Bool := p == '?' || p == c

namespace Cursor

def start : Cursor := ⟨0, 0, none⟩

/-- Goes on with a star that takes nothing so far. -/
def withStar (cursor : Cursor) : Cursor :=
  ⟨cursor.pattern + 1, cursor.name, some (cursor.pattern, cursor.name)⟩

def advanced (cursor : Cursor) : Cursor :=
  { cursor with pattern := cursor.pattern + 1, name := cursor.name + 1 }

/-- Goes back to the last star, which takes one more character. -/
def back (cursor : Cursor) : Turn :=
  match cursor.star with
  | some (star, taken) => .next ⟨star + 1, taken + 1, some (star, taken + 1)⟩
  | none => .answer false

end Cursor

variable (pattern name : Array Char)

def turn (cursor : Cursor) : Turn :=
  if cursor.name < name.size then
    match name[cursor.name]?, pattern[cursor.pattern]? with
    | none, _ => .outOfRange
    | some _, none => cursor.back
    | some c, some p =>
      if p == '*' then .next cursor.withStar
      else if admits p c then .next cursor.advanced
      else cursor.back
  else if cursor.pattern ≤ pattern.size then
    .answer ((pattern.toList.drop cursor.pattern).all (· == '*'))
  else .outOfRange

/-- The cursor points into pattern and name or at their ends, and its star lies before it. -/
structure Cursor.InRange (cursor : Cursor) : Prop where
  pattern_le : cursor.pattern ≤ pattern.size
  name_le : cursor.name ≤ name.size
  star_before : ∀ star taken, cursor.star = some (star, taken) →
    star < cursor.pattern ∧ taken ≤ cursor.name

/-- How much the stars can still move: to a later star, or to a later place in the name. -/
def Cursor.room (cursor : Cursor) : Nat :=
  match cursor.star with
  | none => pattern.size + name.size + 1
  | some (star, taken) => (pattern.size - star) + (name.size - taken)

variable {pattern name} {cursor after : Cursor}

theorem Cursor.start_inRange : Cursor.start.InRange pattern name :=
  ⟨Nat.zero_le _, Nat.zero_le _, fun _ _ h => nomatch h⟩

theorem Cursor.InRange.back (h : cursor.InRange pattern name) (hname : cursor.name < name.size)
    (hback : cursor.back = .next after) :
    after.InRange pattern name ∧ after.room pattern name < cursor.room pattern name := by
  unfold Cursor.back at hback
  cases hstar : cursor.star with
  | none => simp [hstar] at hback
  | some found =>
    obtain ⟨star, taken⟩ := found
    have hbefore := h.star_before star taken hstar
    have hpattern := h.pattern_le
    simp only [hstar, Turn.next.injEq] at hback
    subst hback
    constructor
    · constructor
      · dsimp only
        omega
      · dsimp only
        omega
      · simp
    · simp only [room, hstar]
      omega

/-- What the loop finds where it stands, and the turn it takes. -/
inductive Cursor.Finds (pattern name : Array Char) (cursor : Cursor) : Prop where
  | nameEnd (hname : name.size ≤ cursor.name) (hpattern : cursor.pattern ≤ pattern.size)
      (hturn : turn pattern name cursor =
        .answer ((pattern.toList.drop cursor.pattern).all (· == '*')))
  | beyond (hpattern : pattern.size < cursor.pattern)
      (hturn : turn pattern name cursor = .outOfRange)
  | star (hname : cursor.name < name.size) (hpattern : pattern[cursor.pattern]? = some '*')
      (hturn : turn pattern name cursor = .next cursor.withStar)
  | single (p c : Char) (hname : name[cursor.name]? = some c)
      (hpattern : pattern[cursor.pattern]? = some p) (hstar : p ≠ '*') (hadmits : admits p c = true)
      (hturn : turn pattern name cursor = .next cursor.advanced)
  | mismatch (c : Char) (hname : name[cursor.name]? = some c)
      (hpattern : ∀ p, pattern[cursor.pattern]? = some p → p ≠ '*' ∧ admits p c = false)
      (hturn : turn pattern name cursor = cursor.back)

theorem Cursor.finds (pattern name : Array Char) (cursor : Cursor) :
    cursor.Finds pattern name := by
  by_cases hname : cursor.name < name.size
  · have hc : name[cursor.name]? = some name[cursor.name] := Array.getElem?_eq_getElem hname
    cases hp : pattern[cursor.pattern]? with
    | none => exact .mismatch name[cursor.name] hc (by simp [hp]) (by simp [turn, hname, hp])
    | some p =>
      by_cases hstar : p = '*'
      · subst hstar
        exact .star hname hp (by simp [turn, hname, hp])
      by_cases hadmits : admits p name[cursor.name] = true
      · exact .single p name[cursor.name] hc hp hstar hadmits
          (by simp [turn, hname, hp, hstar, hadmits])
      · exact .mismatch name[cursor.name] hc (by simp [hp, hstar, hadmits])
          (by simp [turn, hname, hp, hstar, hadmits])
  · by_cases hpattern : cursor.pattern ≤ pattern.size
    · exact .nameEnd (by omega) hpattern (by simp [turn, hname, hpattern])
    · exact .beyond (by omega) (by simp [turn, hname, hpattern])

/-- A turn stays in range, and if the star keeps its place, the cursor moves on in the name. -/
theorem Cursor.InRange.turned (h : cursor.InRange pattern name)
    (hturn : turn pattern name cursor = .next after) :
    after.InRange pattern name ∧
      (after.room pattern name < cursor.room pattern name ∨
        after.room pattern name = cursor.room pattern name ∧
          name.size - after.name < name.size - cursor.name) := by
  obtain ⟨hpattern_le, hname_le, hbefore⟩ := h
  cases cursor.finds pattern name with
  | nameEnd _ _ hfound | beyond _ hfound => simp [hfound] at hturn
  | star hname hpattern hfound =>
    obtain ⟨hlt, -⟩ := Array.getElem?_eq_some_iff.mp hpattern
    rw [hfound, Turn.next.injEq] at hturn
    subst hturn
    refine ⟨⟨hlt, hname_le, by simp [withStar]⟩, .inl ?_⟩
    cases hstar : cursor.star with
    | none =>
      simp only [room, withStar, hstar]
      omega
    | some found =>
      have hfirst := hbefore found.1 found.2 hstar
      simp only [room, withStar, hstar]
      omega
  | single p c hname hpattern _ _ hfound =>
    obtain ⟨hpattern_lt, -⟩ := Array.getElem?_eq_some_iff.mp hpattern
    obtain ⟨hname_lt, -⟩ := Array.getElem?_eq_some_iff.mp hname
    rw [hfound, Turn.next.injEq] at hturn
    subst hturn
    refine ⟨⟨hpattern_lt, hname_lt, fun star taken hstar => ?_⟩, .inr ⟨rfl, ?_⟩⟩
    · have hfirst := hbefore star taken hstar
      simp only [advanced]
      omega
    · simp only [advanced]
      omega
  | mismatch c hname _ hfound =>
    obtain ⟨hname_lt, -⟩ := Array.getElem?_eq_some_iff.mp hname
    rw [hfound] at hturn
    obtain ⟨hrange, hroom⟩ := InRange.back ⟨hpattern_le, hname_le, hbefore⟩ hname_lt hturn
    exact ⟨hrange, .inl hroom⟩

theorem Cursor.InRange.turn_ne_outOfRange (h : cursor.InRange pattern name) :
    turn pattern name cursor ≠ .outOfRange := by
  have hpattern_le := h.pattern_le
  cases cursor.finds pattern name with
  | nameEnd _ _ hfound | star _ _ hfound | single _ _ _ _ _ _ hfound => simp [hfound]
  | beyond hpattern _ => omega
  | mismatch _ _ _ hfound =>
    rw [hfound]
    unfold Cursor.back
    cases cursor.star <;> simp

variable (pattern name) in
/-- Takes turns until there is an answer. -/
def run (cursor : Cursor) (h : cursor.InRange pattern name) : Bool :=
  match hturn : turn pattern name cursor with
  | .next after => run after (h.turned hturn).1
  | .answer found => found
  | .outOfRange => absurd hturn h.turn_ne_outOfRange
termination_by (cursor.room pattern name, name.size - cursor.name)
decreasing_by
  rcases (h.turned hturn).2 with hroom | ⟨hroom, hname⟩
  · exact .left _ _ hroom
  · rw [hroom]
    exact .right _ hname

end Wildcard

def wildcardMatches (pattern name : String) : Bool :=
  Wildcard.run pattern.toList.toArray name.toList.toArray .start Wildcard.Cursor.start_inRange

end BuildScript.Text
