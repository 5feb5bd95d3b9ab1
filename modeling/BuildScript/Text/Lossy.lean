/-!
Text out of bytes that need not be well-formed UTF-8. A maximal start of a character that does not
go on, and a byte that starts none, each become one replacement character.
-/

namespace BuildScript.Text

/-- A range of bytes, ends included. -/
structure ByteRange where
  low : UInt8
  high : UInt8

def ByteRange.contains (range : ByteRange) (byte : UInt8) : Bool :=
  range.low ≤ byte && byte ≤ range.high

def continuationByte : ByteRange := ⟨0x80, 0xBF⟩

/-- The bytes that must follow the first one of a character. The second is restricted where it would
make an overlong form, a surrogate or a number above the last code point. -/
def bytesAfter? (first : UInt8) : Option (List ByteRange) :=
  let any := continuationByte
  if first < 0x80 then some []
  else if first < 0xC2 then none
  else if first < 0xE0 then some [any]
  else if first == 0xE0 then some [⟨0xA0, 0xBF⟩, any]
  else if first == 0xED then some [⟨0x80, 0x9F⟩, any]
  else if first < 0xF0 then some [any, any]
  else if first == 0xF0 then some [⟨0x90, 0xBF⟩, any, any]
  else if first < 0xF4 then some [any, any, any]
  else if first == 0xF4 then some [⟨0x80, 0x8F⟩, any, any]
  else none

/-- The number of bytes at the front that lie in their ranges. -/
def matchingBytes : List ByteRange → List UInt8 → Nat
  | range :: ranges, byte :: rest =>
    if range.contains byte then matchingBytes ranges rest + 1 else 0
  | _, _ => 0

def replacementCharacter : Char := '\ufffd'

/-- The character at the front and the number of bytes after the first that belong to it. -/
def firstCharacter (first : UInt8) (rest : List UInt8) : Char × Nat :=
  match bytesAfter? first with
  | none => (replacementCharacter, 0)
  | some ranges =>
    let n := matchingBytes ranges rest
    if n == ranges.length then
      let decoded := String.fromUTF8? ⟨(first :: rest.take n).toArray⟩
      ((decoded.bind (·.toList.head?)).getD replacementCharacter, n)
    else (replacementCharacter, n)

def lossyCharacters : List UInt8 → List Char
  | [] => []
  | first :: rest =>
    let (c, n) := firstCharacter first rest
    c :: lossyCharacters (rest.drop n)
termination_by bytes => bytes.length
decreasing_by
  simp only [List.length_drop, List.length_cons]
  omega

/-- The text of bytes, with replacement characters for what is no text. -/
def ofBytesLossy (bytes : ByteArray) : String := String.ofList (lossyCharacters bytes.toList)

end BuildScript.Text
