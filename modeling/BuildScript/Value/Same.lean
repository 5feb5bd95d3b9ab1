import BuildScript.Value.Basic

/-!
Structural sameness, without promotion between numbers. Definitions are the same by identity, bound
functions regardless of their receiver, and objects by class name and fields.
-/

namespace BuildScript

def Atom.same : Atom → Atom → Bool
  | void a, void b => a == b
  | bool a, bool b => a == b
  | int a, int b => a == b
  | float a, float b => a == b
  | string a, string b => a == b
  | macroText a, macroText b => a == b
  | typeName a, typeName b => a == b
  | function a _, function b _ => a.same b
  | procedure a, procedure b => a.id == b.id
  | classTemplate a, classTemplate b => a.id == b.id
  | _, _ => false

namespace Value

mutual

def same : Value → Value → Bool
  | atom a, atom b => a.same b
  | array s xs, array t ys => s == t && sameItems xs ys
  | list xs, list ys => sameItems xs ys
  | object c fs _, object d gs _ => c == d && sameFields fs gs
  | _, _ => false

def sameItems : List Value → List Value → Bool
  | [], [] => true
  | x :: xs, y :: ys => x.same y && sameItems xs ys
  | _, _ => false

def sameFields : List (String × Value) → List (String × Value) → Bool
  | [], [] => true
  | (n, x) :: xs, (m, y) :: ys => n == m && x.same y && sameFields xs ys
  | _, _ => false

end

end Value

end BuildScript
