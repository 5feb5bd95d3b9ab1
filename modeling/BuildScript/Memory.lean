import BuildScript.Value.Basic

/-!
Storage. A variable, an element or a field is a slot; a slot holds an atom, the slots of its
elements, or an object, which has a slot for every field. Storing a value gives each of its parts a
slot of its own, and reading a slot gives the whole value back, so values never share storage while
slots can be shared by name.
-/

namespace BuildScript

structure Slot where
  index : Nat
  deriving DecidableEq

/-- What a slot holds. -/
inductive Content where
  | atom (atom : Atom)
  | array (element : DataType) (items : List Slot)
  | list (items : List Slot)
  | object (id : ObjectId)

instance : Inhabited Content := ⟨.atom (.void "")⟩

/-- An object in storage. -/
structure Instance where
  className : String
  fields : List (String × Slot)
  methods : List (String × Callable)
  deriving Inhabited

structure Memory where
  cells : Array Content
  objects : Array Instance

namespace Memory

def empty : Memory := ⟨#[], #[]⟩

def content (memory : Memory) (slot : Slot) : Content := memory.cells.getD slot.index default

/-- An object that was never made is the placeholder of an unknown class. -/
def instanceOf (memory : Memory) (id : ObjectId) : Instance := memory.objects.getD id ⟨"", [], []⟩

def typeOf (memory : Memory) : Content → DataType
  | .atom a => a.type
  | .array element _ => .array element
  | .list _ => .list
  | .object id => .object (memory.instanceOf id).className

/-- The value of a slot, down to the given nesting. -/
def loadWithin : Nat → Memory → Slot → Value
  | 0, _, _ => .nothing
  | depth + 1, memory, slot =>
    match memory.content slot with
    | .atom a => .atom a
    | .array element items => .array element (items.map (loadWithin depth memory))
    | .list items => .list (items.map (loadWithin depth memory))
    | .object id =>
      let object := memory.instanceOf id
      .object object.className
        (object.fields.map fun (name, field) => (name, loadWithin depth memory field))
        object.methods

/-- The value of a slot. No slot lies within itself, so no value nests deeper than there are
slots. -/
def load (memory : Memory) (slot : Slot) : Value :=
  loadWithin (memory.cells.size + 1) memory slot

/-- An object as a value. -/
def loadInstance (memory : Memory) (id : ObjectId) : Value :=
  let object := memory.instanceOf id
  .object object.className (object.fields.map fun (name, field) => (name, memory.load field))
    object.methods

/-- Appends a cell. -/
def push (memory : Memory) (content : Content) : Slot × Memory :=
  (⟨memory.cells.size⟩, { memory with cells := memory.cells.push content })

mutual

/-- Stores the parts of a value in fresh slots and gives what a slot for the whole has to hold. -/
def place (memory : Memory) : Value → Content × Memory
  | .atom a => (.atom a, memory)
  | .array element items =>
    let (slots, memory) := placeItems memory items
    (.array element slots, memory)
  | .list items =>
    let (slots, memory) := placeItems memory items
    (.list slots, memory)
  | .object className fields methods =>
    let (fields, memory) := placeFields memory fields
    (.object memory.objects.size,
      { memory with objects := memory.objects.push ⟨className, fields, methods⟩ })

def placeItems (memory : Memory) : List Value → List Slot × Memory
  | [] => ([], memory)
  | item :: rest =>
    let (content, memory) := place memory item
    let (slot, memory) := memory.push content
    let (slots, memory) := placeItems memory rest
    (slot :: slots, memory)

def placeFields (memory : Memory) : List (String × Value) → List (String × Slot) × Memory
  | [] => ([], memory)
  | (name, value) :: rest =>
    let (content, memory) := place memory value
    let (slot, memory) := memory.push content
    let (fields, memory) := placeFields memory rest
    ((name, slot) :: fields, memory)

end

/-- A fresh slot that holds the value. -/
def alloc (memory : Memory) (value : Value) : Slot × Memory :=
  let (content, memory) := memory.place value
  memory.push content

/-- Replaces what a slot holds. -/
def write (memory : Memory) (slot : Slot) (value : Value) : Memory :=
  let (content, memory) := memory.place value
  { memory with cells := memory.cells.setIfInBounds slot.index content }

/-- Whether the object lies in a slot, down to the given nesting. -/
def reachesWithin : Nat → Memory → ObjectId → Slot → Bool
  | 0, _, _, _ => false
  | depth + 1, memory, target, slot =>
    match memory.content slot with
    | .atom _ => false
    | .array _ items | .list items => items.any (reachesWithin depth memory target)
    | .object id =>
      id == target ||
        (memory.instanceOf id).fields.any fun (_, field) => reachesWithin depth memory target field

/-- Whether the object is the content of a slot or lies somewhere inside it. -/
def reaches (memory : Memory) (target : ObjectId) (slot : Slot) : Bool :=
  reachesWithin (memory.cells.size + 1) memory target slot

end Memory

end BuildScript
