namespace BytecodeMutation

structure Location where
  className : String
  methodName : String
  methodDescriptor : String
  deriving DecidableEq, Repr

def Location.text (l : Location) : String :=
  s!"{l.className}.{l.methodName}{l.methodDescriptor}"

structure Identifier where
  location : Location
  indexes : List Nat
  operator : String
  deriving DecidableEq, Repr

namespace Identifier

def single (location : Location) (index : Nat) (operator : String) : Identifier :=
  ⟨location, [index], operator⟩

def dropRepeats : List Nat → List Nat
  | a :: b :: s => if a = b then dropRepeats (b :: s) else a :: dropRepeats (b :: s)
  | s => s

def spanning (id : Identifier) (indexes : List Nat) : Identifier :=
  { id with indexes := dropRepeats (indexes.mergeSort) }

def firstOrdinal (id : Identifier) : Nat := id.indexes.headD 0

def covers (id other : Identifier) : Bool :=
  id.location == other.location && id.operator == other.operator
    && id.indexes.contains other.firstOrdinal

def text (id : Identifier) : String :=
  let indexes := ",".intercalate (id.indexes.map toString)
  s!"{id.location.text} [{indexes}] {id.operator}"

def compareIndexes : List Nat → List Nat → Ordering
  | [], [] => .eq
  | [], _ => .lt
  | _, [] => .gt
  | a :: s, b :: r => (compare a b).then (compareIndexes s r)

def order (a b : Identifier) : Ordering :=
  (compare a.location.className b.location.className).then <|
  (compare a.location.methodName b.location.methodName).then <|
  (compare a.location.methodDescriptor b.location.methodDescriptor).then <|
  (compareIndexes a.indexes b.indexes).then (compare a.operator b.operator)

end Identifier

structure Details where
  id : Identifier
  description : String
  line : Option Nat
  block : Nat
  mutator : String
  filename : Option String
  inFinallyBlock : Bool := false
  deriving DecidableEq, Repr

def Details.firstOrdinal (d : Details) : Nat := d.id.firstOrdinal

end BytecodeMutation
