import BytecodeMutation.Bytes

/-!
Sequences of bits, and prefix codes over them. A prefix code is given by the lengths of its words
alone: shorter words come first, and words of the same length are in the order of their symbols.
-/

namespace BytecodeMutation

abbrev Bits := List Bool

def bitsOfByte (b : UInt8) : Bits := (List.range 8).map fun i => b.toNat.testBit i

/-- How many words of a prefix code there are of length one, two and so on, and the symbols in the
order of their words. -/
structure PrefixCode where
  counts : List Nat
  symbols : Array Nat
  deriving DecidableEq, Repr

namespace PrefixCode

def symbolsOfLength (lengths : List Nat) (length : Nat) : List Nat :=
  lengths.zipIdx.filterMap fun (l, symbol) => if l == length then some symbol else none

def spare? (counts : List Nat) : Option Nat :=
  counts.foldlM (fun left count => if 2 * left < count then none else some (2 * left - count)) 1

def ofLengths? (longest : Nat) (lengths : List Nat) : Option PrefixCode :=
  let groups := (List.range longest).map fun i => symbolsOfLength lengths (i + 1)
  let counts := groups.map List.length
  (spare? counts).map fun _ => ⟨counts, groups.flatten.toArray⟩

def isComplete (c : PrefixCode) : Bool := spare? c.counts == some 0

def isShort (c : PrefixCode) : Bool := (c.counts.drop 1).all (· == 0)

/-- Reads a word bit by bit. Among the words of each length the first has the value `first` and its
symbol the position `index`. -/
def readFrom (symbols : Array Nat) (value first index : Nat) : List Nat → Bits →
    Option (Nat × Bits)
  | count :: counts, b :: s =>
      let value := value + b.toNat
      if value < first + count then (symbols[index + (value - first)]?).map fun v => (v, s)
      else readFrom symbols (2 * value) (2 * (first + count)) (index + count) counts s
  | _, _ => none

def read? (c : PrefixCode) (s : Bits) : Option (Nat × Bits) := readFrom c.symbols 0 0 0 c.counts s

end PrefixCode

end BytecodeMutation
