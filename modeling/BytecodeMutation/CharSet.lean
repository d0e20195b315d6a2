namespace BytecodeMutation

structure CharSet where
  ranges : List (Nat × Nat)
  deriving DecidableEq, Repr

namespace CharSet

def empty : CharSet := ⟨[]⟩

def range (low high : Nat) : CharSet := ⟨[(low, high)]⟩

def single (c : Char) : CharSet := range c.toNat c.toNat

def extend (low high : Nat) : List (Nat × Nat) → List (Nat × Nat)
  | [] => [(low, high)]
  | (l, h) :: rs => if l ≤ high + 1 then extend low (max high h) rs else (low, high) :: (l, h) :: rs

def joined (ranges : List (Nat × Nat)) : List (Nat × Nat) :=
  ranges.foldr (fun (low, high) rs => extend low high rs) []

def ofRanges (ranges : List (Nat × Nat)) : CharSet :=
  ⟨joined (ranges.mergeSort fun a b => a.1 ≤ b.1)⟩

def containsCode (n : Nat) : List (Nat × Nat) → Bool
  | [] => false
  | (low, high) :: rs => low ≤ n && (n ≤ high || containsCode n rs)

def contains (s : CharSet) (c : Char) : Bool := containsCode c.toNat s.ranges

def union (s t : CharSet) : CharSet := ofRanges (s.ranges ++ t.ranges)

def gaps (next : Nat) : List (Nat × Nat) → List (Nat × Nat)
  | [] => if next ≤ 0x10ffff then [(next, 0x10ffff)] else []
  | (low, high) :: rs =>
      if next < low then (next, low - 1) :: gaps (high + 1) rs else gaps (high + 1) rs

def surrogates : CharSet := range 0xd800 0xdfff

def complement (s : CharSet) : CharSet := ⟨gaps 0 (s.union surrogates).ranges⟩

def all : CharSet := complement empty

def inter (s t : CharSet) : CharSet := (s.complement.union t.complement).complement

def difference (s t : CharSet) : CharSet := (s.complement.union t).complement

def symmetricDifference (s t : CharSet) : CharSet := (s.difference t).union (t.difference s)

def isEmpty (s : CharSet) : Bool := s.ranges.isEmpty

def isAscii (s : CharSet) : Bool := s.ranges.all fun (_, high) => high < 128

def codes (s : CharSet) : List Nat :=
  s.ranges.flatMap fun (low, high) => List.range' low (high + 1 - low)

end CharSet

end BytecodeMutation
