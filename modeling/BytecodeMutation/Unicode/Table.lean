import BytecodeMutation.CharSet

/-!
Tables of character properties, written as numbers in base 26. A set of characters is written as
gaps and extents by turns: how many code points come before its next range, and how many come in
that range after the first. A table that labels all code points is written as extents and labels.
-/

namespace BytecodeMutation.Unicode

def numbersAfter (n : Nat) : List Char → List Nat
  | [] => []
  | c :: s =>
      if c.isUpper then numbersAfter ((n + (c.toNat - 65)) * 26) s
      else (n + (c.toNat - 97)) :: numbersAfter 0 s

def numbers (text : String) : List Nat := numbersAfter 0 (text.toList.filter Char.isAlpha)

def rangesFrom (next : Nat) : List Nat → List (Nat × Nat)
  | gap :: extent :: ns =>
      let low := next + gap
      (low, low + extent) :: rangesFrom (low + extent + 1) ns
  | _ => []

def setOf (text : String) : CharSet := ⟨rangesFrom 0 (numbers text)⟩

structure Run where
  low : Nat
  high : Nat
  label : Nat
  deriving DecidableEq, Repr

def runsFrom (next : Nat) : List Nat → List Run
  | extent :: label :: ns => ⟨next, next + extent, label⟩ :: runsFrom (next + extent + 1) ns
  | _ => []

def runsOf (text : String) : List Run := runsFrom 0 (numbers text)

def labelled (runs : List Run) (chosen : Nat → Bool) : CharSet :=
  ⟨CharSet.joined ((runs.filter (chosen ·.label)).map fun r => (r.low, r.high))⟩

end BytecodeMutation.Unicode
