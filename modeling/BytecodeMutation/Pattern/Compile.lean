import BytecodeMutation.Pattern.Match
import BytecodeMutation.Pattern.Parse

namespace BytecodeMutation

abbrev ByteRange := Nat × Nat

namespace CharSet

def byteLength (n : Nat) : Nat :=
  if n < 0x80 then 1 else if n < 0x800 then 2 else if n < 0x10000 then 3 else 4

def leadMark (length : Nat) : Nat :=
  match length with
  | 2 => 0xc0
  | 3 => 0xe0
  | 4 => 0xf0
  | _ => 0

def tailUnit : Nat → Nat
  | 0 => 1
  | n + 1 => 64 * tailUnit n

def byteRanges (length low high : Nat) : List ByteRange :=
  (List.range length).map fun i =>
    let unit := tailUnit (length - 1 - i)
    let part (n : Nat) : Nat :=
      if i = 0 then leadMark length + n / unit else 0x80 + n / unit % 64
    (part low, part high)

def splitRange (length low high : Nat) : Nat → List (List ByteRange)
  | 0 => [byteRanges length low high]
  | fuel + 1 =>
      let units := ((List.range (length - 1)).map fun i => tailUnit (i + 1)).filter fun u =>
        low / u ≠ high / u
      match units.find? fun u => low % u ≠ 0 ∨ high % u ≠ u - 1 with
      | none => [byteRanges length low high]
      | some u =>
          let cut := if low % u ≠ 0 then (low / u + 1) * u else high / u * u
          splitRange length low (cut - 1) fuel ++ splitRange length cut high fuel

def lengthRanges : List (Nat × Nat) :=
  [(0, 0x7f), (0x80, 0x7ff), (0x800, 0xd7ff), (0xe000, 0xffff), (0x10000, 0x10ffff)]

def sequences (s : CharSet) : List (List ByteRange) :=
  s.ranges.flatMap fun (low, high) => lengthRanges.flatMap fun (first, last) =>
    let low := max low first
    let high := min high last
    if low ≤ high then splitRange (byteLength low) low high 6 else []

def byHead : List (List ByteRange) → List (ByteRange × List (List ByteRange))
  | [] => []
  | [] :: r => byHead r
  | (b :: t) :: r => match byHead r with
      | (c, ts) :: groups => if b = c then (c, t :: ts) :: groups else (b, [t]) :: (c, ts) :: groups
      | [] => [(b, [t])]

def treeStates : Nat → List (List ByteRange) → List (List (List ByteRange))
  | 0, _ => []
  | fuel + 1, ss =>
      if ss.all List.isEmpty then []
      else ss :: (byHead ss).flatMap fun (_, ts) => treeStates fuel ts

def newPlaces : List ByteRange → List ByteRange → Nat
  | a :: s, b :: t => if a = b then newPlaces s t else t.length + 1
  | _, t => t.length

def startCount (previous : List ByteRange) : List (List ByteRange) → Nat
  | [] => 0
  | s :: ss => newPlaces previous s + startCount s ss

def forwardSize (s : CharSet) : Nat :=
  (treeStates 4 s.sequences).eraseDups.foldl (fun n ss => n + (32 + 8 * (byHead ss).length)) 32

def backwardSize (s : CharSet) : Nat :=
  let ss := s.sequences
  64 + 4 * ss.length + 32 * startCount [] ss

def size (backwards : Bool) (s : CharSet) : Nat :=
  match s.ranges with
  | [(low, high)] =>
      if low = high then 32 * byteLength low
      else if s.isAscii then 72
      else if backwards then s.backwardSize else s.forwardSize
  | ranges =>
      if s.isAscii then 64 + 8 * ranges.length
      else if backwards then s.backwardSize else s.forwardSize

end CharSet

namespace Pattern

def sizeInChoice (size : Nat) : Pattern → Nat
  | .alt .. => size - 64
  | _ => size + 4

def sizeOfTimes (size : Nat) (takesSome : Bool) (least : Nat) (most : Option Nat) : Nat :=
  match least, most with
  | 0, some 1 => 72 + size
  | 0, none => if takesSome then 40 + size else 112 + size
  | n, none => n * size + 40
  | n, some m =>
      if n = m then n * size else (if n = 0 then 32 else n * size) + 32 + (m - n) * (40 + size)

def size (backwards : Bool) : Pattern → Nat
  | .empty | .assertion _ => 32
  | .chars s => s.size backwards
  | .seq p q => p.size backwards + q.size backwards
  | .alt p q =>
      64 + sizeInChoice (p.size backwards) p + sizeInChoice (q.size backwards) q
  | .group p => (if backwards then 0 else 64) + p.size backwards
  | .repeated p least most => sizeOfTimes (p.size backwards) p.takesSome least most

def maxSize : Nat := 10485760

def isTooLarge (p : Pattern) : Bool :=
  maxSize < p.size false + 176 || maxSize < p.size true + 112

end Pattern

inductive PatternFault where
  | malformed
  | tooLarge
  deriving DecidableEq, Repr

def PatternFault.message : PatternFault → String
  | .malformed => "regex parse error:"
  | .tooLarge => s!"Compiled regex exceeds size limit of {Pattern.maxSize} bytes."

def Pattern.compile (s : String) : Except PatternFault Pattern :=
  match Pattern.parse? s with
  | none => .error .malformed
  | some p => if p.isTooLarge then .error .tooLarge else .ok p

end BytecodeMutation
