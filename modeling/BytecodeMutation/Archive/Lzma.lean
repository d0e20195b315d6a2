import BytecodeMutation.Archive.PrefixCode
import BytecodeMutation.Archive.Words
import Std.Data.HashMap

/-!
Decompressing data in which every bit takes a part of a range, as large as the bit is likely. How
likely a bit is depends on what it says, and is learned from the bits before it.
-/

namespace BytecodeMutation.Lzma

/-- What a bit says, as far as it decides how likely it is. A number is read bit by bit; `node` is
the number that the bits before make up. -/
inductive Context where
  | copies (state place : Nat)
  | repeats (state : Nat)
  | notLast (state : Nat)
  | notSecond (state : Nat)
  | notThird (state : Nat)
  | several (state place : Nat)
  | literal (table hint node : Nat)
  | slot (length node : Nat)
  | distance (slot node : Nat)
  | lowDistance (node : Nat)
  | notShort (repeated : Bool)
  | long (repeated : Bool)
  | short (repeated : Bool) (place node : Nat)
  | middle (repeated : Bool) (place node : Nat)
  | high (repeated : Bool) (node : Nat)
  deriving DecidableEq, Hashable, Repr

structure Decoder where
  range : UInt32
  code : UInt32
  chances : Std.HashMap Context UInt32
  rest : Bytes

abbrev Reading := StateT Decoder Option

def widen : Reading Unit := fun d =>
  if d.range < 0x1000000 then
    match d.rest with
    | [] => none
    | b :: rest =>
        some ((), { d with range := d.range <<< 8, code := (d.code <<< 8) ||| b.toUInt32, rest })
  else some ((), d)

def bit (c : Context) : Reading Bool := do
  widen
  let d ← get
  let chance := d.chances.getD c 1024
  let bound := (d.range >>> 11) * chance
  if d.code < bound then
    set { d with range := bound, chances := d.chances.insert c (chance + ((2048 - chance) >>> 5)) }
    return false
  else
    set { d with
      range := d.range - bound, code := d.code - bound
      chances := d.chances.insert c (chance - (chance >>> 5)) }
    return true

def evenBit : Reading Bool := do
  widen
  let d ← get
  let half := d.range >>> 1
  if d.code < half then
    set { d with range := half }
    return false
  else
    set { d with range := half, code := d.code - half }
    return true

def number (c : Nat → Context) (node : Nat) : Nat → Reading Nat
  | 0 => pure node
  | n + 1 => do
      let b ← bit (c node)
      number c (2 * node + b.toNat) n

def highFirst (c : Nat → Context) (n : Nat) : Reading Nat := do
  return (← number c 1 n) - 1 <<< n

def lowFirst (c : Nat → Context) (node : Nat) : Nat → Reading Nat
  | 0 => pure 0
  | n + 1 => do
      let b ← bit (c node)
      return b.toNat + 2 * (← lowFirst c (2 * node + b.toNat) n)

def evenNumber (v : Nat) : Nat → Reading Nat
  | 0 => pure v
  | n + 1 => do evenNumber (2 * v + (← evenBit).toNat) n

def literal (table : Nat) (node : Nat) : Nat → Bits → Reading UInt8
  | 0, _ => pure (.ofNat node)
  | n + 1, [] => do
      let b ← bit (.literal table 0 node)
      literal table (2 * node + b.toNat) n []
  | n + 1, hint :: hints => do
      let b ← bit (.literal table (1 + hint.toNat) node)
      literal table (2 * node + b.toNat) n (if b = hint then hints else [])

def length (repeated : Bool) (place : Nat) : Reading Nat := do
  if !(← bit (.notShort repeated)) then highFirst (.short repeated place) 3
  else if !(← bit (.long repeated)) then return 8 + (← highFirst (.middle repeated place) 3)
  else return 16 + (← highFirst (.high repeated) 8)

/-- How many bytes lie between the end and the byte to copy, for a copy of some length. A slot is a
small number or stands for the first two bits of a large one and for how many bits follow. -/
def distance (length : Nat) : Reading Nat := do
  let slot ← highFirst (.slot (min length 3)) 6
  if slot < 4 then return slot
  else
    let n := slot / 2 - 1
    let high := (2 + slot % 2) <<< n
    if slot < 14 then return high + (← lowFirst (.distance slot) 1 n)
    else
      let middle ← evenNumber 0 (n - 4)
      return high + 16 * middle + (← lowFirst .lowDistance 1 4)

structure Settings where
  literalContext : Nat
  literalPlace : Nat
  place : Nat
  window : Nat
  deriving DecidableEq, Repr

structure Progress where
  out : Array UInt8 := #[]
  distances : List Nat := [0, 0, 0, 0]
  state : Nat := 0
  deriving DecidableEq, Repr

namespace Progress

variable (p : Progress)

def back? (distance : Nat) : Option UInt8 :=
  if distance < p.out.size then p.out[p.out.size - 1 - distance]? else none

def afterCopy : Bool := 7 ≤ p.state

def add (b : UInt8) : Progress := { p with
  out := p.out.push b
  state := if p.state < 4 then 0 else if p.state < 10 then p.state - 3 else p.state - 6 }

def copy? (window distance : Nat) : Nat → Progress → Option Progress
  | 0, p => some p
  | n + 1, p => do
      guard (distance < window)
      copy? window distance n { p with out := p.out.push (← p.back? distance) }

end Progress

def readLiteral (settings : Settings) (p : Progress) : Reading Progress := do
  let last := ((p.back? 0).getD 0).toNat
  let table := (p.out.size % 1 <<< settings.literalPlace) <<< settings.literalContext
    + last >>> (8 - settings.literalContext)
  let hint := if p.afterCopy then (p.distances.head?.bind p.back?).map bitsOfByte else none
  return p.add (← literal table 1 8 (hint.getD []).reverse)

def useAgain (place : Nat) (distances : List Nat) : List Nat :=
  distances.getD place 0 :: distances.eraseIdx place

def readRecent (state place : Nat) : Reading (Option Nat) := do
  if !(← bit (.notLast state)) then return if ← bit (.several state place) then some 0 else none
  else if !(← bit (.notSecond state)) then return some 1
  else if !(← bit (.notThird state)) then return some 2
  else return some 3

def readCopy (p : Progress) (place : Nat) : Reading (Nat × Progress) := do
  if !(← bit (.repeats p.state)) then
    let n ← length false place
    let distances := (← distance n) :: p.distances.take 3
    return (n + 2, { p with distances, state := if p.afterCopy then 10 else 7 })
  else
    match ← readRecent p.state place with
    | none => return (1, { p with state := if p.afterCopy then 11 else 9 })
    | some recent =>
        let n ← length true place
        let state := if p.afterCopy then 11 else 8
        return (n + 2, { p with distances := useAgain recent p.distances, state })

def content (settings : Settings) (size : Nat) : Nat → Progress → Reading (Array UInt8)
  | 0, _ => failure
  | n + 1, p => do
      if size ≤ p.out.size then return p.out
      else
        let place := p.out.size % 1 <<< settings.place
        if !(← bit (.copies p.state place)) then content settings size n (← readLiteral settings p)
        else
          let (length, p) ← readCopy p place
          guard (length ≤ size - p.out.size)
          content settings size n
            (← Progress.copy? settings.window (p.distances.headD 0) length p)

def settings? (b : UInt8) (window : Nat) : Option Settings := do
  let v := b.toNat
  guard (v < 225)
  return ⟨v % 9, v / 9 % 5, v / 45, window⟩

def decompress? (size : Nat) : Bytes → Option Bytes
  | _ :: _ :: 5 :: 0 :: b :: w₀ :: w₁ :: w₂ :: w₃ :: 0 :: c₀ :: c₁ :: c₂ :: c₃ :: s => do
      let settings ← settings? b (max 4096 (Archive.littleEndian [w₀, w₁, w₂, w₃]))
      let code := Bytes.word32 c₀ c₁ c₂ c₃
      let (out, _) ← content settings size (size + 1) {} ⟨0xffffffff, code, ∅, s⟩
      return out.toList
  | _ => none

end BytecodeMutation.Lzma
