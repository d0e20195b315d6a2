import BytecodeMutation.Archive.Words
import BytecodeMutation.Archive.PrefixCode

namespace BytecodeMutation.Bzip2

def numberAfter? (v : Nat) : Nat → Bits → Option (Nat × Bits)
  | 0, s => some (v, s)
  | n + 1, b :: s => numberAfter? (2 * v + b.toNat) n s
  | _ + 1, [] => none

def number? (n : Nat) (s : Bits) : Option (Nat × Bits) := numberAfter? 0 n s

def moveToFront {α : Type} (place : Nat) (l : List α) : Option (List α) :=
  l[place]?.map fun a => a :: l.eraseIdx place

def unary? : Bits → Option (Nat × Bits)
  | true :: s => (unary? s).map fun (n, s) => (n + 1, s)
  | false :: s => some (0, s)
  | [] => none

def wordLength? (length : Nat) : Bits → Option (Nat × Bits)
  | [] => none
  | false :: s => if 1 ≤ length ∧ length ≤ 20 then some (length, s) else none
  | true :: down :: s =>
      if 1 ≤ length ∧ length ≤ 20 then wordLength? (if down then length - 1 else length + 1) s
      else none
  | [true] => none

def wordLengths? (length : Nat) : Nat → Bits → Option (List Nat × Bits)
  | 0, s => some ([], s)
  | n + 1, s => do
      let (length, s) ← wordLength? length s
      let (ls, s) ← wordLengths? length n s
      return (length :: ls, s)

def code? (symbols : Nat) (s : Bits) : Option (PrefixCode × Bits) := do
  let (length, s) ← number? 5 s
  let (lengths, s) ← wordLengths? length symbols s
  return (← PrefixCode.ofLengths? 20 lengths, s)

def several? {α : Type} (read : Bits → Option (α × Bits)) : Nat → Bits → Option (List α × Bits)
  | 0, s => some ([], s)
  | n + 1, s => do
      let (a, s) ← read s
      let (l, s) ← several? read n s
      return (a :: l, s)

def marked {α : Type} (bits : Bits) (l : List α) : List α :=
  (bits.zip l).filterMap fun (b, a) => if b then some a else none

def alphabet? (s : Bits) : Option (List UInt8 × Bits) := do
  guard (16 ≤ s.length)
  let ranges := marked (s.take 16) (List.range 16)
  let s := s.drop 16
  guard (16 * ranges.length ≤ s.length)
  let bytes := ranges.flatMap fun r => (List.range 16).map fun i => UInt8.ofNat (16 * r + i)
  return (marked (s.take (16 * ranges.length)) bytes, s.drop (16 * ranges.length))

def choices? (codes : List Nat) : List Nat → Option (List Nat)
  | [] => some []
  | place :: places => do
      let codes ← moveToFront place codes
      return ((← codes.head?) :: (← choices? codes places))

def symbols? (last : Nat) (codes : Array PrefixCode) (acc : List Nat) : List Nat → Bits →
    Option (List Nat × Bits)
  | [], _ => none
  | choice :: choices, s => do
      let (symbol, s) ← (← codes[choice]?).read? s
      if symbol = last then return (acc.reverse, s)
      else symbols? last codes (symbol :: acc) choices s

def column? (limit : Nat) (alphabet : List UInt8) (weight : Nat) (out : Array UInt8) :
    List Nat → Option (Array UInt8)
  | [] => some out
  | symbol :: symbols => do
      if symbol < 2 then
        let n := (symbol + 1) * weight
        guard (out.size + n ≤ limit)
        let b ← alphabet.head?
        column? limit alphabet (2 * weight) (out ++ Array.replicate n b) symbols
      else
        guard (out.size + 1 ≤ limit)
        let alphabet ← moveToFront (symbol - 1) alphabet
        column? limit alphabet 1 (out.push (← alphabet.head?)) symbols

/-- For each row, the row that its text goes on in: rows with the same last byte keep their order
when they are sorted by it. -/
def successors (column : Array UInt8) : Array Nat :=
  let counts := column.foldl (fun (a : Array Nat) b => a.modify b.toNat (· + 1)) (.replicate 256 0)
  let (starts, _) := counts.foldl (fun (a, n) count => (a.push n, n + count)) ((#[] : Array Nat), 0)
  let (rows, _, _) := column.foldl (fun (rows, starts, i) b =>
    (rows.set! (starts.getD b.toNat 0) i, starts.modify b.toNat (· + 1), i + 1))
    (Array.replicate column.size 0, starts, 0)
  rows

def followed (column : Array UInt8) (successors : Array Nat) : Nat → Nat → List UInt8
  | 0, _ => []
  | n + 1, row =>
      let next := successors.getD row 0
      column.getD next 0 :: followed column successors n next

def unsorted (column : Array UInt8) (row : Nat) : Bytes :=
  followed column (successors column) column.size row

/-- After four equal bytes, another byte says how often to repeat them. -/
def unpacked (run : Nat) (previous : Option UInt8) : Bytes → Bytes
  | [] => []
  | b :: s =>
      if run = 4 then List.replicate b.toNat (previous.getD 0) ++ unpacked 0 none s
      else if previous == some b then b :: unpacked (run + 1) previous s
      else b :: unpacked 1 (some b) s

def block? (limit : Nat) (s : Bits) : Option (Bytes × Nat × Bits) := do
  let (checksum, s) ← number? 32 s
  let (shuffled, s) ← number? 1 s
  guard (shuffled = 0)
  let (row, s) ← number? 24 s
  let (alphabet, s) ← alphabet? s
  let last := alphabet.length + 1
  let (count, s) ← number? 3 s
  let (length, s) ← number? 15 s
  guard (2 ≤ count ∧ count ≤ 6 ∧ 1 ≤ length ∧ alphabet ≠ [])
  let (places, s) ← several? unary? length s
  let choices ← choices? (List.range count) places
  let (codes, s) ← several? (code? (last + 1)) count s
  let (symbols, s) ← symbols? last codes.toArray [] (choices.flatMap (List.replicate 50)) s
  let column ← column? limit alphabet 1 #[] symbols
  guard (row < column.size)
  let content := unpacked 0 none (unsorted column row)
  guard ((Checksum.forward content).toNat = checksum)
  return (content, checksum, s)

def blockMark : Nat := 0x314159265359

def endMark : Nat := 0x177245385090

def blocks? (limit : Nat) : Nat → UInt32 → List Bytes → Bits → Option Bytes
  | 0, _, _, _ => none
  | n + 1, checksum, acc, s => do
      let (mark, s) ← number? 48 s
      if mark = endMark then
        let (total, _) ← number? 32 s
        guard (checksum.toNat = total)
        return acc.reverse.flatten
      else
        guard (mark = blockMark)
        let (content, own, s) ← block? limit s
        let rotated := (checksum <<< 1) ||| (checksum >>> 31)
        blocks? limit n (rotated ^^^ .ofNat own) (content :: acc) s

def decompress? : Bytes → Option Bytes
  | 0x42 :: 0x5a :: 0x68 :: level :: s =>
      if 0x31 ≤ level ∧ level ≤ 0x39 then
        let bits := s.flatMap fun b => (bitsOfByte b).reverse
        blocks? (100000 * (level.toNat - 0x30)) (bits.length + 1) 0 [] bits
      else none
  | _ => none

end BytecodeMutation.Bzip2
