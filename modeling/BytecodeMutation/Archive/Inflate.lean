import BytecodeMutation.Archive.PrefixCode

namespace BytecodeMutation.Inflate

def number? : Nat → Bits → Option (Nat × Bits)
  | 0, s => some (0, s)
  | n + 1, b :: s => (number? n s).map fun (v, r) => (b.toNat + 2 * v, r)
  | _ + 1, [] => none

structure Scheme where
  lengths : Array (Nat × Nat)
  distances : Array (Nat × Nat)
  strict : Bool
  deriving DecidableEq, Repr

def commonLengths : Array (Nat × Nat) :=
  #[(3, 0), (4, 0), (5, 0), (6, 0), (7, 0), (8, 0), (9, 0), (10, 0), (11, 1), (13, 1), (15, 1),
    (17, 1), (19, 2), (23, 2), (27, 2), (31, 2), (35, 3), (43, 3), (51, 3), (59, 3), (67, 4),
    (83, 4), (99, 4), (115, 4), (131, 5), (163, 5), (195, 5), (227, 5)]

def commonDistances : Array (Nat × Nat) :=
  #[(1, 0), (2, 0), (3, 0), (4, 0), (5, 1), (7, 1), (9, 2), (13, 2), (17, 3), (25, 3), (33, 4),
    (49, 4), (65, 5), (97, 5), (129, 6), (193, 6), (257, 7), (385, 7), (513, 8), (769, 8),
    (1025, 9), (1537, 9), (2049, 10), (3073, 10), (4097, 11), (6145, 11), (8193, 12), (12289, 12),
    (16385, 13), (24577, 13)]

def standard : Scheme := ⟨commonLengths.push (258, 0), commonDistances, true⟩

def wide : Scheme :=
  ⟨commonLengths.push (3, 16), (commonDistances.push (49153, 14)).push (65537, 14), false⟩

def extended? (table : Array (Nat × Nat)) (symbol : Nat) (s : Bits) : Option (Nat × Bits) := do
  let (base, extra) ← table[symbol]?
  let (v, s) ← number? extra s
  return (base + v, s)

def copy? (distance : Nat) : Nat → Array UInt8 → Option (Array UInt8)
  | 0, out => some out
  | n + 1, out =>
      if distance = 0 ∨ out.size < distance then none
      else match out[out.size - distance]? with
        | some b => copy? distance n (out.push b)
        | none => none

def blockEnd : Nat := 256

def symbols? (scheme : Scheme) (literals distances : PrefixCode) : Nat → Array UInt8 → Bits →
    Option (Array UInt8 × Bits)
  | 0, _, _ => none
  | n + 1, out, s => do
      let (symbol, s) ← literals.read? s
      if symbol < blockEnd then symbols? scheme literals distances n (out.push (.ofNat symbol)) s
      else if symbol = blockEnd then return (out, s)
      else
        let (length, s) ← extended? scheme.lengths (symbol - blockEnd - 1) s
        let (symbol, s) ← distances.read? s
        let (distance, s) ← extended? scheme.distances symbol s
        symbols? scheme literals distances n (← copy? distance length out) s

def fixedLiterals : List Nat :=
  List.replicate 144 8 ++ List.replicate 112 9 ++ List.replicate 24 7 ++ List.replicate 8 8

def fixedDistances : List Nat := List.replicate 32 5

def longestWord : Nat := 15

def code? (lengths : List Nat) : Option PrefixCode := PrefixCode.ofLengths? longestWord lengths

def lengthOrder : List Nat := [16, 17, 18, 0, 8, 7, 9, 6, 10, 5, 11, 4, 12, 3, 13, 2, 14, 1, 15]

def numbers? (bits : Nat) : Nat → List Nat → Bits → Option (List Nat × Bits)
  | 0, acc, s => some (acc.reverse, s)
  | n + 1, acc, s => do
      let (v, s) ← number? bits s
      numbers? bits n (v :: acc) s

def lengths? (code : PrefixCode) (total : Nat) : Nat → List Nat → Bits → Option (List Nat × Bits)
  | 0, _, _ => none
  | n + 1, acc, s =>
      if total < acc.length then none
      else if acc.length = total then some (acc.reverse, s)
      else do
        let (symbol, s) ← code.read? s
        if symbol < 16 then lengths? code total n (symbol :: acc) s
        else if symbol = 16 then
          let (v, s) ← number? 2 s
          lengths? code total n (List.replicate (v + 3) (← acc.head?) ++ acc) s
        else if symbol = 17 then
          let (v, s) ← number? 3 s
          lengths? code total n (List.replicate (v + 3) 0 ++ acc) s
        else
          let (v, s) ← number? 7 s
          lengths? code total n (List.replicate (v + 11) 0 ++ acc) s

def areSound (lengths : List Nat) (literals distances : PrefixCode) : Bool :=
  lengths[blockEnd]? != some 0 && (literals.isComplete || literals.isShort)
    && (distances.isComplete || distances.isShort)

def codes? (scheme : Scheme) (s : Bits) : Option (PrefixCode × PrefixCode × Bits) := do
  let (literals, s) ← number? 5 s
  let (distances, s) ← number? 5 s
  let (given, s) ← number? 4 s
  guard (!scheme.strict || (literals < 30 && distances < 30))
  let (values, s) ← numbers? 3 (given + 4) [] s
  let code ← code? ((List.range 19).map fun i => ((lengthOrder.zip values).lookup i).getD 0)
  guard (!scheme.strict || code.isComplete)
  let total := literals + 257 + (distances + 1)
  let (lengths, s) ← lengths? code total (total + 1) [] s
  let literalCode ← code? (lengths.take (literals + 257))
  let distanceCode ← code? (lengths.drop (literals + 257))
  guard (!scheme.strict || areSound lengths literalCode distanceCode)
  return (literalCode, distanceCode, s)

def stored? (out : Array UInt8) (s : Bits) : Option (Array UInt8 × Bits) := do
  let (length, s) ← number? 16 (s.drop (s.length % 8))
  let (complement, s) ← number? 16 s
  guard (length + complement = 65535)
  let (bytes, s) ← numbers? 8 length [] s
  return (out ++ (bytes.map UInt8.ofNat).toArray, s)

def block? (scheme : Scheme) (kind : Nat) (out : Array UInt8) (s : Bits) :
    Option (Array UInt8 × Bits) :=
  match kind with
  | 0 => stored? out s
  | 1 => do symbols? scheme (← code? fixedLiterals) (← code? fixedDistances) (s.length + 1) out s
  | 2 => do
      let (literals, distances, s) ← codes? scheme s
      symbols? scheme literals distances (s.length + 1) out s
  | _ => none

def blocks? (scheme : Scheme) : Nat → Array UInt8 → Bits → Option (Array UInt8)
  | 0, _, _ => none
  | n + 1, out, s => do
      let (last, s) ← number? 1 s
      let (kind, s) ← number? 2 s
      let (out, s) ← block? scheme kind out s
      if last = 1 then return out else blocks? scheme n out s

def inflate? (scheme : Scheme) (data : Bytes) : Option Bytes :=
  let s := data.flatMap bitsOfByte
  (blocks? scheme (s.length + 1) #[] s).map Array.toList

end BytecodeMutation.Inflate
