import BytecodeMutation.Fault
import BytecodeMutation.Instruction.Basic

/-!
The binary form of an instruction at an offset. Its length depends on the offset only through the
padding of a switch, and never on where the targets go.
-/

namespace BytecodeMutation

def switchPadding (offset : Nat) : Nat := (4 - (offset + 1) % 4) % 4

def distance (source target : Nat) : Int32 := .ofInt ((target : Int) - source)

namespace Operand

def fitsByte (v : Int16) : Bool := -128 ≤ v && v ≤ 127

def fitsShort (v : Int32) : Bool := -32768 ≤ v && v ≤ 32767

end Operand

namespace Instruction

def isWide : Operand → Bool
  | .variable index => 255 < index
  | .increment index delta => 255 < index || !Operand.fitsByte delta
  | _ => false

def encodedLength (offset : Nat) (i : Instruction) : Nat :=
  match i.operand with
  | .absent => 1
  | .byte _ | .arrayType _ => 2
  | .short _ => 3
  | .variable index => if isWide (.variable index) then 4 else 2
  | .increment index delta => if isWide (.increment index delta) then 6 else 3
  | .constant index => if i.opcode == Opcode.ldc && index ≤ 255 then 2 else 3
  | .newConstant _ => 3
  | .branch _ => if Opcode.isFarJump i.opcode then 5 else 3
  | .tableSwitch _ _ targets => 1 + switchPadding offset + 12 + targets.length * 4
  | .lookupSwitch _ cases => 1 + switchPadding offset + 8 + cases.length * 8
  | .invokeInterface .. | .invokeDynamic _ => 5
  | .multiArray .. => 4

abbrev TargetMap := Nat → Except Fault Nat

def distanceTo (moved : TargetMap) (offset target : Nat) : Except Fault Int32 :=
  (moved target).map (distance offset)

def int32 (v : Int) : Except Fault Int32 :=
  if -2147483648 ≤ v ∧ v < 2147483648 then .ok (.ofInt v) else .error .overflow

/-- The highest of so many keys, by way of the key after it. -/
def highest (low : Int32) (count : Nat) : Except Fault Int32 := do
  let next ← int32 (low.toInt + (Int32.ofNat count).toInt)
  int32 (next.toInt - 1)

def encodeTable (moved : TargetMap) (offset : Nat) (low : Int32) (default : Nat)
    (targets : List Nat) : Except Fault Bytes := do
  let high ← highest low targets.length
  let default ← distanceTo moved offset default
  let distances ← targets.mapM (distanceTo moved offset)
  return List.replicate (switchPadding offset) 0 ++ Bytes.ofInt32 default ++ Bytes.ofInt32 low
    ++ Bytes.ofInt32 high ++ distances.flatMap Bytes.ofInt32

def encodeLookup (moved : TargetMap) (offset default : Nat) (cases : List (Int32 × Nat)) :
    Except Fault Bytes := do
  let default ← distanceTo moved offset default
  let distances ← cases.mapM fun (key, target) =>
    (distanceTo moved offset target).map (key, ·)
  return List.replicate (switchPadding offset) 0 ++ Bytes.ofInt32 default
    ++ Bytes.ofNat32 cases.length
    ++ distances.flatMap fun (key, d) => Bytes.ofInt32 key ++ Bytes.ofInt32 d

def encodeBranch (moved : TargetMap) (opcode : UInt8) (offset target : Nat) :
    Except Fault Bytes := do
  let d ← distanceTo moved offset target
  if Opcode.isFarJump opcode then return opcode :: Bytes.ofInt32 d
  else if Operand.fitsShort d then return opcode :: Bytes.ofInt16 d.toInt16
  else throw (.branchTooFar d offset)

def encode (moved : TargetMap) (offset : Nat) (i : Instruction) : Except Fault Bytes :=
  let op := i.opcode
  match i.operand with
  | .absent => .ok [op]
  | .byte value => .ok [op, value.toUInt8]
  | .arrayType type => .ok [op, type]
  | .short value => .ok (op :: Bytes.ofInt16 value)
  | .variable index =>
      .ok (if isWide (.variable index) then Opcode.wide :: op :: Bytes.ofUInt16 index
        else [op, index.toUInt8])
  | .increment index delta =>
      .ok (if isWide (.increment index delta) then
          Opcode.wide :: Opcode.iinc :: Bytes.ofUInt16 index ++ Bytes.ofInt16 delta
        else [Opcode.iinc, index.toUInt8, delta.toInt8.toUInt8])
  | .constant index =>
      .ok (if op == Opcode.ldc then
          if index ≤ 255 then [op, index.toUInt8] else Opcode.ldcW :: Bytes.ofUInt16 index
        else op :: Bytes.ofUInt16 index)
  | .newConstant _ => .error .unresolvedConstant
  | .branch target => encodeBranch moved op offset target
  | .tableSwitch default low targets =>
      (encodeTable moved offset low default targets).map (op :: ·)
  | .lookupSwitch default cases => (encodeLookup moved offset default cases).map (op :: ·)
  | .invokeInterface index count => .ok (op :: Bytes.ofUInt16 index ++ [count, 0])
  | .invokeDynamic index => .ok (op :: Bytes.ofUInt16 index ++ [0, 0])
  | .multiArray index dimensions => .ok (op :: Bytes.ofUInt16 index ++ [dimensions])

end Instruction

end BytecodeMutation
