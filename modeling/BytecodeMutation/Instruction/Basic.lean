import BytecodeMutation.Opcode

/-!
Instructions with symbolic operands. Jump targets are absolute offsets in the code they were read
from, so a sequence of instructions can be placed anywhere once its targets are mapped.
-/

namespace BytecodeMutation

structure MemberRef where
  owner : String
  name : String
  descriptor : String
  deriving DecidableEq, Repr, Inhabited

inductive NewConstant where
  | integer (value : Int32)
  | method (member : MemberRef)
  deriving DecidableEq, Repr

inductive Operand where
  | absent
  | byte (value : Int8)
  | short (value : Int16)
  | arrayType (type : UInt8)
  | variable (index : UInt16)
  | increment (index : UInt16) (delta : Int16)
  | constant (index : UInt16)
  | newConstant (request : NewConstant)
  | branch (target : Nat)
  | tableSwitch (default : Nat) (low : Int32) (targets : List Nat)
  | lookupSwitch (default : Nat) (cases : List (Int32 × Nat))
  | invokeInterface (index : UInt16) (count : UInt8)
  | invokeDynamic (index : UInt16)
  | multiArray (index : UInt16) (dimensions : UInt8)
  deriving DecidableEq, Repr

structure Instruction where
  opcode : UInt8
  operand : Operand := .absent
  deriving DecidableEq, Repr

def Operand.targets : Operand → List Nat
  | .branch target => [target]
  | .tableSwitch default _ targets => default :: targets
  | .lookupSwitch default cases => default :: cases.map (·.2)
  | _ => []

namespace Instruction

def plain (opcode : UInt8) : Instruction := ⟨opcode, .absent⟩

def targets (i : Instruction) : List Nat := i.operand.targets

def loadInt (value : Int32) : Instruction :=
  let v := value.toInt
  if -1 ≤ v ∧ v ≤ 5 then plain (.ofNat (v + 3).toNat)
  else if -128 ≤ v ∧ v < 128 then ⟨Opcode.bipush, .byte value.toInt8⟩
  else if -32768 ≤ v ∧ v < 32768 then ⟨Opcode.sipush, .short value.toInt16⟩
  else ⟨Opcode.ldcW, .newConstant (.integer value)⟩

end Instruction

end BytecodeMutation
