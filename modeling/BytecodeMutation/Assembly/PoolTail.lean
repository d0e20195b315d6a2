import BytecodeMutation.ClassFile.Constant
import BytecodeMutation.Instruction.Basic
import BytecodeMutation.Text.ModifiedUtf8

namespace BytecodeMutation

structure PoolTail where
  next : UInt16
  constants : List (UInt16 × Constant) := []
  strings : List (String × UInt16) := []
  requests : List (NewConstant × UInt16) := []
  deriving DecidableEq, Repr

namespace PoolTail

def push (t : PoolTail) (c : Constant) : Except Fault (UInt16 × PoolTail) :=
  if t.next == 65535 then .error (.limit .poolFull)
  else .ok (t.next, { t with next := t.next + 1, constants := (t.next, c) :: t.constants })

def pushString (t : PoolTail) (s : String) : Except Fault (UInt16 × PoolTail) :=
  match t.strings.lookup s with
  | some index => .ok (index, t)
  | none =>
      let text := Text.modifiedUtf8 s
      if 65535 < text.length then .error (.limit .stringTooLong)
      else do
        let (index, t) ← t.push (.utf8 text)
        return (index, { t with strings := (s, index) :: t.strings })

def pushMethod (t : PoolTail) (m : MemberRef) : Except Fault (UInt16 × PoolTail) := do
  let (owner, t) ← t.pushString m.owner
  let (owner, t) ← t.push (.class owner)
  let (name, t) ← t.pushString m.name
  let (descriptor, t) ← t.pushString m.descriptor
  let (signature, t) ← t.push (.nameAndType name descriptor)
  t.push (.member 10 owner signature)

def request (t : PoolTail) (r : NewConstant) : Except Fault (UInt16 × PoolTail) :=
  match t.requests.lookup r with
  | some index => .ok (index, t)
  | none => do
      let (index, t) ← match r with
        | .integer value => t.push (.other 3 (Bytes.ofInt32 value))
        | .method m => t.pushMethod m
      return (index, { t with requests := (r, index) :: t.requests })

def resolve (t : PoolTail) (i : Instruction) : Except Fault (Instruction × PoolTail) :=
  match i.operand with
  | .newConstant r => do
      let (index, t) ← t.request r
      return (⟨i.opcode, .constant index⟩, t)
  | _ => .ok (i, t)

def extend (t : PoolTail) (table : ConstantTable) : ConstantTable :=
  ⟨t.next, table.constants ++ t.constants.reverse⟩

end PoolTail

end BytecodeMutation
