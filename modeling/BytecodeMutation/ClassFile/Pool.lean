import BytecodeMutation.ClassFile.Constant
import BytecodeMutation.Instruction.Basic
import BytecodeMutation.Text.ModifiedUtf8

namespace BytecodeMutation

inductive PoolItem where
  | empty
  | utf8 (text : String)
  | class (name : UInt16)
  | member (owner signature : UInt16)
  | nameAndType (name descriptor : UInt16)
  | other
  deriving DecidableEq, Repr

structure Pool where
  entries : Array PoolItem
  deriving DecidableEq, Repr

namespace Pool

def slotsOf : Constant → Except Fault (List PoolItem)
  | .utf8 text => match Text.constantString? text with
      | some t => .ok [.utf8 t]
      | none => .error .malformedText
  | .class name => .ok [.class name]
  | .member _ owner signature => .ok [.member owner signature]
  | .nameAndType name descriptor => .ok [.nameAndType name descriptor]
  | .double .. => .ok [.other, .empty]
  | .other .. => .ok [.other]

/-- There are exactly as many slots as the table says, so a number in the last one keeps only its
first slot. -/
def ofTable (t : ConstantTable) : Except Fault Pool := do
  let slots ← t.constants.mapM fun (_, c) => slotsOf c
  return ⟨((.empty :: slots.flatten).take t.count.toNat).toArray⟩

variable (p : Pool)

def get? (index : UInt16) : Option PoolItem := p.entries[index.toNat]?

def utf8 (index : UInt16) : Except Fault String :=
  match p.get? index with
  | some (.utf8 text) => .ok text
  | some _ => .error .unexpectedUtf8
  | none => .error .missingUtf8

def className (index : UInt16) : Except Fault String :=
  match p.get? index with
  | some (.class name) => p.utf8 name
  | some _ => .error .unexpectedClass
  | none => .error .missingClass

def nameAndType (index : UInt16) : Except Fault (UInt16 × UInt16) :=
  match p.get? index with
  | some (.nameAndType name descriptor) => .ok (name, descriptor)
  | some _ => .error .unexpectedNameAndType
  | none => .error .missingNameAndType

def memberRef (index : UInt16) : Except Fault MemberRef :=
  match p.get? index with
  | some (.member owner signature) => do
      let owner ← attempt .resolveOwner (p.className owner)
      let (name, descriptor) ← p.nameAndType signature
      let name ← attempt .resolveMemberName (p.utf8 name)
      let descriptor ← attempt .resolveMemberDescriptor (p.utf8 descriptor)
      return ⟨owner, name, descriptor⟩
  | some _ => .error .unexpectedMemberRef
  | none => .error .missingMemberRef

end Pool

end BytecodeMutation
