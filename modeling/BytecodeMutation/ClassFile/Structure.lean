import BytecodeMutation.ClassFile.Attribute

namespace BytecodeMutation

structure MethodEntry where
  name : UInt16
  descriptor : UInt16
  attributes : List Attribute

structure ClassStructure where
  pool : Pool
  thisClass : UInt16
  interfaces : List UInt16
  methods : List MethodEntry

namespace ClassStructure

def readMember (p : Pool) (depth : Nat) : Reader MethodEntry := do
  Reader.skip 2
  let name ← Reader.u2
  let descriptor ← Reader.u2
  return ⟨name, descriptor, ← Attribute.readList p depth⟩

def reader (depth : Nat) : Reader ClassStructure := do
  if (← Reader.u4) != ClassFile.magic then throw .badMagic
  Reader.skip 4
  let table ← ConstantTable.read
  fun s => do
    let pool ← Pool.ofTable table
    let body : Reader ClassStructure := do
      Reader.skip 2
      let thisClass ← Reader.u2
      Reader.skip 2
      let interfaces ← Reader.counted Reader.u2
      let _ ← Reader.counted (readMember pool depth)
      let methods ← Reader.counted (readMember pool depth)
      let _ ← Attribute.readList pool depth
      return ⟨pool, thisClass, interfaces, methods⟩
    body s

/-- An attribute takes six bytes, so the length of the data bounds how deep they nest. -/
def read (data : Bytes) : Except Fault ClassStructure :=
  (reader data.length).all .trailingBytes data

end ClassStructure

def MethodEntry.code? (m : MethodEntry) : Option (Bytes × List RawHandler × List Attribute) :=
  m.attributes.findSome? fun
    | .code code handlers attributes => some (code, handlers, attributes)
    | _ => none

end BytecodeMutation
