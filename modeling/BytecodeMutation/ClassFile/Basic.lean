import BytecodeMutation.ClassFile.Constant
import BytecodeMutation.Text.ModifiedUtf8

/-!
A class file as its declared lengths divide it. Attributes are kept as bytes, so that a class file
is written back as it was read, and one attribute can be replaced without touching the others.
-/

namespace BytecodeMutation

structure RawAttribute where
  name : UInt16
  body : Bytes
  deriving DecidableEq, Repr

namespace RawAttribute

def read : Reader RawAttribute := do
  let name ← Reader.u2
  return ⟨name, ← Reader.take (← Reader.u4).toNat⟩

def write (a : RawAttribute) : Bytes :=
  Bytes.ofUInt16 a.name ++ Bytes.ofNat32 a.body.length ++ a.body

def writeAll (as : List RawAttribute) : Bytes :=
  Bytes.ofNat16 as.length ++ as.flatMap write

end RawAttribute

structure RawMember where
  access : UInt16
  name : UInt16
  descriptor : UInt16
  attributes : List RawAttribute
  deriving DecidableEq, Repr

namespace RawMember

def read : Reader RawMember := do
  let access ← Reader.u2
  let name ← Reader.u2
  let descriptor ← Reader.u2
  return ⟨access, name, descriptor, ← Reader.counted RawAttribute.read⟩

def write (m : RawMember) : Bytes :=
  Bytes.ofUInt16 m.access ++ Bytes.ofUInt16 m.name ++ Bytes.ofUInt16 m.descriptor
    ++ RawAttribute.writeAll m.attributes

def writeAll (ms : List RawMember) : Bytes :=
  Bytes.ofNat16 ms.length ++ ms.flatMap write

end RawMember

namespace Annotations

def isIndexTag (tag : UInt8) : Bool :=
  "BCDFIJSZsc".toList.any fun c => c.toNat == tag.toNat

def skipPairs (value : Reader Unit) : Reader Unit := do
  let _ ← Reader.counted do
    Reader.skip 2
    value

def skipNested : Nat → Reader Unit
  | 0 => throw .classTruncated
  | depth + 1 => do
      let tag ← Reader.u1
      if isIndexTag tag then Reader.skip 2
      else if tag.toNat == 'e'.toNat then Reader.skip 4
      else if tag.toNat == '@'.toNat then
        Reader.skip 2
        skipPairs (skipNested depth)
      else if tag.toNat == '['.toNat then
        let _ ← Reader.counted (skipNested depth)
      else throw (.elementTag tag)

def readType (depth : Nat) : Reader UInt16 := do
  let type ← Reader.u2
  skipPairs (skipNested depth)
  return type

def readTypes : Reader (List UInt16) := fun s => Reader.counted (readType s.length) s

end Annotations

structure ClassFile where
  minor : UInt16
  major : UInt16
  pool : ConstantTable
  access : UInt16
  thisClass : UInt16
  superClass : UInt16
  interfaces : List UInt16
  fields : List RawMember
  methods : List RawMember
  attributes : List RawAttribute
  deriving DecidableEq, Repr

namespace ClassFile

def magic : UInt32 := 0xcafebabe

def reader : Reader ClassFile := do
  if (← Reader.u4) != magic then throw .badMagic
  let minor ← Reader.u2
  let major ← Reader.u2
  let pool ← ConstantTable.read
  let access ← Reader.u2
  let thisClass ← Reader.u2
  let superClass ← Reader.u2
  let interfaces ← Reader.counted Reader.u2
  let fields ← Reader.counted RawMember.read
  let methods ← Reader.counted RawMember.read
  let attributes ← Reader.counted RawAttribute.read
  return ⟨minor, major, pool, access, thisClass, superClass, interfaces, fields, methods,
    attributes⟩

def read (data : Bytes) : Except Fault ClassFile := reader.all .trailingBytes data

def write (l : ClassFile) : Bytes :=
  Bytes.ofUInt32 magic ++ Bytes.ofUInt16 l.minor ++ Bytes.ofUInt16 l.major ++ l.pool.write
    ++ Bytes.ofUInt16 l.access ++ Bytes.ofUInt16 l.thisClass ++ Bytes.ofUInt16 l.superClass
    ++ Bytes.ofNat16 l.interfaces.length ++ l.interfaces.flatMap Bytes.ofUInt16
    ++ RawMember.writeAll l.fields ++ RawMember.writeAll l.methods
    ++ RawAttribute.writeAll l.attributes

def utf8? (l : ClassFile) (index : UInt16) : Option String :=
  l.pool.constants.foldl (fun found (slot, c) =>
    match c with
    | .utf8 text => if slot == index then Text.utf8? text else found
    | _ => found) none

def named (l : ClassFile) (name : String) (a : RawAttribute) : Bool :=
  l.utf8? a.name == some name

def codeOf? (l : ClassFile) (method : Nat) : Option RawAttribute :=
  (l.methods[method]?).bind fun m => m.attributes.find? (l.named "Code")

def sourceFileSlot (l : ClassFile) : Except Fault (Option UInt16) :=
  match l.attributes.find? (l.named "SourceFile") with
  | some a => (Reader.u2 a.body).map fun (index, _) => some index
  | none => .ok none

def isAnnotations (l : ClassFile) (a : RawAttribute) : Bool :=
  l.named "RuntimeVisibleAnnotations" a || l.named "RuntimeInvisibleAnnotations" a

def annotationTypes (l : ClassFile) : Except Fault (List UInt16) :=
  (l.attributes.filter l.isAnnotations).foldlM (fun types a =>
    (Annotations.readTypes a.body).map fun (more, _) => types ++ more) []

end ClassFile

structure RawHandler where
  start : UInt16
  stop : UInt16
  handler : UInt16
  catchType : UInt16
  deriving DecidableEq, Repr

namespace RawHandler

def read : Reader RawHandler := do
  return ⟨← Reader.u2, ← Reader.u2, ← Reader.u2, ← Reader.u2⟩

def write (h : RawHandler) : Bytes :=
  Bytes.ofUInt16 h.start ++ Bytes.ofUInt16 h.stop ++ Bytes.ofUInt16 h.handler
    ++ Bytes.ofUInt16 h.catchType

end RawHandler

structure CodeBody where
  maxStack : UInt16
  maxLocals : UInt16
  code : Bytes
  handlers : List RawHandler
  attributes : List RawAttribute
  deriving DecidableEq, Repr

namespace CodeBody

def reader : Reader CodeBody := do
  let maxStack ← Reader.u2
  let maxLocals ← Reader.u2
  let code ← Reader.take (← Reader.u4).toNat
  let handlers ← Reader.counted RawHandler.read
  let attributes ← Reader.counted RawAttribute.read
  return ⟨maxStack, maxLocals, code, handlers, attributes⟩

def read (body : Bytes) : Except Fault CodeBody := reader.all (fun _ => .codeLengthMismatch) body

def write (c : CodeBody) : Bytes :=
  Bytes.ofUInt16 c.maxStack ++ Bytes.ofUInt16 c.maxLocals ++ Bytes.ofNat32 c.code.length ++ c.code
    ++ Bytes.ofNat16 c.handlers.length ++ c.handlers.flatMap RawHandler.write
    ++ RawAttribute.writeAll c.attributes

end CodeBody

end BytecodeMutation
