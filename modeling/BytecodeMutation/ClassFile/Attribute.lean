import BytecodeMutation.ClassFile.Basic
import BytecodeMutation.ClassFile.Frame
import BytecodeMutation.ClassFile.Pool
import BytecodeMutation.Method

/-!
Attributes read by the structure that their names imply, whatever lengths they declare.
-/

namespace BytecodeMutation

inductive Attribute where
  | code (code : Bytes) (handlers : List RawHandler) (attributes : List Attribute)
  | lineNumbers (entries : List LineEntry)
  | other (name : String)

namespace Attribute

def words (n : Nat) : Reader Unit := Reader.skip (2 * n)

def rows (n : Nat) : Reader Unit := do
  let _ ← Reader.counted (words n)

def lineEntry : Reader LineEntry := do
  let start ← Reader.u2
  return ⟨start.toNat, (← Reader.u2).toNat⟩

def annotations : Reader Unit := do
  let _ ← Annotations.readTypes

def parameterAnnotations : Reader Unit := do
  let _ ← Reader.times (← Reader.u1).toNat annotations

def typeTarget (target : UInt8) : Reader Unit :=
  if target ≤ 0x01 then Reader.skip 1
  else if target == 0x10 then Reader.skip 2
  else if target == 0x11 || target == 0x12 then Reader.skip 2
  else if 0x13 ≤ target && target ≤ 0x15 then Reader.skip 0
  else if target == 0x16 then Reader.skip 1
  else if target == 0x17 then Reader.skip 2
  else if target == 0x40 || target == 0x41 then rows 3
  else if 0x42 ≤ target && target ≤ 0x46 then Reader.skip 2
  else if 0x47 ≤ target && target ≤ 0x4b then Reader.skip 3
  else throw (.typeTarget target)

def skipTypeUse (depth : Nat) : Reader Unit := do
  typeTarget (← Reader.u1)
  Reader.skip (2 * (← Reader.u1).toNat)
  let _ ← Annotations.readType depth

def skipTypeUses : Reader Unit := fun s => do
  let (_, r) ← Reader.counted (skipTypeUse s.length) s
  return ((), r)

def bootstrapMethods : Reader Unit := do
  let _ ← Reader.counted do
    Reader.skip 2
    rows 1

def methodParameters : Reader Unit := do
  let _ ← Reader.times (← Reader.u1).toNat (words 2)

def frames : Reader Unit := do
  let _ ← Reader.counted DeltaFrame.read

def present (n : Nat) : Reader Unit := fun s => (Reader.take n s).map fun _ => ((), s)

def skipBody (name : String) (length : Nat) : Reader Unit :=
  match name with
  | "ConstantValue" | "SourceFile" | "Signature" | "NestHost" => words 1
  | "EnclosingMethod" => words 2
  | "Synthetic" | "Deprecated" => words 0
  | "Exceptions" | "NestMembers" | "PermittedSubclasses" => rows 1
  | "LocalVariableTable" | "LocalVariableTypeTable" => rows 5
  | "InnerClasses" => rows 4
  | "RuntimeVisibleAnnotations" => do
      present length
      annotations
  | "RuntimeInvisibleAnnotations" => annotations
  | "RuntimeVisibleParameterAnnotations" => parameterAnnotations
  | "RuntimeVisibleTypeAnnotations" => skipTypeUses
  | "AnnotationDefault" => do
      present length
      fun s => Annotations.skipNested s.length s
  | "StackMapTable" => frames
  | "BootstrapMethods" => bootstrapMethods
  | "MethodParameters" => methodParameters
  | _ => throw (.unknownAttribute name)

def readBody (inner : Reader (List Attribute)) (name : String) (length : Nat) : Reader Attribute :=
  match name with
  | "Code" => do
      Reader.skip 4
      let code ← Reader.take (← Reader.u4).toNat
      let handlers ← Reader.counted RawHandler.read
      return .code code handlers (← inner)
  | "LineNumberTable" => do return .lineNumbers (← Reader.counted lineEntry)
  | "Record" => do
      let _ ← Reader.counted do
        words 2
        inner
      return .other name
  | name => do
      skipBody name length
      return .other name

def readList (p : Pool) : Nat → Reader (List Attribute)
  | 0 => throw .classTruncated
  | depth + 1 => Reader.counted do
      let name ← Reader.u2
      let length ← Reader.u4
      fun s => do
        let name ← p.utf8 name
        readBody (readList p depth) name length.toNat s

end Attribute

end BytecodeMutation
