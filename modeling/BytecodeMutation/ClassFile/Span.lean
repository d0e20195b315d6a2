import BytecodeMutation.ClassFile.Basic

namespace BytecodeMutation

structure Span where
  name : UInt16
  start : Nat
  bodyStart : Nat
  stop : Nat
  deriving DecidableEq, Repr

namespace Span

def ofAttributes (start : Nat) : List RawAttribute → List Span
  | [] => []
  | a :: as =>
      ⟨a.name, start, start + 6, start + 6 + a.body.length⟩
        :: ofAttributes (start + 6 + a.body.length) as

def sizeOfAttributes (as : List RawAttribute) : Nat :=
  as.foldl (fun n a => n + 6 + a.body.length) 2

def sizeOfMembers (ms : List RawMember) : Nat :=
  ms.foldl (fun n m => n + 6 + sizeOfAttributes m.attributes) 2

def ofMembers (start : Nat) : List RawMember → List (List Span)
  | [] => []
  | m :: ms =>
      ofAttributes (start + 8) m.attributes
        :: ofMembers (start + 6 + sizeOfAttributes m.attributes) ms

end Span

namespace ClassFile

def poolStart : Nat := 8

def poolEnd (l : ClassFile) : Nat := 10 + l.pool.body.length

def fieldsStart (l : ClassFile) : Nat := l.poolEnd + 8 + 2 * l.interfaces.length

def methodsStart (l : ClassFile) : Nat := l.fieldsStart + Span.sizeOfMembers l.fields

def attributesStart (l : ClassFile) : Nat := l.methodsStart + Span.sizeOfMembers l.methods

def methodSpans (l : ClassFile) : List (List Span) :=
  Span.ofMembers (l.methodsStart + 2) l.methods

def attributeSpans (l : ClassFile) : List Span :=
  Span.ofAttributes (l.attributesStart + 2) l.attributes

end ClassFile

namespace CodeBody

def codeStart : Nat := 8

def codeEnd (c : CodeBody) : Nat := 8 + c.code.length

def attributeSpans (c : CodeBody) : List Span :=
  Span.ofAttributes (c.codeEnd + 2 + 8 * c.handlers.length + 2) c.attributes

end CodeBody

end BytecodeMutation
