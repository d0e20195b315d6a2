import Std.Data.TreeSet
import BytecodeMutation.ClassFile.Structure
import BytecodeMutation.Instruction.Decode

namespace BytecodeMutation

namespace Method

def symbolOf (p : Pool) (offset : Nat) (i : Instruction) : Except Fault Symbol :=
  let call (kind : InvokeKind) (index : UInt16) : Except Fault Symbol :=
    (attempt (.resolveMethodRef offset) (p.memberRef index)).map (.call kind)
  match i.operand with
  | .constant index =>
      if i.opcode == Opcode.invokevirtual then call .virtual index
      else if i.opcode == Opcode.invokespecial then call .special index
      else if i.opcode == Opcode.invokestatic then call .static index
      else if Opcode.getstatic ≤ i.opcode && i.opcode ≤ Opcode.putfield then
        (attempt (.resolveFieldRef offset) (p.memberRef index)).map .field
      else .ok .other
  | .invokeInterface index _ =>
      if i.opcode == Opcode.invokeinterface then call .interface index else .ok .other
  | _ => .ok .other

def sites (p : Pool) (code : Bytes) : Except Fault (List Site) := do
  (← Instruction.decode code).mapM fun (offset, i) => do
    return ⟨offset, i, ← symbolOf p offset i⟩

def handlerOf (p : Pool) (h : RawHandler) : Except Fault Handler := do
  let catchType ← if h.catchType == 0 then pure none
    else (attempt .resolveCatchType (p.className h.catchType)).map some
  return ⟨h.start.toNat, h.stop.toNat, h.handler.toNat, catchType⟩

/-- The entries of all line tables, by offset; those of one offset stay in order. -/
def linesOf (attributes : List Attribute) : List LineEntry :=
  (attributes.flatMap fun
    | .lineNumbers entries => entries
    | _ => []).mergeSort fun a b => a.start ≤ b.start

def starts (m : Method) : Std.TreeSet Nat := .ofList (m.code.map (·.offset))

def checkBranches (starts : Std.TreeSet Nat) (s : Site) : Except Fault Unit :=
  match s.instruction.targets.find? fun t => !starts.contains t with
  | some t => .error (.misalignedBranch s.offset t)
  | none => .ok ()

/-- A range may also end where the code does. -/
def checkHandler (starts : Std.TreeSet Nat) (codeLength : Nat) (h : Handler) : Except Fault Unit :=
  if starts.contains h.start && starts.contains h.handler
      && (h.stop == codeLength || starts.contains h.stop) then .ok ()
  else .error (.misalignedHandler h.start h.stop h.handler)

def validate (m : Method) : Except Fault Unit := do
  let starts := m.starts
  m.code.forM (checkBranches starts)
  m.handlers.forM (checkHandler starts m.codeLength)

def ofEntry (p : Pool) (index : Nat) (entry : MethodEntry) (access : UInt16) :
    Except Fault (Option Method) := do
  let name ← attempt .resolveMethodName (p.utf8 entry.name)
  let descriptor ← attempt .resolveMethodDescriptor (p.utf8 entry.descriptor)
  match entry.code? with
  | none => return none
  | some (code, handlers, attributes) =>
      let sites ← attempt (.parseCode name descriptor) (sites p code)
      let handlers ← attempt .parseHandlers (handlers.mapM (handlerOf p))
      let m : Method :=
        ⟨index, name, descriptor, access, code.length, sites, handlers, linesOf attributes⟩
      attempt (.validate name descriptor) m.validate
      return some m

end Method

namespace Class

def annotationName (descriptor : String) : String :=
  match descriptor.toList with
  | 'L' :: s => if s.getLast? == some ';' then .ofList s.dropLast else descriptor
  | _ => descriptor

def methodsOf (s : ClassStructure) (l : ClassFile) : Except Fault (List Method) := do
  let methods ← (s.methods.zip l.methods).zipIdx.mapM fun ((entry, raw), index) =>
    Method.ofEntry s.pool index entry raw.access
  return methods.filterMap id

def parse (data : Bytes) : Except Fault Class := do
  let s ← attempt .parseClassFile (ClassStructure.read data)
  let l ← attempt .divideClassFile (ClassFile.read data)
  let name ← attempt .resolveClassName (s.pool.className s.thisClass)
  let interfaces ← s.interfaces.mapM fun i => attempt .resolveInterfaceName (s.pool.className i)
  let sourceIndex ← attempt .readSourceFile l.sourceFileSlot
  let sourceFile ← attempt .resolveSourceFile (sourceIndex.mapM s.pool.utf8)
  let types ← attempt .readClassAnnotations l.annotationTypes
  let annotations ← types.mapM fun i =>
    (attempt .resolveAnnotationType (s.pool.utf8 i)).map annotationName
  if l.methods.length ≠ s.methods.length then throw .methodCountMismatch
  let methods ← attempt (.parseMethods name) (methodsOf s l)
  return ⟨name, interfaces, l.access, sourceFile, annotations, methods⟩

end Class

end BytecodeMutation
