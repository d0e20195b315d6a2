import BytecodeMutation.ClassFile.Parse
import BytecodeMutation.Text
import BytecodeMutation.Config
import BytecodeMutation.Assembly

namespace BytecodeMutation

abbrev ClassSource := String → Except SourceError (Option Bytes)

structure Mutant where
  details : Details
  bytes : Bytes
  deriving DecidableEq, Repr

namespace Engine

def read (source : ClassSource) (name : String) : Except EngineError (Option Bytes) :=
  (source name).mapError (.unreadable name)

def parse (name : String) (data : Bytes) : Except EngineError Class :=
  (Class.parse data).mapError (.ofFault name)

def scan (os : List Operator) (c : Class) (m : Method) : Except EngineError (List Details) :=
  (Scan.visit c m (.ofMethod m) os none).map fun (state, _) => state.mutations.toList

def findInMethod (s : Settings) (c : Class) (m : Method) :
    Except EngineError (List Details) :=
  if s.skipsMethod m.name then .ok []
  else (scan s.operators c m).map (Filter.applyAll s.filterRules c m (.ofMethod m) s.filters)

def findInClass (s : Settings) (c : Class) : Except EngineError (List Details) :=
  if s.skipsAnnotated c.annotations then .ok []
  else (c.methods.mapM (findInMethod s c)).map List.flatten

def find (source : ClassSource) (s : Settings) (className : String) :
    Except EngineError (List Details) := do
  let name := ClassName.internal className
  match ← read source name with
  | none => return []
  | some data => findInClass s (← parse name data)

def isAt (l : Location) (m : Method) : Bool :=
  m.name == l.methodName && m.descriptor == l.methodDescriptor

def appliedDetails? (id : Identifier) (mutations : List Details) : Option Details :=
  (mutations.find? fun d => d.firstOrdinal == id.firstOrdinal).map fun d =>
    { d with id, inFinallyBlock := 1 < id.indexes.length }

structure Application where
  method : Method
  details : Details
  stream : List StreamItem
  deriving DecidableEq, Repr

def applyTo (name : String) (c : Class) (id : Identifier) : Except EngineError Application :=
  match c.methods.find? (isAt id.location) with
  | none => .error (.notApplicable name (.noMethod id.location))
  | some m =>
      match Operator.ofId? id.operator with
      | none => .error (.notApplicable name (.unknownOperator id.operator))
      | some o =>
          match Scan.visit c m (.ofMethod m) [o] (some id) with
          | .error e => .error e
          | .ok (state, stream) =>
              if !state.isApplied then .error (.notApplicable name (.unmatched id))
              else match appliedDetails? id state.mutations.toList with
                | some details => .ok ⟨m, details, stream⟩
                | none => .error (.notApplicable name (.unregistered id))

def mutant (source : ClassSource) (id : Identifier) : Except EngineError Mutant := do
  let name := ClassName.internal id.location.className
  match ← read source name with
  | none => throw (.classNotFound name)
  | some data =>
      let c ← parse name data
      let a ← applyTo name c id
      return ⟨a.details, ← Assembly.replaceCode c.name data a.method a.stream⟩

end Engine

/-- Classes held under their internal names; the first under a name is the one that is read. -/
structure ClassTable where
  classes : List (String × Bytes) := []
  deriving DecidableEq, Repr

namespace ClassTable

def insert (t : ClassTable) (name : String) (data : Bytes) : ClassTable :=
  ⟨(ClassName.internal name, data) :: t.classes⟩

def get? (t : ClassTable) (name : String) : Option Bytes :=
  t.classes.lookup (ClassName.internal name)

def source (t : ClassTable) : ClassSource := fun name => .ok (t.get? name)

end ClassTable

end BytecodeMutation
