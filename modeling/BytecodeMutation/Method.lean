import BytecodeMutation.Descriptor
import BytecodeMutation.Instruction.Basic
import BytecodeMutation.Mutation

namespace BytecodeMutation

inductive InvokeKind where
  | virtual
  | interface
  | special
  | static
  deriving DecidableEq, Repr

inductive Symbol where
  | other
  | call (kind : InvokeKind) (member : MemberRef)
  | field (member : MemberRef)
  deriving DecidableEq, Repr

def Symbol.call? : Symbol → Option (InvokeKind × MemberRef)
  | .call kind member => some (kind, member)
  | _ => none

def Symbol.field? : Symbol → Option MemberRef
  | .field member => some member
  | _ => none

structure Site where
  offset : Nat
  instruction : Instruction
  symbol : Symbol := .other
  deriving DecidableEq, Repr

def Site.opcode (s : Site) : UInt8 := s.instruction.opcode

structure Handler where
  start : Nat
  stop : Nat
  handler : Nat
  catchType : Option String
  deriving DecidableEq, Repr

structure LineEntry where
  start : Nat
  line : Nat
  deriving DecidableEq, Repr

structure Method where
  index : Nat
  name : String
  descriptor : String
  access : UInt16
  codeLength : Nat
  code : List Site
  handlers : List Handler
  lines : List LineEntry
  deriving DecidableEq, Repr

def Method.ordinalOf? (m : Method) (offset : Nat) : Option Nat :=
  m.code.findIdx? (·.offset == offset)

structure Class where
  name : String
  interfaces : List String
  access : UInt16
  sourceFile : Option String
  annotations : List String
  methods : List Method
  deriving DecidableEq, Repr

structure MethodHeader where
  owner : String
  ownerAccess : UInt16
  name : String
  descriptor : String
  access : UInt16
  deriving DecidableEq, Repr

namespace MethodHeader

def location (m : MethodHeader) : Location := ⟨m.owner, m.name, m.descriptor⟩

def isVoid (m : MethodHeader) : Bool := Descriptor.isVoid m.descriptor

def isStatic (m : MethodHeader) : Bool := m.access &&& 0x0008 != 0

def isBridge (m : MethodHeader) : Bool := m.access &&& 0x0040 != 0

def isSynthetic (m : MethodHeader) : Bool := m.access &&& 0x1000 != 0

def ownerIsEnum (m : MethodHeader) : Bool := m.ownerAccess &&& 0x4000 != 0

def isClassInitializer (m : MethodHeader) : Bool := m.isStatic && m.name == "<clinit>"

def isValues (m : MethodHeader) : Bool :=
  m.name == "values" && m.descriptor == s!"()[L{m.owner};"

def isValueOf (m : MethodHeader) : Bool :=
  m.name == "valueOf" && m.descriptor == s!"(Ljava/lang/String;)L{m.owner};"

def isImplicitInEnum (m : MethodHeader) : Bool :=
  m.ownerIsEnum && (m.isValues || m.isValueOf || m.isClassInitializer)

end MethodHeader

def Class.header (c : Class) (m : Method) : MethodHeader :=
  ⟨c.name, c.access, m.name, m.descriptor, m.access⟩

structure Proposal where
  description : String
  replacement : List Instruction
  deriving DecidableEq, Repr

def Proposal.plain (description : String) (opcodes : List UInt8) : Proposal :=
  ⟨description, opcodes.map .plain⟩

end BytecodeMutation
