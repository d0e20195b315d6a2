import BytecodeMutation.Method

namespace BytecodeMutation

inductive Condition where
  | equality
  | ordering
  deriving DecidableEq, Repr

inductive Route where
  | fallThrough
  | jump
  deriving DecidableEq, Repr

def Condition.text : Condition → String
  | .equality => "equality"
  | .ordering => "comparison"

def Route.text : Route → String
  | .fallThrough => "true"
  | .jump => "false"

namespace Conditional

def negated? : UInt8 → Option UInt8
  | Opcode.ifeq => some Opcode.ifne
  | Opcode.ifne => some Opcode.ifeq
  | Opcode.iflt => some Opcode.ifge
  | Opcode.ifge => some Opcode.iflt
  | Opcode.ifgt => some Opcode.ifle
  | Opcode.ifle => some Opcode.ifgt
  | Opcode.ifIcmpeq => some Opcode.ifIcmpne
  | Opcode.ifIcmpne => some Opcode.ifIcmpeq
  | Opcode.ifIcmplt => some Opcode.ifIcmpge
  | Opcode.ifIcmpge => some Opcode.ifIcmplt
  | Opcode.ifIcmpgt => some Opcode.ifIcmple
  | Opcode.ifIcmple => some Opcode.ifIcmpgt
  | Opcode.ifAcmpeq => some Opcode.ifAcmpne
  | Opcode.ifAcmpne => some Opcode.ifAcmpeq
  | Opcode.ifnull => some Opcode.ifnonnull
  | Opcode.ifnonnull => some Opcode.ifnull
  | _ => none

def boundaryMoved? : UInt8 → Option UInt8
  | Opcode.iflt => some Opcode.ifle
  | Opcode.ifle => some Opcode.iflt
  | Opcode.ifgt => some Opcode.ifge
  | Opcode.ifge => some Opcode.ifgt
  | Opcode.ifIcmplt => some Opcode.ifIcmple
  | Opcode.ifIcmple => some Opcode.ifIcmplt
  | Opcode.ifIcmpgt => some Opcode.ifIcmpge
  | Opcode.ifIcmpge => some Opcode.ifIcmpgt
  | _ => none

def condition? : UInt8 → Option Condition
  | Opcode.ifeq | Opcode.ifne | Opcode.ifIcmpeq | Opcode.ifIcmpne | Opcode.ifAcmpeq
  | Opcode.ifAcmpne | Opcode.ifnull | Opcode.ifnonnull => some .equality
  | Opcode.iflt | Opcode.ifge | Opcode.ifgt | Opcode.ifle | Opcode.ifIcmplt | Opcode.ifIcmpge
  | Opcode.ifIcmpgt | Opcode.ifIcmple => some .ordering
  | _ => none

def comparesTwo (op : UInt8) : Bool := Opcode.ifIcmpeq ≤ op && op ≤ Opcode.ifAcmpne

def negate (i : Instruction) : Option Proposal :=
  (negated? i.opcode).map fun op => ⟨"negated conditional", [{ i with opcode := op }]⟩

def moveBoundary (i : Instruction) : Option Proposal :=
  (boundaryMoved? i.opcode).map fun op =>
    ⟨"changed conditional boundary", [{ i with opcode := op }]⟩

def removalText (condition : Condition) (route : Route) : String :=
  s!"removed conditional - replaced {condition.text} check with {route.text}"

/-- The compared values are dropped. A jump that is always taken stays a conditional one, so that
the code after it counts as reachable. -/
def remove (condition : Condition) (route : Route) (i : Instruction) :
    Except Fault (Option Proposal) :=
  if condition? i.opcode = some condition then
    match i.operand with
    | .branch target =>
        let drop := Instruction.plain (if comparesTwo i.opcode then Opcode.pop2 else Opcode.pop)
        let jump := match route with
          | .fallThrough => []
          | .jump => [.plain Opcode.iconst0, ⟨Opcode.ifeq, .branch target⟩]
        .ok (some ⟨removalText condition route, drop :: jump⟩)
    | _ => .error .conditionalWithoutTarget
  else .ok none

end Conditional

end BytecodeMutation
