import BytecodeMutation.Method

namespace BytecodeMutation

namespace Call

def pop (size : Nat) : Instruction := .plain (if size = 2 then Opcode.pop2 else Opcode.pop)

def zero? : ValueType → Option UInt8
  | .void => none
  | .long => some Opcode.lconst0
  | .float => some Opcode.fconst0
  | .double => some Opcode.dconst0
  | .reference => some Opcode.aconstNull
  | _ => some Opcode.iconst0

def replacement (kind : InvokeKind) (type : MethodType) : List Instruction :=
  type.parameters.reverse.map (fun t => pop t.size)
    ++ (if kind = .static then [] else [pop 1])
    ++ (zero? type.result).toList.map .plain

def remove (void : Bool) (symbol : Symbol) : Except Fault (Option Proposal) :=
  match symbol with
  | .call kind m =>
      if m.name == "<init>" || Descriptor.isVoid m.descriptor != void then .ok none
      else do
        let type ← attempt (.removeCall m.owner m.name) (Descriptor.methodType m.descriptor)
        return some ⟨s!"removed call to {m.owner}::{m.name}", replacement kind type⟩
  | _ => .ok none

end Call

namespace Return

/-- One for zero and zero for all else: the sign bit of `x | -x` is set unless `x` is zero. -/
def isZero : List Instruction :=
  [.plain Opcode.dup, .plain Opcode.ineg, .plain Opcode.ior, .loadInt 31, .plain Opcode.iushr,
    .plain Opcode.iconst1, .plain Opcode.ixor, .plain Opcode.ireturn]

def requireNonNull : MemberRef :=
  ⟨"java/util/Objects", "requireNonNull", "(Ljava/lang/Object;)Ljava/lang/Object;"⟩

def change : UInt8 → Option Proposal
  | Opcode.ireturn =>
      some ⟨"replaced return of integer sized value with (x == 0 ? 1 : 0)", isZero⟩
  | Opcode.lreturn =>
      some (.plain "replaced return of long value with value + 1"
        [Opcode.lconst1, Opcode.ladd, Opcode.lreturn])
  | Opcode.freturn =>
      some (.plain "replaced return of float value with -(x + 1)"
        [Opcode.fconst1, Opcode.fadd, Opcode.fneg, Opcode.freturn])
  | Opcode.dreturn =>
      some (.plain "replaced return of double value with -(x + 1)"
        [Opcode.dconst1, Opcode.dadd, Opcode.dneg, Opcode.dreturn])
  | Opcode.areturn =>
      some ⟨"mutated return of Object value to ( if (x != null) null else throw new RuntimeException )",
        [⟨Opcode.invokestatic, .newConstant (.method requireNonNull)⟩, .plain Opcode.pop,
          .plain Opcode.aconstNull, .plain Opcode.areturn]⟩
  | _ => none

end Return

end BytecodeMutation
