import BytecodeMutation.Assembly
import BytecodeMutation.Proofs.Descriptors
import BytecodeMutation.Proofs.Parsing

namespace BytecodeMutation

inductive Kind where
  | int
  | float
  | long
  | double
  | reference
  | returnAddress
  deriving DecidableEq, Repr

def Kind.slots : Kind → Nat
  | long | double => 2
  | _ => 1

abbrev Stack := List Kind

def Stack.slots : Stack → Nat
  | [] => 0
  | k :: st => k.slots + slots st

def FieldType.kind : FieldType → Kind
  | primitive .long => .long
  | primitive .float => .float
  | primitive .double => .double
  | primitive _ => .int
  | object _ => .reference
  | array _ => .reference

def ValueType.kind? : ValueType → Option Kind
  | void => none
  | long => some .long
  | float => some .float
  | double => some .double
  | reference => some .reference
  | _ => some .int

theorem FieldType.kind?_value (t : FieldType) : t.value.kind? = some t.kind := by
  cases t with
  | primitive type => cases type <;> rfl
  | object name => rfl
  | array element => rfl

namespace Signature

def takes (s : Signature) (kind : InvokeKind) : Stack :=
  (s.parameters.map FieldType.kind).reverse ++ if kind = .static then [] else [.reference]

def leaves (s : Signature) : Stack := (s.result.map FieldType.kind).toList

theorem takes_eq (s : Signature) (kind : InvokeKind) : s.takes kind
    = (s.methodType.parameters.filterMap ValueType.kind?).reverse
      ++ if kind = .static then [] else [.reference] := by
  have hkinds : s.methodType.parameters.filterMap ValueType.kind?
      = s.parameters.map FieldType.kind := by
    rw [methodType, List.filterMap_map, ← List.filterMap_eq_map]
    exact List.filterMap_congr fun t _ => t.kind?_value
  rw [takes, hkinds]

theorem leaves_eq (s : Signature) : s.leaves = s.methodType.result.kind?.toList := by
  rw [leaves, methodType]
  cases s.result with
  | none => rfl
  | some t => exact congrArg Option.toList t.kind?_value.symm

end Signature

inductive Typing where
  | fixed (takes leaves : Stack)
  | byte
  | short
  | constant
  | increment
  | pop
  | pop2
  | dup
  | test (takes : Stack)
  | exit (kind : Kind)
  | call (kind : InvokeKind)
  deriving DecidableEq, Repr

open Opcode in
def Opcode.typing? : UInt8 → Option Typing
  | nop => some (.fixed [] [])
  | aconstNull => some (.fixed [] [.reference])
  | lconst0 | lconst1 => some (.fixed [] [.long])
  | fconst0 | fconst1 | fconst2 => some (.fixed [] [.float])
  | dconst0 | dconst1 => some (.fixed [] [.double])
  | bipush => some .byte
  | sipush => some .short
  | ldcW => some .constant
  | Opcode.pop => some .pop
  | pop2 => some .pop2
  | dup => some .dup
  | iadd | isub | imul | idiv | irem | ishl | ishr | iushr | iand | ior | ixor =>
      some (.fixed [.int, .int] [.int])
  | ladd | lsub | lmul | ldiv | lrem | Opcode.land | Opcode.lor | lxor =>
      some (.fixed [.long, .long] [.long])
  | lshl | lshr | lushr => some (.fixed [.int, .long] [.long])
  | fadd | fsub | fmul | fdiv | frem => some (.fixed [.float, .float] [.float])
  | dadd | dsub | dmul | ddiv | drem => some (.fixed [.double, .double] [.double])
  | ineg => some (.fixed [.int] [.int])
  | lneg => some (.fixed [.long] [.long])
  | fneg => some (.fixed [.float] [.float])
  | dneg => some (.fixed [.double] [.double])
  | iinc => some .increment
  | ifeq | ifne | iflt | ifge | ifgt | ifle => some (.test [.int])
  | ifIcmpeq | ifIcmpne | ifIcmplt | ifIcmpge | ifIcmpgt | ifIcmple => some (.test [.int, .int])
  | ifAcmpeq | ifAcmpne => some (.test [.reference, .reference])
  | ifnull | ifnonnull => some (.test [.reference])
  | ireturn => some (.exit .int)
  | lreturn => some (.exit .long)
  | freturn => some (.exit .float)
  | dreturn => some (.exit .double)
  | areturn => some (.exit .reference)
  | invokevirtual => some (.call .virtual)
  | invokespecial => some (.call .special)
  | invokestatic => some (.call .static)
  | invokeinterface => some (.call .interface)
  | op => if iconstM1 ≤ op && op ≤ iconst5 then some (.fixed [] [.int]) else none

structure Context where
  locals : UInt16 → Option Kind
  result : Option Kind

inductive Outcome where
  | next (st : Stack)
  | branch (target : Nat) (st : Stack)
  | exit (kind : Kind)

variable (g : Context)

inductive Does (i : Instruction) (named : Symbol) : Typing → Stack → Outcome → Prop where
  | fixed (takes leaves rest : Stack) : i.operand = .absent →
      Does i named (.fixed takes leaves) (takes ++ rest) (.next (leaves ++ rest))
  | byte {value : Int8} {st : Stack} : i.operand = .byte value →
      Does i named .byte st (.next (.int :: st))
  | short {value : Int16} {st : Stack} : i.operand = .short value →
      Does i named .short st (.next (.int :: st))
  | constant {value : Int32} {st : Stack} : i.operand = .newConstant (.integer value) →
      Does i named .constant st (.next (.int :: st))
  | increment {index : UInt16} {delta : Int16} {st : Stack} :
      i.operand = .increment index delta → g.locals index = some .int →
      Does i named .increment st (.next st)
  | pop {k : Kind} {rest : Stack} : i.operand = .absent → k.slots = 1 →
      Does i named .pop (k :: rest) (.next rest)
  | popTwo {j k : Kind} {rest : Stack} : i.operand = .absent → j.slots = 1 → k.slots = 1 →
      Does i named .pop2 (j :: k :: rest) (.next rest)
  | popWide {k : Kind} {rest : Stack} : i.operand = .absent → k.slots = 2 →
      Does i named .pop2 (k :: rest) (.next rest)
  | dup {k : Kind} {rest : Stack} : i.operand = .absent → k.slots = 1 →
      Does i named .dup (k :: rest) (.next (k :: k :: rest))
  | test (takes rest : Stack) {target : Nat} : i.operand = .branch target →
      Does i named (.test takes) (takes ++ rest) (.branch target rest)
  | exit {k : Kind} {rest : Stack} : i.operand = .absent → g.result = some k →
      Does i named (.exit k) (k :: rest) (.exit k)
  | call {kind : InvokeKind} {member : MemberRef} {s : Signature} {rest : Stack} :
      named = .call kind member → member.descriptor = s.text →
      Does i named (.call kind) (s.takes kind ++ rest) (.next (s.leaves ++ rest))

def Step (i : Instruction) (named : Symbol) (st : Stack) (out : Outcome) : Prop :=
  ∃ t, Opcode.typing? i.opcode = some t ∧ Does g i named t st out

variable {g} {i : Instruction} {named : Symbol} {st rest : Stack} {out : Outcome} {t : Typing}

theorem Step.does (h : Step g i named st out) (ht : Opcode.typing? i.opcode = some t) :
    Does g i named t st out := by
  obtain ⟨t', ht', h⟩ := h
  obtain rfl := Option.some.inj (ht.symm.trans ht')
  exact h

theorem Does.unique {out' : Outcome} (h : Does g i named t st out)
    (h' : Does g i named t st out') : out = out' := by
  generalize hst : st = st' at h'
  cases h with
  | fixed takes leaves rest =>
      cases h' with
      | fixed _ _ rest' => rw [List.append_cancel_left hst]
  | byte => cases h' with | byte => rw [hst]
  | short => cases h' with | short => rw [hst]
  | constant => cases h' with | constant => rw [hst]
  | increment => cases h' with | increment => rw [hst]
  | pop => cases h' with | pop => rw [(List.cons.inj hst).2]
  -- one value of two slots is not two of one slot
  | popTwo hi hj hk =>
      cases h' with
      | popTwo => rw [(List.cons.inj (List.cons.inj hst).2).2]
      | popWide hi' hk' =>
          rw [(List.cons.inj hst).1, hk'] at hj
          cases hj
  | popWide hi hk =>
      cases h' with
      | popTwo hi' hj' hk' =>
          rw [(List.cons.inj hst).1, hj'] at hk
          cases hk
      | popWide => rw [(List.cons.inj hst).2]
  | dup =>
      cases h' with
      | dup =>
          obtain ⟨rfl, rfl⟩ := List.cons.inj hst
          rfl
  | test takes rest hi =>
      cases h' with
      | test _ rest' hi' =>
          cases hi.symm.trans hi'
          rw [List.append_cancel_left hst]
  | exit => cases h' with | exit => rfl
  | @call kind member s rest hname htext =>
      cases h' with
      | @call _ member' s' rest' hname' htext' =>
          cases hname.symm.trans hname'
          have htype := Descriptor.methodType_of_text (htext.symm.trans htext')
          rw [s.takes_eq, s'.takes_eq, htype] at hst
          rw [s.leaves_eq, s'.leaves_eq, htype, List.append_cancel_left hst]

theorem Step.unique {out' : Outcome} (h : Step g i named st out) (h' : Step g i named st out') :
    out = out' := by
  obtain ⟨t, ht, hdoes⟩ := h
  exact hdoes.unique (h'.does ht)

def Instruction.requested (i : Instruction) : Symbol :=
  match i.operand with
  | .newConstant (.method member) => .call .static member
  | _ => .other

inductive End where
  | falls (st : Stack)
  | returns (kind : Kind)

/-- Instructions that are well typed one after another, with no more than some slots and no jumps
but some. Nothing stands after a return. -/
inductive Runs (g : Context) (limit : Nat) (jumps : List (Nat × Stack)) :
    List Instruction → Stack → End → Prop where
  | done {st : Stack} : st.slots ≤ limit → Runs g limit jumps [] st (.falls st)
  | next {i : Instruction} {is : List Instruction} {st st' : Stack} {e : End} :
      st.slots ≤ limit → Step g i i.requested st (.next st') → Runs g limit jumps is st' e →
      Runs g limit jumps (i :: is) st e
  | branch {i : Instruction} {is : List Instruction} {st st' : Stack} {target : Nat} {e : End} :
      st.slots ≤ limit → Step g i i.requested st (.branch target st') → (target, st') ∈ jumps →
      Runs g limit jumps is st' e → Runs g limit jumps (i :: is) st e
  | exit {i : Instruction} {st : Stack} {kind : Kind} :
      st.slots ≤ limit → Step g i i.requested st (.exit kind) →
      Runs g limit jumps [i] st (.returns kind)

namespace Outcome

def slots : Outcome → Nat
  | next st => st.slots
  | branch _ st => st.slots
  | exit _ => 0

def jumps : Outcome → List (Nat × Stack)
  | branch target st => [(target, st)]
  | _ => []

def ending : Outcome → End
  | next st => .falls st
  | branch _ st => .falls st
  | exit kind => .returns kind

end Outcome

/-- Instructions that do to a stack what another does, with two slots more at most. -/
def StandFor (g : Context) (is : List Instruction) (st : Stack) (out : Outcome) : Prop :=
  Runs g (max st.slots out.slots + 2) out.jumps is st out.ending

theorem Runs.mono {limit limit' : Nat} {jumps : List (Nat × Stack)} {is : List Instruction}
    {e : End}
    (h : Runs g limit jumps is st e) (hle : limit ≤ limit') : Runs g limit' jumps is st e := by
  induction h with
  | done hst => exact .done (Nat.le_trans hst hle)
  | next hst hstep _ ih => exact .next (Nat.le_trans hst hle) hstep ih
  | branch hst hstep hmem _ ih => exact .branch (Nat.le_trans hst hle) hstep hmem ih
  | exit hst hstep => exact .exit (Nat.le_trans hst hle) hstep

theorem Runs.unique {limit limit' : Nat} {jumps jumps' : List (Nat × Stack)}
    {is : List Instruction} {e e' : End} (h : Runs g limit jumps is st e)
    (h' : Runs g limit' jumps' is st e') : e = e' := by
  induction h with
  | done _ => cases h' with | done _ => rfl
  | next _ hstep _ ih =>
      cases h' with
      | next _ hstep' hrest =>
          cases hstep.unique hstep'
          exact ih hrest
      | branch _ hstep' _ _ => cases hstep.unique hstep'
      | exit _ hstep' => cases hstep.unique hstep'
  | branch _ hstep _ _ ih =>
      cases h' with
      | next _ hstep' _ => cases hstep.unique hstep'
      | branch _ hstep' _ hrest =>
          cases hstep.unique hstep'
          exact ih hrest
      | exit _ hstep' => cases hstep.unique hstep'
  | exit _ hstep =>
      cases h' with
      | next _ hstep' _ => cases hstep.unique hstep'
      | branch _ hstep' _ _ => cases hstep.unique hstep'
      | exit _ hstep' =>
          cases hstep.unique hstep'
          rfl

end BytecodeMutation
