import BytecodeMutation.Method

namespace BytecodeMutation.Arithmetic

def exchanged? : UInt8 → Option (UInt8 × String)
  | Opcode.iadd => some (Opcode.isub, "Replaced integer addition with subtraction")
  | Opcode.isub => some (Opcode.iadd, "Replaced integer subtraction with addition")
  | Opcode.imul => some (Opcode.idiv, "Replaced integer multiplication with division")
  | Opcode.idiv => some (Opcode.imul, "Replaced integer division with multiplication")
  | Opcode.irem => some (Opcode.imul, "Replaced integer modulus with multiplication")
  | Opcode.ior => some (Opcode.iand, "Replaced bitwise OR with AND")
  | Opcode.iand => some (Opcode.ior, "Replaced bitwise AND with OR")
  | Opcode.ixor => some (Opcode.iand, "Replaced XOR with AND")
  | Opcode.ishl => some (Opcode.ishr, "Replaced Shift Left with Shift Right")
  | Opcode.ishr => some (Opcode.ishl, "Replaced Shift Right with Shift Left")
  | Opcode.iushr => some (Opcode.ishl, "Replaced Unsigned Shift Right with Shift Left")
  | Opcode.ladd => some (Opcode.lsub, "Replaced long addition with subtraction")
  | Opcode.lsub => some (Opcode.ladd, "Replaced long subtraction with addition")
  | Opcode.lmul => some (Opcode.ldiv, "Replaced long multiplication with division")
  | Opcode.ldiv => some (Opcode.lmul, "Replaced long division with multiplication")
  | Opcode.lrem => some (Opcode.lmul, "Replaced long modulus with multiplication")
  | Opcode.lor => some (Opcode.land, "Replaced bitwise OR with AND")
  | Opcode.land => some (Opcode.lor, "Replaced bitwise AND with OR")
  | Opcode.lxor => some (Opcode.land, "Replaced XOR with AND")
  | Opcode.lshl => some (Opcode.lshr, "Replaced Shift Left with Shift Right")
  | Opcode.lshr => some (Opcode.lshl, "Replaced Shift Right with Shift Left")
  | Opcode.lushr => some (Opcode.lshl, "Replaced Unsigned Shift Right with Shift Left")
  | Opcode.fadd => some (Opcode.fsub, "Replaced float addition with subtraction")
  | Opcode.fsub => some (Opcode.fadd, "Replaced float subtraction with addition")
  | Opcode.fmul => some (Opcode.fdiv, "Replaced float multiplication with division")
  | Opcode.fdiv => some (Opcode.fmul, "Replaced float division with multiplication")
  | Opcode.frem => some (Opcode.fmul, "Replaced float modulus with multiplication")
  | Opcode.dadd => some (Opcode.dsub, "Replaced double addition with subtraction")
  | Opcode.dsub => some (Opcode.dadd, "Replaced double subtraction with addition")
  | Opcode.dmul => some (Opcode.ddiv, "Replaced double multiplication with division")
  | Opcode.ddiv => some (Opcode.dmul, "Replaced double division with multiplication")
  | Opcode.drem => some (Opcode.dmul, "Replaced double modulus with multiplication")
  | _ => none

def exchange (i : Instruction) : Option Proposal :=
  (exchanged? i.opcode).map fun (op, description) => .plain description [op]

def isNegation (op : UInt8) : Bool :=
  op == Opcode.ineg || op == Opcode.lneg || op == Opcode.fneg || op == Opcode.dneg

def dropNegation (i : Instruction) : Option Proposal :=
  if isNegation i.opcode then some ⟨"removed negation", []⟩ else none

def increment? (i : Instruction) : Option (UInt16 × Int16) :=
  match i.operand with
  | .increment index delta => if i.opcode == Opcode.iinc then some (index, delta) else none
  | _ => none

/-- The least amount has no negation in sixteen bits and is left alone. -/
def negateIncrement (i : Instruction) : Option Proposal :=
  match increment? i with
  | some (index, delta) =>
      if delta = -32768 then none
      else some ⟨s!"Changed increment from {delta} to {-delta}",
        [⟨Opcode.iinc, .increment index (-delta)⟩]⟩
  | none => none

def dropIncrement (i : Instruction) : Option Proposal :=
  (increment? i).map fun (_, delta) => ⟨s!"Removed increment {delta}", []⟩

def pushedInt? (i : Instruction) : Option Int32 :=
  if Opcode.iconstM1 ≤ i.opcode && i.opcode ≤ Opcode.iconst5 then
    some (.ofInt ((i.opcode.toNat : Int) - 3))
  else match i.operand with
    | .byte value => if i.opcode == Opcode.bipush then some value.toInt32 else none
    | .short value => if i.opcode == Opcode.sipush then some value.toInt32 else none
    | _ => none

def otherConstant? : UInt8 → Option (UInt8 × String × String)
  | Opcode.lconst0 => some (Opcode.lconst1, "0", "1")
  | Opcode.lconst1 => some (Opcode.lconst0, "1", "0")
  | Opcode.fconst0 => some (Opcode.fconst1, "0.0", "1.0")
  | Opcode.fconst1 => some (Opcode.fconst0, "1.0", "0.0")
  | Opcode.fconst2 => some (Opcode.fconst1, "2.0", "1.0")
  | Opcode.dconst0 => some (Opcode.dconst1, "0.0", "1.0")
  | Opcode.dconst1 => some (Opcode.dconst0, "1.0", "0.0")
  | _ => none

def substituteConstant (i : Instruction) : Option Proposal :=
  match pushedInt? i with
  | some value =>
      let changed := if value = 1 then 0 else value + 1
      some ⟨s!"Substituted {value} with {changed}", [.loadInt changed]⟩
  | none => (otherConstant? i.opcode).map fun (op, source, target) =>
      .plain s!"Substituted {source} with {target}" [op]

end BytecodeMutation.Arithmetic
