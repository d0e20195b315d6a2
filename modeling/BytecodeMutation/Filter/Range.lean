import BytecodeMutation.Method

namespace BytecodeMutation

structure OrdinalRange where
  first : Nat
  last : Nat
  deriving DecidableEq, Repr

def OrdinalRange.contains (r : OrdinalRange) (i : Nat) : Bool := r.first ≤ i && i ≤ r.last

def dropRanges (ranges : List OrdinalRange) (mutations : List Details) : List Details :=
  mutations.filter fun d => !ranges.any (·.contains d.firstOrdinal)

namespace Assertions

def accessesFlag (opcode : UInt8) (s : Site) : Bool :=
  s.opcode == opcode
    && s.symbol.field?.any fun m => m.name == "$assertionsDisabled" && m.descriptor == "Z"

def isStatusCall (s : Site) : Bool :=
  s.symbol.call?.any fun (_, m) =>
    m.owner == "java/lang/Class" && m.name == "desiredAssertionStatus"

def guardRange (m : Method) (ordinal : Nat) (s next : Site) : Option OrdinalRange :=
  if accessesFlag Opcode.getstatic s && next.opcode == Opcode.ifne then
    match next.instruction.operand with
    | .branch target => do
        let stop ← m.ordinalOf? target
        if ordinal < stop then some ⟨ordinal, stop - 1⟩ else none
    | _ => none
  else none

def statusRange (m : Method) (ordinal : Nat) (s : Site) : Option OrdinalRange :=
  if isStatusCall s then
    ((m.code.drop ordinal).findIdx? (accessesFlag Opcode.putstatic)).map
      fun i => ⟨ordinal, ordinal + i⟩
  else none

def ranges (m : Method) : List OrdinalRange :=
  (m.code.zip (m.code.drop 1)).zipIdx.flatMap fun ((s, next), ordinal) =>
    (guardRange m ordinal s next).toList ++ (statusRange m ordinal s).toList

end Assertions

namespace StringSwitch

def accessed? (general short : UInt8) (s : Site) : Option UInt16 :=
  if s.opcode == general then
    match s.instruction.operand with
    | .variable index => some index
    | _ => none
  else if short ≤ s.opcode && s.opcode < short + 4 then some (s.opcode - short).toUInt16
  else none

def loadedInt? : Site → Option UInt16 := accessed? Opcode.iload Opcode.iload0

def storedInt? : Site → Option UInt16 := accessed? Opcode.istore Opcode.istore0

def loadedReference? : Site → Option UInt16 := accessed? Opcode.aload Opcode.aload0

def storedReference? : Site → Option UInt16 := accessed? Opcode.astore Opcode.astore0

def isHashCode (s : Site) : Bool :=
  s.opcode == Opcode.invokevirtual
    && s.symbol.call?.any fun (_, m) =>
      m.owner == "java/lang/String" && m.name == "hashCode" && m.descriptor == "()I"

def switchDefault? : Operand → Option Nat
  | .tableSwitch default .. => some default
  | .lookupSwitch default _ => some default
  | _ => none

/-- From the store of the selector's initial value through its load for the second switch, around a
call of `hashCode` that feeds a first switch. -/
def rangeAt (m : Method) (call : Nat) : Option OrdinalRange := do
  guard (3 ≤ call)
  let hashSwitch ← m.code[call + 1]?
  guard (Opcode.isSwitch hashSwitch.opcode)
  let _ ← loadedReference? (← m.code[call - 1]?)
  let selector ← storedInt? (← m.code[call - 2]?)
  guard ((← m.code[call - 3]?).opcode == Opcode.iconstM1)
  let storesText := 3 < call && (m.code[call - 4]?.bind storedReference?).isSome
  let dispatch ← m.ordinalOf? (← switchDefault? hashSwitch.instruction.operand)
  guard (loadedInt? (← m.code[dispatch]?) == some selector)
  guard (Opcode.isSwitch (← m.code[dispatch + 1]?).opcode)
  return ⟨if storesText then call - 4 else call - 3, dispatch⟩

def ranges (m : Method) : List OrdinalRange :=
  m.code.zipIdx.filterMap fun (s, ordinal) =>
    if isHashCode s then rangeAt m ordinal else none

end StringSwitch

namespace EnumInitializer

def range? (className : String) (m : Method) : Option OrdinalRange :=
  (m.code.findIdx? fun s => s.opcode == Opcode.putstatic
    && s.symbol.field?.any fun f => f.owner == className && f.name == "$VALUES").map (⟨0, ·⟩)

end EnumInitializer

end BytecodeMutation
