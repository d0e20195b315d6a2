import BytecodeMutation.Block
import BytecodeMutation.Filter.Range

/-!
Copies of a `finally` block. The copies of a mutation share operator, line and description, stand in
different blocks, and one of them stands in a handler that catches everything; they become one
mutation that covers them all.
-/

namespace BytecodeMutation.InlinedFinally

def region? (m : Method) (h : Handler) : Option OrdinalRange :=
  if h.catchType.isNone then
    (m.ordinalOf? h.handler).map fun start =>
      ⟨start, match (m.code.drop start).findIdx? (·.opcode == Opcode.athrow) with
        | some i => start + i
        | none => m.code.length - 1⟩
  else none

def regions (m : Method) : List OrdinalRange := m.handlers.filterMap (region? m)

/-- Mutations of one operator with one description on one known line. -/
def areCopies (a b : Details) : Bool :=
  a.line.isSome && a.line == b.line && a.mutator == b.mutator && a.description == b.description

def copies (ms : List Details) (d : Details) : List Details := ms.filter (areCopies d)

def spansBlocks (blocks : Blocks) (d : Details) (group : List Details) : Bool :=
  group.any fun e => blocks.numberOf e.firstOrdinal != blocks.numberOf d.firstOrdinal

def inRegion (regions : List OrdinalRange) (group : List Details) : Bool :=
  group.any fun e => regions.any (·.contains e.firstOrdinal)

def isMerged (regions : List OrdinalRange) (blocks : Blocks) (d : Details)
    (group : List Details) : Bool :=
  spansBlocks blocks d group && inRegion regions group

def merge (d : Details) (group : List Details) : Details :=
  { d with id := d.id.spanning (group.flatMap (·.id.indexes)), inFinallyBlock := true }

def collapse (regions : List OrdinalRange) (blocks : Blocks) (ms : List Details) :
    List Details :=
  ms.zipIdx.filterMap fun (d, i) =>
    let group := copies ms d
    if isMerged regions blocks d group then
      if ms.findIdx? (areCopies d) == some i then some (merge d group) else none
    else some d

def apply (m : Method) (blocks : Blocks) (ms : List Details) : List Details :=
  let regions := regions m
  if regions.isEmpty then ms else collapse regions blocks ms

end BytecodeMutation.InlinedFinally
