import BytecodeMutation.Block
import BytecodeMutation.Error

namespace BytecodeMutation

inductive StreamItem where
  | kept (ordinal : Nat)
  | replaced (ordinal : Nat) (instructions : List Instruction)
  deriving DecidableEq, Repr

structure ScanState where
  location : Location
  filename : Option String
  lines : Array LineEntry
  blocks : Blocks
  target : Option Identifier
  ordinal : Nat := 0
  line : Option Nat := none
  mutations : Array Details := #[]
  applied : List Nat := []
  deriving Repr

namespace ScanState

def searchFrom (holds : Nat → Bool) (base size : Nat) : Nat :=
  if size ≤ 1 then base
  else
    let half := size / 2
    searchFrom holds (if holds (base + half) then base + half else base) (size - half)
  termination_by size

def partitionPoint (holds : Nat → Bool) (size : Nat) : Nat :=
  if size = 0 then 0
  else
    let base := searchFrom holds 0 size
    if holds base then base + 1 else base

def startsBy (lines : Array LineEntry) (offset i : Nat) : Bool :=
  lines[i]?.any fun e => e.start ≤ offset

def lineAt? (lines : Array LineEntry) (offset : Nat) : Option Nat :=
  let covered := partitionPoint (startsBy lines offset) lines.size
  if covered = 0 then none else lines[covered - 1]?.map (·.line)

variable (c : ScanState)

def advance (ordinal offset : Nat) : ScanState :=
  { c with ordinal, line := (lineAt? c.lines offset).or c.line }

def identifier (operator : String) : Identifier := .single c.location c.ordinal operator

def detailsOf (id : Identifier) (description mutator : String) : Details :=
  { id, description, line := c.line, block := c.blocks.numberOf id.firstOrdinal, mutator,
    filename := c.filename }

def register (id : Identifier) (description mutator : String) : ScanState :=
  { c with mutations := c.mutations.push (c.detailsOf id description mutator) }

def wants (id : Identifier) : Bool :=
  c.target.any fun t => t.covers id && !c.applied.contains id.firstOrdinal

def markApplied (id : Identifier) : ScanState :=
  { c with applied := id.firstOrdinal :: c.applied }

def isApplied : Bool := c.target.any fun t => t.indexes.all c.applied.contains

end ScanState

namespace Scan

def orNop : List Instruction → List Instruction
  | [] => [.plain Opcode.nop]
  | is => is

def visitSite (m : MethodHeader) (s : Site) (c : ScanState) :
    List Operator → Except EngineError (ScanState × StreamItem)
  | [] => .ok (c, .kept c.ordinal)
  | o :: os =>
      match o.propose m s with
      | .error fault => .error (.operatorFailed o c.location c.ordinal fault)
      | .ok none => visitSite m s c os
      | .ok (some p) =>
          let id := c.identifier o.id
          let c := c.register id p.description o.name
          if c.wants id then .ok (c.markApplied id, .replaced c.ordinal (orNop p.replacement))
          else visitSite m s c os

def visitFrom (m : MethodHeader) (os : List Operator) (c : ScanState) (emitted : Array StreamItem)
    (ordinal : Nat) : List Site → Except EngineError (ScanState × Array StreamItem)
  | [] => .ok (c, emitted)
  | s :: rest =>
      match visitSite m s (c.advance ordinal s.offset) os with
      | .ok (c, item) => visitFrom m os c (emitted.push item) (ordinal + 1) rest
      | .error e => .error e

def visit (c : Class) (m : Method) (blocks : Blocks) (os : List Operator)
    (target : Option Identifier) : Except EngineError (ScanState × List StreamItem) :=
  let header := c.header m
  let start : ScanState :=
    { location := header.location, filename := c.sourceFile, lines := m.lines.toArray, blocks,
      target }
  (visitFrom header os start #[] 0 m.code).map fun (c, items) => (c, items.toList)

end Scan

end BytecodeMutation
