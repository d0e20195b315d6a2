import BytecodeMutation.Reader
import BytecodeMutation.Assembly.Placement

namespace BytecodeMutation

namespace OffsetMap

def image (map : OffsetMap) (pc : UInt16) : Except Fault UInt16 :=
  match map[pc.toNat]? with
  | some offset => .ok (.ofNat offset)
  | none => .error (.lostOffset pc.toNat)

end OffsetMap

namespace LineTable

structure Entry where
  start : UInt16
  line : UInt16
  deriving DecidableEq, Repr

def Entry.read : Reader Entry := do
  return ⟨← Reader.u2, ← Reader.u2⟩

def Entry.write (e : Entry) : Bytes := Bytes.ofUInt16 e.start ++ Bytes.ofUInt16 e.line

def Entry.move? (map : OffsetMap) (e : Entry) : Option Entry :=
  match map.image e.start with
  | .ok start => some ⟨start, e.line⟩
  | .error _ => none

def move (map : OffsetMap) (body : Bytes) : Except Fault Bytes := do
  let (entries, _) ← Reader.counted Entry.read body
  let entries := entries.filterMap (Entry.move? map)
  return Bytes.ofNat16 entries.length ++ entries.flatMap Entry.write

end LineTable

namespace VariableTable

structure Entry where
  start : UInt16
  length : UInt16
  name : UInt16
  type : UInt16
  index : UInt16
  deriving DecidableEq, Repr

def Entry.write (e : Entry) : Bytes :=
  Bytes.ofUInt16 e.start ++ Bytes.ofUInt16 e.length ++ Bytes.ofUInt16 e.name
    ++ Bytes.ofUInt16 e.type ++ Bytes.ofUInt16 e.index

def moveRange (map : OffsetMap) (start length : UInt16) : Except Fault (UInt16 × UInt16) := do
  let first ← map.image start
  if 65535 < start.toNat + length.toNat then throw .variableRangeOverflow
  let last ← attempt .moveVariableEnd (map.image (start + length))
  if last < first then throw .variableRangeReversed
  return (first, last - first)

def readMoved (map : OffsetMap) : Reader Entry := do
  let start ← Reader.u2
  let length ← Reader.u2
  let (start, length) ← (moveRange map start length : Except Fault _)
  return ⟨start, length, ← Reader.u2, ← Reader.u2, ← Reader.u2⟩

def move (map : OffsetMap) (body : Bytes) : Except Fault Bytes := do
  let (entries, _) ← Reader.counted (readMoved map) body
  return Bytes.ofNat16 entries.length ++ entries.flatMap Entry.write

end VariableTable

end BytecodeMutation
