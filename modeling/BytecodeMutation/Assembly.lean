import BytecodeMutation.ClassFile.Basic
import BytecodeMutation.Error
import BytecodeMutation.Assembly.Frames
import BytecodeMutation.Assembly.PoolTail
import BytecodeMutation.Assembly.Tables
import BytecodeMutation.Scan

namespace BytecodeMutation

namespace Assembly

def replacementPieces (t : PoolTail) (origin : Nat) (acc : List Piece) (first : Bool) :
    List Instruction → Except Fault (List Piece × PoolTail)
  | [] => .ok (acc, t)
  | i :: is => do
      let (i, t) ← t.resolve i
      replacementPieces t origin (⟨if first then some origin else none, i⟩ :: acc) false is

def piecesFrom (code : Array Site) (t : PoolTail) (acc : List Piece) :
    List StreamItem → Except Fault (List Piece × PoolTail)
  | [] => .ok (acc.reverse, t)
  | .kept ordinal :: items =>
      match code[ordinal]? with
      | some s => piecesFrom code t (⟨some s.offset, s.instruction⟩ :: acc) items
      | none => .error (.noOrdinal ordinal)
  | .replaced ordinal is :: items =>
      match code[ordinal]? with
      | some s => do
          let (acc, t) ← replacementPieces t s.offset acc true is
          piecesFrom code t acc items
      | none => .error (.noOrdinal ordinal)

def isReplaced : StreamItem → Bool
  | .replaced .. => true
  | .kept _ => false

def target (map : OffsetMap) (t : Nat) : Except Fault Nat :=
  match map[t]? with
  | some moved => .ok moved
  | none => .error (.notAnInstruction t)

def encodeFrom (map : OffsetMap) (acc : List Bytes) : List (Piece × Nat) → Except Fault Bytes
  | [] => .ok acc.reverse.flatten
  | (s, offset) :: rest =>
      match s.instruction.encode (target map) offset with
      | .ok bytes => encodeFrom map (bytes :: acc) rest
      | .error e => .error e

def isIdentity (map : OffsetMap) : Bool := map.toList.all fun (old, moved) => old == moved

/-- An attribute of the code, moved along with it. An attribute of unknown meaning may hold offsets
and stays only if none of them move. -/
def moveAttribute (l : ClassFile) (map : OffsetMap) (a : RawAttribute) :
    Except Fault (Option RawAttribute) :=
  let moved (body : Except Fault Bytes) : Except Fault (Option RawAttribute) :=
    body.map fun b => some ⟨a.name, b⟩
  match l.utf8? a.name with
  | some "LineNumberTable" => moved (LineTable.move map a.body)
  | some "LocalVariableTable" | some "LocalVariableTypeTable" =>
      moved (VariableTable.move map a.body)
  | some "StackMapTable" => moved (Frame.moveTable map a.body)
  | _ => .ok (if isIdentity map then some a else none)

def moveHandler (map : OffsetMap) (h : RawHandler) : Except Fault RawHandler := do
  let pc (v : UInt16) : Except Fault UInt16 :=
    (attempt .moveHandlers (target map v.toNat)).map .ofNat
  return ⟨← pc h.start, ← pc h.stop, ← pc h.handler, h.catchType⟩

def raisedStack (maxStack : UInt16) : UInt16 := if 65533 ≤ maxStack then 65535 else maxStack + 2

def codeFor (l : ClassFile) (c : CodeBody) (m : Method) (stream : List StreamItem) :
    Except Fault (CodeBody × PoolTail) := do
  let (pieces, tail) ← piecesFrom m.code.toArray ⟨l.pool.count, [], [], []⟩ [] stream
  let p ← Placement.ofPieces c.code.length pieces
  let code ← encodeFrom p.map [] (p.pieces.zip p.offsets)
  let attributes ← c.attributes.mapM (moveAttribute l p.map)
  let handlers ← c.handlers.mapM (moveHandler p.map)
  let maxStack := if stream.any isReplaced then raisedStack c.maxStack else c.maxStack
  return (⟨maxStack, c.maxLocals, code, handlers, attributes.filterMap id⟩, tail)

def setBody (isCode : RawAttribute → Bool) (body : Bytes) : List RawAttribute → List RawAttribute
  | [] => []
  | a :: as => if isCode a then ⟨a.name, body⟩ :: as else a :: setBody isCode body as

def setCode (l : ClassFile) (method : Nat) (body : Bytes) : ClassFile :=
  { l with methods := l.methods.modify method fun m =>
      { m with attributes := setBody (l.named "Code") body m.attributes } }

def assemble (data : Bytes) (m : Method) (stream : List StreamItem) : Except Fault Bytes := do
  let l ← ClassFile.read data
  match l.codeOf? m.index with
  | none => throw (.noCode m.name)
  | some a =>
      let c ← CodeBody.read a.body
      if c.code.length ≠ m.codeLength then
        throw (.codeDiffers m.name c.code.length m.codeLength)
      let (c, tail) ← codeFor l c m stream
      return { setCode l m.index c.write with pool := tail.extend l.pool }.write

/-- A limit of the format makes the mutation inapplicable; all else is the fault of the class. -/
def replaceCode (className : String) (data : Bytes) (m : Method) (stream : List StreamItem) :
    Except EngineError Bytes :=
  match assemble data m stream with
  | .ok bytes => .ok bytes
  | .error (.limit l) => .error (.notApplicable className (.limit l))
  | .error fault => .error (.ofFault className fault)

end Assembly

end BytecodeMutation
