import BytecodeMutation.Reader

/-!
Stack map frames. In the class file each frame but the first stands one past the distance that it
declares from the frame before it.
-/

namespace BytecodeMutation

inductive VerificationType where
  | simple (tag : UInt8)
  | object (index : UInt16)
  | uninitialized (offset : Nat)
  deriving DecidableEq, Repr

inductive FrameForm where
  | same (compact : Bool)
  | sameLocals1 (compact : Bool) (item : VerificationType)
  | chop (count : UInt8)
  | append (locals : List VerificationType)
  | full (locals stack : List VerificationType)
  deriving DecidableEq, Repr

structure DeltaFrame where
  delta : UInt16
  form : FrameForm
  deriving DecidableEq, Repr

structure Frame where
  offset : Nat
  form : FrameForm
  deriving DecidableEq, Repr

namespace VerificationType

def read : Reader VerificationType := do
  let tag ← Reader.u1
  if tag ≤ 6 then return .simple tag
  else if tag == 7 then return .object (← Reader.u2)
  else if tag == 8 then return .uninitialized (← Reader.u2).toNat
  else throw (.verificationTag tag)

def write : VerificationType → Bytes
  | .simple tag => [tag]
  | .object index => 7 :: Bytes.ofUInt16 index
  | .uninitialized offset => 8 :: Bytes.ofNat16 offset

end VerificationType

namespace DeltaFrame

def read : Reader DeltaFrame := do
  let type ← Reader.u1
  if type ≤ 63 then return ⟨type.toUInt16, .same true⟩
  else if type ≤ 127 then
    return ⟨(type - 64).toUInt16, .sameLocals1 true (← VerificationType.read)⟩
  else if type ≤ 246 then throw (.reservedFrame type)
  else
    let delta ← Reader.u2
    if type == 247 then return ⟨delta, .sameLocals1 false (← VerificationType.read)⟩
    else if type ≤ 250 then return ⟨delta, .chop (251 - type)⟩
    else if type == 251 then return ⟨delta, .same false⟩
    else if type ≤ 254 then
      return ⟨delta, .append (← Reader.times (type - 251).toNat VerificationType.read)⟩
    else
      let locals ← Reader.counted VerificationType.read
      return ⟨delta, .full locals (← Reader.counted VerificationType.read)⟩

def isShort (compact : Bool) (delta : UInt16) : Bool := compact && delta ≤ 63

def write (f : DeltaFrame) : Bytes :=
  match f.form with
  | .same compact =>
      if isShort compact f.delta then [f.delta.toUInt8] else 251 :: Bytes.ofUInt16 f.delta
  | .sameLocals1 compact item =>
      (if isShort compact f.delta then [64 + f.delta.toUInt8] else 247 :: Bytes.ofUInt16 f.delta)
        ++ item.write
  | .chop count => (251 - count) :: Bytes.ofUInt16 f.delta
  | .append locals =>
      .ofNat (251 + locals.length) :: Bytes.ofUInt16 f.delta
        ++ locals.flatMap VerificationType.write
  | .full locals stack =>
      255 :: Bytes.ofUInt16 f.delta
        ++ Bytes.ofNat16 locals.length ++ locals.flatMap VerificationType.write
        ++ Bytes.ofNat16 stack.length ++ stack.flatMap VerificationType.write

end DeltaFrame

namespace Frame

def place : Option Nat → UInt16 → Nat
  | none, delta => delta.toNat
  | some previous, delta => previous + delta.toNat + 1

def placeAll (previous : Option Nat) : List DeltaFrame → List Frame
  | [] => []
  | f :: fs =>
      let offset := place previous f.delta
      ⟨offset, f.form⟩ :: placeAll (some offset) fs

def readAll (body : Bytes) : Except Fault (List Frame) :=
  ((Reader.counted DeltaFrame.read).all (fun _ => .frameLengthMismatch) body).map (placeAll none)

end Frame

end BytecodeMutation
