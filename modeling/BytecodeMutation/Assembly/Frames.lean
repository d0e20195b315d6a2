import BytecodeMutation.ClassFile.Frame
import BytecodeMutation.Assembly.Placement

namespace BytecodeMutation

namespace VerificationType

def move (map : OffsetMap) : VerificationType → Except Fault VerificationType
  | .uninitialized offset => match map[offset]? with
      | some moved => .ok (.uninitialized moved)
      | none => .error (.lostAllocation offset)
  | t => .ok t

end VerificationType

namespace FrameForm

def move (map : OffsetMap) : FrameForm → Except Fault FrameForm
  | .same compact => .ok (.same compact)
  | .sameLocals1 compact item => (item.move map).map (.sameLocals1 compact)
  | .chop count => .ok (.chop count)
  | .append locals => (locals.mapM (VerificationType.move map)).map .append
  | .full locals stack => do
      let locals ← locals.mapM (VerificationType.move map)
      return .full locals (← stack.mapM (VerificationType.move map))

end FrameForm

namespace Frame

def delta (previous : Option Nat) (offset : Nat) : Except Fault UInt16 := do
  let distance ← match previous with
    | none => pure offset
    | some p => if offset < p + 1 then throw .framesOutOfOrder else pure (offset - (p + 1))
  if 65535 < distance then throw .frameDeltaOverflow
  return .ofNat distance

def moveFrom (map : OffsetMap) (previous : Option Nat) (acc : List DeltaFrame) :
    List Frame → Except Fault (List DeltaFrame)
  | [] => .ok acc.reverse
  | f :: fs =>
      match map[f.offset]? with
      | none => .error (.lostFrame f.offset)
      | some offset => do
          let delta ← delta previous offset
          let form ← f.form.move map
          moveFrom map (some offset) (⟨delta, form⟩ :: acc) fs

def moveTable (map : OffsetMap) (body : Bytes) : Except Fault Bytes := do
  let frames ← moveFrom map none [] (← readAll body)
  return Bytes.ofNat16 frames.length ++ frames.flatMap DeltaFrame.write

end Frame

end BytecodeMutation
