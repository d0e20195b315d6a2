import BytecodeMutation.Reader

namespace BytecodeMutation

inductive Constant where
  | utf8 (text : Bytes)
  | class (name : UInt16)
  | member (tag : UInt8) (owner signature : UInt16)
  | nameAndType (name descriptor : UInt16)
  | double (tag : UInt8) (body : Bytes)
  | other (tag : UInt8) (body : Bytes)
  deriving DecidableEq, Repr

namespace Constant

def slots : Constant → UInt16
  | .double .. => 2
  | _ => 1

def bodyLength? : UInt8 → Option Nat
  | 3 | 4 | 17 | 18 => some 4
  | 8 | 16 | 19 | 20 => some 2
  | 15 => some 3
  | _ => none

def readTagged (tag : UInt8) : Reader Constant :=
  if tag == 1 then do return .utf8 (← Reader.take (← Reader.u2).toNat)
  else if tag == 5 || tag == 6 then do return .double tag (← Reader.take 8)
  else if tag == 7 then do return .class (← Reader.u2)
  else if 9 ≤ tag && tag ≤ 11 then do return .member tag (← Reader.u2) (← Reader.u2)
  else if tag == 12 then do return .nameAndType (← Reader.u2) (← Reader.u2)
  else match bodyLength? tag with
    | some n => do return .other tag (← Reader.take n)
    | none => throw (.constantTag tag)

def write : Constant → Bytes
  | .utf8 text => 1 :: Bytes.ofNat16 text.length ++ text
  | .class name => 7 :: Bytes.ofUInt16 name
  | .member tag owner signature => tag :: Bytes.ofUInt16 owner ++ Bytes.ofUInt16 signature
  | .nameAndType name descriptor => 12 :: Bytes.ofUInt16 name ++ Bytes.ofUInt16 descriptor
  | .double tag body => tag :: body
  | .other tag body => tag :: body

theorem length_readTagged {tag : UInt8} {s r : Bytes} {c : Constant}
    (h : readTagged tag s = .ok (c, r)) : r.length ≤ s.length := by
  unfold readTagged at h
  split at h
  · simp only [Reader.bind_ok, Reader.pure_ok] at h
    obtain ⟨n, t, hn, a, u, ha, -, rfl⟩ := h
    exact Nat.le_trans (Reader.length_take ha) (Reader.length_u2 hn)
  split at h
  · simp only [Reader.bind_ok, Reader.pure_ok] at h
    obtain ⟨a, t, ha, -, rfl⟩ := h
    exact Reader.length_take ha
  split at h
  · simp only [Reader.bind_ok, Reader.pure_ok] at h
    obtain ⟨a, t, ha, -, rfl⟩ := h
    exact Reader.length_u2 ha
  split at h
  · simp only [Reader.bind_ok, Reader.pure_ok] at h
    obtain ⟨a, t, ha, b, u, hb, -, rfl⟩ := h
    exact Nat.le_trans (Reader.length_u2 hb) (Reader.length_u2 ha)
  split at h
  · simp only [Reader.bind_ok, Reader.pure_ok] at h
    obtain ⟨a, t, ha, b, u, hb, -, rfl⟩ := h
    exact Nat.le_trans (Reader.length_u2 hb) (Reader.length_u2 ha)
  cases hb : bodyLength? tag with
  | some n =>
      rw [hb] at h
      simp only [Reader.bind_ok, Reader.pure_ok] at h
      obtain ⟨a, t, ha, -, rfl⟩ := h
      exact Reader.length_take ha
  | none =>
      rw [hb] at h
      exact nomatch h

/-- The constants from slot `index` to the last, each with its slot, after those already read. Slot
numbers are 16 bits wide, and none follows a number of two slots in slot 65534. -/
def readFrom (count index : UInt16) (acc : List (UInt16 × Constant)) :
    Reader (List (UInt16 × Constant))
  | [] => if index < count then .error .classTruncated else .ok (acc.reverse, [])
  | tag :: s =>
      if index < count then
        match _h : readTagged tag s with
        | .ok (c, r) =>
            if index.toNat + c.slots.toNat < 65536 then
              readFrom count (index + c.slots) ((index, c) :: acc) r
            else .error .overflow
        | .error e => .error e
      else .ok (acc.reverse, tag :: s)
  termination_by s => s.length
  decreasing_by
    have := length_readTagged _h
    simp only [List.length_cons]
    omega

end Constant

structure ConstantTable where
  count : UInt16
  constants : List (UInt16 × Constant)
  deriving DecidableEq, Repr

def ConstantTable.read : Reader ConstantTable := do
  let count ← Reader.u2
  return ⟨count, ← Constant.readFrom count 1 []⟩

def ConstantTable.body (t : ConstantTable) : Bytes := t.constants.flatMap (·.2.write)

def ConstantTable.write (t : ConstantTable) : Bytes := Bytes.ofUInt16 t.count ++ t.body

end BytecodeMutation
