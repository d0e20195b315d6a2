namespace BytecodeMutation

abbrev Bytes := List UInt8

namespace Bytes

def word16 (high low : UInt8) : UInt16 := .ofNat (high.toNat * 256 + low.toNat)

def word32 (a b c d : UInt8) : UInt32 :=
  .ofNat (((a.toNat * 256 + b.toNat) * 256 + c.toNat) * 256 + d.toNat)

def ofUInt16 (v : UInt16) : Bytes := [.ofNat (v.toNat / 256), .ofNat v.toNat]

def ofUInt32 (v : UInt32) : Bytes :=
  [.ofNat (v.toNat / 16777216), .ofNat (v.toNat / 65536), .ofNat (v.toNat / 256), .ofNat v.toNat]

def ofNat16 (n : Nat) : Bytes := ofUInt16 (.ofNat n)

def ofNat32 (n : Nat) : Bytes := ofUInt32 (.ofNat n)

def ofInt16 (v : Int16) : Bytes := ofUInt16 v.toUInt16

def ofInt32 (v : Int32) : Bytes := ofUInt32 v.toUInt32

@[simp] theorem length_ofUInt16 (v : UInt16) : (ofUInt16 v).length = 2 := rfl

@[simp] theorem length_ofUInt32 (v : UInt32) : (ofUInt32 v).length = 4 := rfl

theorem word16_ofUInt16 (v : UInt16) :
    word16 (.ofNat (v.toNat / 256)) (.ofNat v.toNat) = v := by
  apply UInt16.toNat_inj.1
  have hv := v.toNat_lt
  simp only [word16, UInt16.toNat_ofNat', UInt8.toNat_ofNat']
  omega

theorem word32_ofUInt32 (v : UInt32) :
    word32 (.ofNat (v.toNat / 16777216)) (.ofNat (v.toNat / 65536)) (.ofNat (v.toNat / 256))
      (.ofNat v.toNat) = v := by
  apply UInt32.toNat_inj.1
  have hv := v.toNat_lt
  simp only [word32, UInt32.toNat_ofNat', UInt8.toNat_ofNat']
  omega

theorem ofUInt16_word16 (a b : UInt8) : ofUInt16 (word16 a b) = [a, b] := by
  have ha := a.toNat_lt
  have hb := b.toNat_lt
  have h1 : UInt8.ofNat ((word16 a b).toNat / 256) = a := by
    apply UInt8.toNat_inj.1
    simp only [word16, UInt16.toNat_ofNat', UInt8.toNat_ofNat']
    omega
  have h2 : UInt8.ofNat (word16 a b).toNat = b := by
    apply UInt8.toNat_inj.1
    simp only [word16, UInt16.toNat_ofNat', UInt8.toNat_ofNat']
    omega
  simp [ofUInt16, h1, h2]

theorem ofUInt32_word32 (a b c d : UInt8) : ofUInt32 (word32 a b c d) = [a, b, c, d] := by
  have ha := a.toNat_lt
  have hb := b.toNat_lt
  have hc := c.toNat_lt
  have hd := d.toNat_lt
  have h1 : UInt8.ofNat ((word32 a b c d).toNat / 16777216) = a := by
    apply UInt8.toNat_inj.1
    simp only [word32, UInt32.toNat_ofNat', UInt8.toNat_ofNat']
    omega
  have h2 : UInt8.ofNat ((word32 a b c d).toNat / 65536) = b := by
    apply UInt8.toNat_inj.1
    simp only [word32, UInt32.toNat_ofNat', UInt8.toNat_ofNat']
    omega
  have h3 : UInt8.ofNat ((word32 a b c d).toNat / 256) = c := by
    apply UInt8.toNat_inj.1
    simp only [word32, UInt32.toNat_ofNat', UInt8.toNat_ofNat']
    omega
  have h4 : UInt8.ofNat (word32 a b c d).toNat = d := by
    apply UInt8.toNat_inj.1
    simp only [word32, UInt32.toNat_ofNat', UInt8.toNat_ofNat']
    omega
  simp [ofUInt32, h1, h2, h3, h4]

def split? (n : Nat) (s : Bytes) : Option (Bytes × Bytes) :=
  let first := s.take n
  if first.length = n then some (first, s.drop n) else none

theorem split?_append (a b : Bytes) : split? a.length (a ++ b) = some (a, b) := by
  simp [split?]

theorem append_of_split? {n : Nat} {s a b : Bytes} (h : split? n s = some (a, b)) :
    s = a ++ b ∧ a.length = n := by
  simp only [split?, Option.ite_none_right_eq_some, Option.some.injEq, Prod.mk.injEq] at h
  obtain ⟨hn, rfl, rfl⟩ := h
  exact ⟨(List.take_append_drop n s).symm, hn⟩

def hexDigit (n : Nat) : Char :=
  if n < 10 then .ofNat (48 + n) else .ofNat (87 + n)

def toHex (s : Bytes) : String :=
  .ofList (s.flatMap fun b => [hexDigit (b.toNat / 16), hexDigit (b.toNat % 16)])

end Bytes

end BytecodeMutation
