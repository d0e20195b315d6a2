import BytecodeMutation.ClassFile.Basic
import BytecodeMutation.Proofs.Readers

namespace BytecodeMutation

open Reader

namespace Constant

def Valid : Constant → Prop
  | .utf8 text => text.length < 65536
  | .class _ => True
  | .member tag .. => 9 ≤ tag ∧ tag ≤ 11
  | .nameAndType .. => True
  | .double tag body => (tag = 5 ∨ tag = 6) ∧ body.length = 8
  | .other tag body => bodyLength? tag = some body.length

theorem valid_of_readTagged {tag : UInt8} {s t : Bytes} {c : Constant}
    (h : readTagged tag s = .ok (c, t)) : c.Valid ∧ tag :: s = c.write ++ t := by
  unfold readTagged at h
  split at h
  · rename_i htag
    simp only [bind_ok, pure_ok, u2_iff, take_iff] at h
    obtain ⟨v, u, rfl, a, x, ⟨hlen, rfl⟩, rfl, rfl⟩ := h
    obtain ⟨hn, rfl⟩ := eq_toNat16_iff.1 hlen
    exact ⟨hn, by simp [write, beq_iff_eq.1 htag, Bytes.ofNat16]⟩
  split at h
  · rename_i htag
    simp only [bind_ok, pure_ok, take_iff] at h
    obtain ⟨a, x, ⟨hlen, rfl⟩, rfl, rfl⟩ := h
    exact ⟨⟨by simpa using htag, hlen⟩, rfl⟩
  split at h
  · rename_i htag
    simp only [bind_ok, pure_ok, u2_iff] at h
    obtain ⟨a, x, rfl, rfl, rfl⟩ := h
    exact ⟨trivial, by simp [write, beq_iff_eq.1 htag]⟩
  split at h
  · rename_i htag
    simp only [bind_ok, pure_ok, u2_iff] at h
    obtain ⟨a, x, rfl, b, y, rfl, rfl, rfl⟩ := h
    exact ⟨by simpa [Valid] using htag, by simp [write]⟩
  split at h
  · rename_i htag
    simp only [bind_ok, pure_ok, u2_iff] at h
    obtain ⟨a, x, rfl, b, y, rfl, rfl, rfl⟩ := h
    exact ⟨trivial, by simp [write, beq_iff_eq.1 htag]⟩
  cases hb : bodyLength? tag with
  | none =>
      rw [hb] at h
      cases h
  | some n =>
      rw [hb] at h
      simp only [bind_ok, pure_ok, take_iff] at h
      obtain ⟨a, x, ⟨hlen, rfl⟩, rfl, rfl⟩ := h
      exact ⟨by rw [Valid, hb, hlen], rfl⟩

theorem readTagged_other {tag : UInt8} {n : Nat} (h : bodyLength? tag = some n) :
    readTagged tag = do return .other tag (← Reader.take n) := by
  unfold bodyLength? at h
  split at h <;> cases h <;> rfl

theorem readTagged_member {tag : UInt8} (h : 9 ≤ tag ∧ tag ≤ 11) :
    readTagged tag = do return .member tag (← Reader.u2) (← Reader.u2) := by
  have htag : tag = 9 ∨ tag = 10 ∨ tag = 11 := by
    simp only [UInt8.le_iff_toNat_le, ← UInt8.toNat_inj, UInt8.reduceToNat] at h ⊢
    omega
  rcases htag with rfl | rfl | rfl <;> rfl

theorem readTagged_iff {tag : UInt8} {s t : Bytes} {c : Constant} :
    readTagged tag s = .ok (c, t) ↔ c.Valid ∧ tag :: s = c.write ++ t := by
  refine ⟨valid_of_readTagged, ?_⟩
  rintro ⟨hv, hs⟩
  cases c with
  | utf8 text =>
      obtain ⟨rfl, rfl⟩ := List.cons.inj hs
      exact bind_ok.2 ⟨_, _, u2_iff.2 (List.append_assoc ..),
        bind_ok.2 ⟨_, _, take_iff.2 ⟨eq_toNat16_iff.2 ⟨hv, rfl⟩, rfl⟩, rfl⟩⟩
  | «class» name =>
      obtain ⟨rfl, rfl⟩ := List.cons.inj hs
      exact bind_ok.2 ⟨_, _, u2_iff.2 rfl, rfl⟩
  | member tag owner signature =>
      obtain ⟨rfl, rfl⟩ := List.cons.inj hs
      have hread : readTagged tag = do return .member tag (← Reader.u2) (← Reader.u2) :=
        readTagged_member hv
      rw [hread]
      exact bind_ok.2 ⟨_, _, u2_iff.2 (List.append_assoc ..),
        bind_ok.2 ⟨_, _, u2_iff.2 rfl, rfl⟩⟩
  | nameAndType name descriptor =>
      obtain ⟨rfl, rfl⟩ := List.cons.inj hs
      exact bind_ok.2 ⟨_, _, u2_iff.2 (List.append_assoc ..),
        bind_ok.2 ⟨_, _, u2_iff.2 rfl, rfl⟩⟩
  | double tag body =>
      obtain ⟨rfl, rfl⟩ := List.cons.inj hs
      obtain ⟨rfl | rfl, hlen⟩ := hv
      · exact bind_ok.2 ⟨_, _, take_iff.2 ⟨hlen, rfl⟩, rfl⟩
      · exact bind_ok.2 ⟨_, _, take_iff.2 ⟨hlen, rfl⟩, rfl⟩
  | other tag body =>
      obtain ⟨rfl, rfl⟩ := List.cons.inj hs
      rw [readTagged_other hv]
      exact bind_ok.2 ⟨_, _, take_iff.2 ⟨rfl, rfl⟩, rfl⟩

def Cover (count : UInt16) : UInt16 → List (UInt16 × Constant) → Prop
  | index, [] => ¬ index < count
  | index, (slot, c) :: cs => index < count ∧ slot = index ∧ c.Valid ∧
      index.toNat + c.slots.toNat < 65536 ∧ Cover count (index + c.slots) cs

def writeAll (cs : List (UInt16 × Constant)) : Bytes := cs.flatMap (·.2.write)

theorem write_ne_nil (c : Constant) : c.write ≠ [] := by
  cases c <;> simp [write]

theorem readFrom_iff {count index : UInt16} {acc cs : List (UInt16 × Constant)} {s t : Bytes} :
    readFrom count index acc s = .ok (cs, t) ↔
      ∃ ds, cs = acc.reverse ++ ds ∧ Cover count index ds ∧ s = writeAll ds ++ t := by
  constructor
  · intro h
    fun_induction readFrom count index acc s with
    | case1 index acc hlt => cases h
    | case2 index acc hlt =>
        cases h
        exact ⟨[], by simp, hlt, rfl⟩
    | case3 index acc tag s hlt c r hc hnext ih =>
        obtain ⟨ds, rfl, hds, rfl⟩ := ih h
        obtain ⟨hv, hs⟩ := readTagged_iff.1 hc
        exact ⟨(index, c) :: ds, by simp, ⟨hlt, rfl, hv, hnext, hds⟩, by simpa [writeAll] using hs⟩
    | case4 index acc tag s hlt c r hc hnext => cases h
    | case5 index acc tag s hlt e he => cases h
    | case6 index acc tag s hlt =>
        cases h
        exact ⟨[], by simp, hlt, rfl⟩
  · rintro ⟨ds, rfl, hds, rfl⟩
    induction ds generalizing index acc with
    | nil =>
        rw [readFrom.eq_def]
        simp only [writeAll, List.flatMap_nil, List.nil_append, List.append_nil]
        split
        · rw [if_neg hds]
        · rw [if_neg hds]
    | cons d ds ih =>
        obtain ⟨slot, c⟩ := d
        obtain ⟨hlt, rfl, hv, hnext, hds⟩ := hds
        obtain ⟨tag, s, hs⟩ := List.exists_cons_of_ne_nil
          (List.append_ne_nil_of_left_ne_nil (write_ne_nil c) (writeAll ds ++ t))
        have hc : readTagged tag s = .ok (c, writeAll ds ++ t) := readTagged_iff.2 ⟨hv, hs.symm⟩
        have hw : writeAll ((slot, c) :: ds) ++ t = tag :: s := by
          rw [← hs]
          simp [writeAll]
        rw [hw, readFrom, if_pos hlt]
        have hrest := @ih _ ((slot, c) :: acc) hds
        split
        · rename_i c' r hc'
          obtain ⟨rfl, rfl⟩ := Prod.mk.inj (Except.ok.inj (hc.symm.trans hc'))
          rw [if_pos hnext]
          simpa using hrest
        · rename_i e he
          rw [hc] at he
          cases he

end Constant

namespace ConstantTable

def Valid (t : ConstantTable) : Prop := Constant.Cover t.count 1 t.constants

theorem read_iff : Inverts read write Valid := by
  intro s a t
  simp only [read, bind_ok, pure_ok, u2_iff, Constant.readFrom_iff]
  constructor
  · rintro ⟨v, u, rfl, cs, x, ⟨ds, rfl, hds, rfl⟩, rfl, rfl⟩
    exact ⟨hds, by simp [write, body, Constant.writeAll]⟩
  · rintro ⟨hv, rfl⟩
    exact ⟨_, _, List.append_assoc .., _, _, ⟨_, rfl, hv, rfl⟩, rfl, rfl⟩

end ConstantTable

namespace RawAttribute

def Valid (a : RawAttribute) : Prop := a.body.length < 4294967296

theorem read_iff : Inverts read write Valid := by
  intro s a t
  simp only [read, bind_ok, pure_ok, u2_iff, u4_iff, take_iff, eq_toNat32_iff]
  constructor
  · rintro ⟨name, u, rfl, v, x, rfl, body, y, ⟨⟨hn, rfl⟩, rfl⟩, rfl, rfl⟩
    exact ⟨hn, by simp [write, Bytes.ofNat32]⟩
  · rintro ⟨hv, rfl⟩
    refine ⟨_, _, ?_, _, _, rfl, _, _, ⟨⟨hv, rfl⟩, rfl⟩, rfl, rfl⟩
    simp [write, Bytes.ofNat32]

def AllValid (as : List RawAttribute) : Prop := as.length < 65536 ∧ ∀ a ∈ as, a.Valid

theorem counted_read_iff : Inverts (counted read) writeAll AllValid := counted_iff read_iff

end RawAttribute

namespace RawMember

def Valid (m : RawMember) : Prop := RawAttribute.AllValid m.attributes

theorem read_iff : Inverts read write Valid := by
  intro s a t
  simp only [read, bind_ok, pure_ok, u2_iff, RawAttribute.counted_read_iff]
  constructor
  · rintro ⟨access, u, rfl, name, x, rfl, descriptor, y, rfl, as, z, ⟨ha, rfl⟩, rfl, rfl⟩
    exact ⟨ha, by simp [write]⟩
  · rintro ⟨hv, rfl⟩
    refine ⟨_, _, ?_, _, _, rfl, _, _, rfl, _, _, ⟨hv, rfl⟩, rfl, rfl⟩
    simp [write]

def AllValid (ms : List RawMember) : Prop := ms.length < 65536 ∧ ∀ m ∈ ms, m.Valid

theorem counted_read_iff : Inverts (counted read) writeAll AllValid := counted_iff read_iff

end RawMember

theorem Reader.u2_inverts : Inverts u2 Bytes.ofUInt16 fun _ => True := by
  intro s a t
  rw [u2_iff, true_and]

namespace ClassFile

structure Valid (l : ClassFile) : Prop where
  pool : l.pool.Valid
  interfaces : l.interfaces.length < 65536
  fields : RawMember.AllValid l.fields
  methods : RawMember.AllValid l.methods
  attributes : RawAttribute.AllValid l.attributes

theorem reader_iff : Inverts reader write Valid := by
  intro s a t
  constructor
  · intro h
    obtain ⟨v, _, hv, hrest⟩ := bind_ok.1 h
    obtain rfl := u4_iff.1 hv
    by_cases hmagic : v = magic
    · subst hmagic
      simp only [bne_self_eq_false, Bool.false_eq_true, if_false, bind_ok, pure_ok, u2_iff,
        ConstantTable.read_iff, counted_iff u2_inverts, RawMember.counted_read_iff,
        RawAttribute.counted_read_iff] at hrest
      obtain ⟨minor, _, rfl, major, _, rfl, pool, _, ⟨hpool, rfl⟩, access, _, rfl, this, _, rfl,
        super, _, rfl, interfaces, _, ⟨⟨hi, -⟩, rfl⟩, fields, _, ⟨hf, rfl⟩, methods, _, ⟨hm, rfl⟩,
        as, _, ⟨ha, rfl⟩, rfl, rfl⟩ := hrest
      exact ⟨⟨hpool, hi, hf, hm, ha⟩, by simp [write]⟩
    · rw [if_pos (by simpa using hmagic)] at hrest
      cases hrest
  · rintro ⟨hv, rfl⟩
    refine bind_ok.2 ⟨magic, _, u4_iff.2 (by simp only [write, List.append_assoc]; rfl), ?_⟩
    simp only [bne_self_eq_false, Bool.false_eq_true, if_false, bind_ok, pure_ok, u2_iff,
      ConstantTable.read_iff, counted_iff u2_inverts, RawMember.counted_read_iff,
      RawAttribute.counted_read_iff]
    exact ⟨_, _, rfl, _, _, rfl, _, _, ⟨hv.pool, rfl⟩, _, _, rfl, _, _, rfl, _, _, rfl, _, _,
      ⟨⟨hv.interfaces, fun _ _ => trivial⟩, (List.append_assoc ..).symm⟩, _, _, ⟨hv.fields, rfl⟩,
      _, _, ⟨hv.methods, rfl⟩, _, _, ⟨hv.attributes, rfl⟩, rfl, rfl⟩

theorem read_iff {data : Bytes} {l : ClassFile} :
    read data = .ok l ↔ l.Valid ∧ data = l.write := by
  rw [read, all_iff, reader_iff, List.append_nil]

theorem read_append {l : ClassFile} {t : Bytes} (hl : l.Valid) (ht : t ≠ []) :
    read (l.write ++ t) = .error (.trailingBytes t.length) := by
  rw [read, Reader.all, reader_iff.write hl]
  cases t with
  | nil => exact absurd rfl ht
  | cons b t => rfl

end ClassFile

namespace RawHandler

theorem read_iff : Inverts read write fun _ => True := by
  intro s a t
  simp only [read, bind_ok, pure_ok, u2_iff, true_and]
  constructor
  · rintro ⟨x, _, rfl, y, _, rfl, z, _, rfl, w, _, rfl, rfl, rfl⟩
    simp [write]
  · rintro rfl
    refine ⟨_, _, ?_, _, _, rfl, _, _, rfl, _, _, rfl, rfl, rfl⟩
    simp [write]

end RawHandler

namespace CodeBody

structure Valid (c : CodeBody) : Prop where
  code : c.code.length < 4294967296
  handlers : c.handlers.length < 65536
  attributes : RawAttribute.AllValid c.attributes

theorem reader_iff : Inverts reader write Valid := by
  intro s a t
  simp only [reader, bind_ok, pure_ok, u2_iff, u4_iff, take_iff, eq_toNat32_iff,
    counted_iff RawHandler.read_iff, RawAttribute.counted_read_iff]
  constructor
  · rintro ⟨x, _, rfl, y, _, rfl, n, _, rfl, code, _, ⟨⟨hn, rfl⟩, rfl⟩, handlers, _,
      ⟨⟨hh, -⟩, rfl⟩, as, _, ⟨ha, rfl⟩, rfl, rfl⟩
    exact ⟨⟨hn, hh, ha⟩, by simp [write, Bytes.ofNat32]⟩
  · rintro ⟨hv, rfl⟩
    refine ⟨_, _, ?_, _, _, rfl, _, _, rfl, _, _, ⟨⟨hv.code, rfl⟩, rfl⟩, _, _,
      ⟨⟨hv.handlers, fun _ _ => trivial⟩, rfl⟩, _, _, ⟨hv.attributes, rfl⟩, rfl, rfl⟩
    simp [write, Bytes.ofNat32]

theorem read_iff {body : Bytes} {c : CodeBody} :
    read body = .ok c ↔ c.Valid ∧ body = c.write := by
  rw [read, all_iff, reader_iff, List.append_nil]

end CodeBody

end BytecodeMutation
