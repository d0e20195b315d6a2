import BytecodeMutation.Proofs.PoolGrowth

/-!
The walk over the constants of a pool by a slot counter of sixteen bits, and the one step at which
the counter would leave its range.
-/

namespace BytecodeMutation

namespace Constant

/-- The constants met from slot `index` on, each with its slot, and the bytes after them or the
fault that ends the walk. -/
def walk (count index : UInt16) : Bytes → List (UInt16 × Constant) × Except Fault Bytes
  | [] => if index < count then ([], .error .classTruncated) else ([], .ok [])
  | tag :: s =>
      if index < count then
        match _h : readTagged tag s with
        | .ok (c, r) =>
            if index.toNat + c.slots.toNat < 65536 then
              ((index, c) :: (walk count (index + c.slots) r).1,
                (walk count (index + c.slots) r).2)
            else ([(index, c)], .error .overflow)
        | .error e => ([], .error e)
      else ([], .ok (tag :: s))
  termination_by s => s.length
  decreasing_by
    all_goals
      have := length_readTagged _h
      simp only [List.length_cons]
      omega

def stop (d : UInt16 × Constant) : Nat := d.1.toNat + d.2.slots.toNat

def InRange (met : List (UInt16 × Constant)) : Prop := ∀ d ∈ met, stop d < 65536

variable {count index : UInt16} {tag : UInt8} {c : Constant} {r s : Bytes}

theorem walk_reached (h : ¬ index < count) : walk count index s = ([], .ok s) := by
  cases s with
  | nil => rw [walk, if_neg h]
  | cons tag s => rw [walk, if_neg h]

theorem walk_failed {e : Fault} (h : index < count) (he : readTagged tag s = .error e) :
    walk count index (tag :: s) = ([], .error e) := by
  rw [walk, if_pos h]
  split
  · rename_i hc
    cases he.symm.trans hc
  · rename_i he'
    cases he.symm.trans he'
    rfl

theorem walk_next (h : index < count) (hc : readTagged tag s = .ok (c, r))
    (hnext : index.toNat + c.slots.toNat < 65536) :
    walk count index (tag :: s) =
      ((index, c) :: (walk count (index + c.slots) r).1,
        (walk count (index + c.slots) r).2) := by
  rw [walk, if_pos h]
  split
  · rename_i hc'
    cases hc.symm.trans hc'
    rw [if_pos hnext]
  · rename_i he
    cases hc.symm.trans he

theorem walk_stopped (h : index < count) (hc : readTagged tag s = .ok (c, r))
    (hnext : ¬ index.toNat + c.slots.toNat < 65536) :
    walk count index (tag :: s) = ([(index, c)], .error .overflow) := by
  rw [walk, if_pos h]
  split
  · rename_i hc'
    cases hc.symm.trans hc'
    rw [if_neg hnext]
  · rename_i he
    cases hc.symm.trans he

theorem readFrom_eq_walk (count index : UInt16) (acc : List (UInt16 × Constant)) (s : Bytes) :
    readFrom count index acc s =
      (walk count index s).2.map fun r => (acc.reverse ++ (walk count index s).1, r) := by
  fun_induction readFrom count index acc s with
  | case1 index acc hlt => rw [walk, if_pos hlt]; rfl
  | case2 index acc hlt => rw [walk_reached hlt, List.append_nil]; rfl
  | case3 index acc tag s hlt c r hc hnext ih => rw [ih, walk_next hlt hc hnext]; simp
  | case4 index acc tag s hlt c r hc hnext => rw [walk_stopped hlt hc hnext]; rfl
  | case5 index acc tag s hlt e he => rw [walk_failed hlt he]; rfl
  | case6 index acc tag s hlt => rw [walk_reached hlt, List.append_nil]; rfl

theorem walk_writeAll {cs : List (UInt16 × Constant)} (h : Cover count index cs) (t : Bytes) :
    walk count index (writeAll cs ++ t) = (cs, .ok t) := by
  have hread : readFrom count index [] (writeAll cs ++ t) = .ok (cs, t) :=
    readFrom_iff.2 ⟨cs, rfl, h, rfl⟩
  rw [readFrom_eq_walk] at hread
  cases hw : walk count index (writeAll cs ++ t) with
  | mk met ending =>
      rw [hw] at hread
      cases ending with
      | error e => cases hread
      | ok r =>
          obtain ⟨rfl, rfl⟩ := Prod.mk.inj (Except.ok.inj hread)
          rfl

theorem fails_readTagged (tag : UInt8) : (readTagged tag).Fails := by
  have hword := Reader.fails_u2
  unfold readTagged
  split
  · exact hword.bind fun _ => (Reader.fails_take _).bind fun _ => .pure _
  split
  · exact (Reader.fails_take 8).bind fun _ => .pure _
  split
  · exact hword.bind fun _ => .pure _
  split
  · exact hword.bind fun _ => hword.bind fun _ => .pure _
  split
  · exact hword.bind fun _ => hword.bind fun _ => .pure _
  split
  · exact (Reader.fails_take _).bind fun _ => .pure _
  · exact fun _ => nofun

theorem slots_toNat (c : Constant) : c.slots.toNat = 1 ∨ c.slots.toNat = 2 := by
  cases c <;> simp [slots]

theorem stop_lt_iff {d : UInt16 × Constant} (h : d.1 < count) :
    stop d < 65536 ↔ (d.1 = 65534 → d.2.slots = 1) := by
  have hcount := count.toNat_lt
  have hslots := slots_toNat d.2
  rw [UInt16.lt_iff_toNat_lt] at h
  simp only [stop, ← UInt16.toNat_inj, UInt16.reduceToNat]
  omega

theorem walk_lt_count (count index : UInt16) (s : Bytes) :
    ∀ d ∈ (walk count index s).1, d.1 < count := by
  fun_induction walk count index s with
  | case1 | case2 | case5 | case6 => simp
  | case3 index tag s hlt c r hc hnext ih => exact List.forall_mem_cons.2 ⟨hlt, ih⟩
  | case4 index tag s hlt c r hc hnext => exact List.forall_mem_singleton.2 hlt

theorem inRange_walk_iff (count index : UInt16) (s : Bytes) :
    InRange (walk count index s).1 ↔
      ∀ c, (65534, c) ∈ (walk count index s).1 → c.slots = 1 := by
  have hlt := walk_lt_count count index s
  constructor
  · exact fun h c hc => (stop_lt_iff (hlt _ hc)).1 (h _ hc) rfl
  · rintro h ⟨slot, c⟩ hd
    refine (stop_lt_iff (hlt _ hd)).2 ?_
    rintro rfl
    exact h c hd

theorem slot_eq_of_append {pre post : List (UInt16 × Constant)} {d : UInt16 × Constant}
    (heq : (walk count index s).1 = pre ++ d :: post) :
    d.1.toNat = index.toNat + slotCount pre := by
  fun_induction walk count index s generalizing pre with
  | case1 | case2 | case5 | case6 => simp at heq
  | case3 index tag s hlt c r hc hnext ih =>
      cases pre with
      | nil =>
          obtain ⟨rfl, -⟩ := List.cons.inj heq
          rfl
      | cons p pre =>
          obtain ⟨rfl, htail⟩ := List.cons.inj heq
          rw [ih htail, toNat_add_slots hnext, slotCount_cons, Nat.add_assoc]
  | case4 index tag s hlt c r hc hnext =>
      cases pre with
      | nil =>
          obtain ⟨rfl, -⟩ := List.cons.inj heq
          rfl
      | cons p pre => simp at heq

theorem index_le_of_mem {d : UInt16 × Constant} (hd : d ∈ (walk count index s).1) :
    index.toNat ≤ d.1.toNat := by
  obtain ⟨pre, post, heq⟩ := List.append_of_mem hd
  have := slot_eq_of_append heq
  omega

theorem pairwise_walk (count index : UInt16) (s : Bytes) :
    (walk count index s).1.Pairwise fun d e => d.1 < e.1 := by
  fun_induction walk count index s with
  | case1 | case2 | case4 | case5 | case6 => simp
  | case3 index tag s hlt c r hc hnext ih =>
      refine List.pairwise_cons.2 ⟨fun d hd => ?_, ih⟩
      have hle := index_le_of_mem hd
      have hslots := slots_toNat c
      rw [toNat_add_slots hnext] at hle
      show index < d.1
      rw [UInt16.lt_iff_toNat_lt]
      omega

theorem count_le_of_walk (hr : (walk count index s).2 = .ok r) :
    count.toNat ≤ index.toNat + slotCount (walk count index s).1 := by
  fun_induction walk count index s with
  | case1 | case4 | case5 => cases hr
  | case2 index hlt => simpa [slotCount, UInt16.lt_iff_toNat_lt] using hlt
  | case6 index tag s hlt => simpa [slotCount, UInt16.lt_iff_toNat_lt] using hlt
  | case3 index tag s hlt c r hc hnext ih =>
      have hle := ih hr
      rw [toNat_add_slots hnext] at hle
      rw [slotCount_cons]
      omega

theorem walk_overflow_iff (count index : UInt16) (s : Bytes) :
    (walk count index s).2 = .error .overflow ↔ ¬ InRange (walk count index s).1 := by
  fun_induction walk count index s with
  | case1 | case2 | case6 => simp [InRange]
  | case5 index tag s hlt e he =>
      have hne : e ≠ .overflow := fun h => fails_readTagged tag s (h ▸ he)
      simp [InRange, hne]
  | case3 index tag s hlt c r hc hnext ih =>
      rw [ih, InRange, InRange, List.forall_mem_cons, not_and_or]
      exact ⟨.inr, fun h => h.resolve_left (not_not.2 hnext)⟩
  | case4 index tag s hlt c r hc hnext =>
      have hout : ¬ InRange [(index, c)] := fun h => hnext (h _ List.mem_cons_self)
      exact iff_of_true rfl hout

theorem exists_of_not_inRange (h : ¬ InRange (walk count 1 s).1) :
    count = 65535 ∧ ∃ c, (65534, c) ∈ (walk count 1 s).1 ∧ c.slots = 2 := by
  rw [inRange_walk_iff, not_forall] at h
  obtain ⟨c, hc⟩ := h
  obtain ⟨hmem, hslots⟩ := Classical.not_imp.1 hc
  have hlt := UInt16.lt_iff_toNat_lt.1 (walk_lt_count count 1 s _ hmem)
  have hcount := count.toNat_lt
  have htwo := slots_toNat c
  simp only [← UInt16.toNat_inj, UInt16.reduceToNat] at hlt hslots ⊢
  exact ⟨by omega, c, hmem, by omega⟩

/-- A walk from slot one that visits each slot at most once, in increasing order. While the counter
is in range it ends at the count or fails, else it stops the program. -/
structure Orderly (count : UInt16) (w : List (UInt16 × Constant) × Except Fault Bytes) : Prop where
  increasing : w.1.Pairwise fun d e => d.1 < e.1
  within : ∀ d ∈ w.1, 0 < d.1 ∧ d.1 < count
  exact : ∀ pre d post, w.1 = pre ++ d :: post → d.1.toNat = 1 + slotCount pre
  ends : InRange w.1 → (∃ e, e ≠ .overflow ∧ w.2 = .error e) ∨
    (∃ r, w.2 = .ok r) ∧ count.toNat ≤ 1 + slotCount w.1
  stops : ¬ InRange w.1 → w.2 = .error .overflow

theorem orderly_walk (count : UInt16) (s : Bytes) : Orderly count (walk count 1 s) where
  increasing := pairwise_walk count 1 s
  within d hd := by
    refine ⟨?_, walk_lt_count count 1 s d hd⟩
    have hle := index_le_of_mem hd
    rw [UInt16.lt_iff_toNat_lt]
    simp only [UInt16.reduceToNat] at hle ⊢
    omega
  exact _ _ _ heq := slot_eq_of_append heq
  ends hin := by
    cases hr : (walk count 1 s).2 with
    | error e =>
        refine .inl ⟨e, ?_, rfl⟩
        rintro rfl
        exact (walk_overflow_iff count 1 s).1 hr hin
    | ok r => exact .inr ⟨⟨r, rfl⟩, count_le_of_walk hr⟩
  stops := (walk_overflow_iff count 1 s).2

end Constant

namespace ClassFile

def preamble (minor major count : UInt16) : Bytes :=
  Bytes.ofUInt32 magic ++ Bytes.ofUInt16 minor ++ Bytes.ofUInt16 major ++ Bytes.ofUInt16 count

variable {minor major count : UInt16} {s : Bytes} {l : ClassFile}

theorem fails_attributes : (Reader.counted RawAttribute.read).Fails :=
  (Reader.fails_u2.bind fun _ => Reader.fails_u4.bind fun _ =>
    (Reader.fails_take _).bind fun _ => .pure _).counted

theorem fails_members : (Reader.counted RawMember.read).Fails :=
  (Reader.fails_u2.bind fun _ => Reader.fails_u2.bind fun _ => Reader.fails_u2.bind fun _ =>
    fails_attributes.bind fun _ => .pure _).counted

theorem reader_preamble (minor major count : UInt16) (s : Bytes) :
    ∃ f : ConstantTable → Reader ClassFile,
      reader (preamble minor major count ++ s)
        = (ConstantTable.read >>= f) (Bytes.ofUInt16 count ++ s) ∧
      (∀ pool t l r, f pool t = .ok (l, r) → l.pool = pool) ∧ ∀ pool, (f pool).Fails := by
  simp only [preamble, List.append_assoc]
  rw [reader, Reader.bind_of_ok (Reader.u4_ofUInt32 ..)]
  simp only [bne_self_eq_false, Bool.false_eq_true, if_false]
  rw [Reader.bind_of_ok (Reader.u2_ofUInt16 ..), Reader.bind_of_ok (Reader.u2_ofUInt16 ..)]
  refine ⟨_, rfl, fun pool t l r hl => ?_, fun pool => ?_⟩
  · simp only [Reader.bind_ok, Reader.pure_ok] at hl
    obtain ⟨_, _, -, _, _, -, _, _, -, _, _, -, _, _, -, _, _, -, _, _, -, rfl, -⟩ := hl
    rfl
  · have hword := Reader.fails_u2
    exact hword.bind fun _ => hword.bind fun _ => hword.bind fun _ => hword.counted.bind fun _ =>
      fails_members.bind fun _ => fails_members.bind fun _ => fails_attributes.bind fun _ =>
        .pure _

theorem read_table (count : UInt16) (s : Bytes) :
    ConstantTable.read (Bytes.ofUInt16 count ++ s) =
      (Constant.walk count 1 s).2.map fun r => (⟨count, (Constant.walk count 1 s).1⟩, r) := by
  rw [ConstantTable.read, Reader.bind_of_ok (Reader.u2_ofUInt16 ..)]
  cases hr : (Constant.walk count 1 s).2 with
  | error e =>
      refine Reader.bind_of_error ?_
      rw [Constant.readFrom_eq_walk, hr]
      rfl
  | ok r =>
      refine Reader.bind_of_ok ?_
      rw [Constant.readFrom_eq_walk, hr]
      rfl

theorem exists_preamble {data : Bytes} (h : read data = .ok l) :
    ∃ s, data = preamble l.minor l.major l.pool.count ++ s := by
  obtain ⟨-, rfl⟩ := read_iff.1 h
  exact ⟨_, by simp only [write, ConstantTable.write, preamble, List.append_assoc]; rfl⟩

theorem read_of_walk_error {e : Fault} (h : (Constant.walk count 1 s).2 = .error e) :
    read (preamble minor major count ++ s) = .error e := by
  obtain ⟨f, hf, -⟩ := reader_preamble minor major count s
  have hpool : ConstantTable.read (Bytes.ofUInt16 count ++ s) = .error e := by
    rw [read_table, h]
    rfl
  rw [read, Reader.all, hf, Reader.bind_of_error hpool]

theorem walk_of_read (h : read (preamble minor major count ++ s) = .ok l) :
    l.pool = ⟨count, (Constant.walk count 1 s).1⟩ ∧ ∃ r, (Constant.walk count 1 s).2 = .ok r := by
  obtain ⟨f, hf, hpool, -⟩ := reader_preamble minor major count s
  have hreader := Reader.all_iff.1 h
  rw [hf] at hreader
  obtain ⟨pool, t, hread, hrest⟩ := Reader.bind_ok.1 hreader
  rw [read_table] at hread
  cases hr : (Constant.walk count 1 s).2 with
  | error e =>
      rw [hr] at hread
      cases hread
  | ok r =>
      rw [hr] at hread
      obtain ⟨rfl, rfl⟩ := Prod.mk.inj (Except.ok.inj hread)
      exact ⟨hpool _ _ _ _ hrest, r, rfl⟩

theorem reader_of_read_overflow {data : Bytes} (h : read data = .error .overflow) :
    reader data = .error .overflow := by
  unfold read Reader.all at h
  split at h
  · cases h
  · cases h
  · rename_i he
    exact he.trans (congrArg Except.error (Except.error.inj h))

theorem read_overflow_iff (minor major count : UInt16) (s : Bytes) :
    read (preamble minor major count ++ s) = .error .overflow ↔
      (Constant.walk count 1 s).2 = .error .overflow := by
  refine ⟨fun h => ?_, read_of_walk_error⟩
  obtain ⟨f, hf, -, hfails⟩ := reader_preamble minor major count s
  have hreader := reader_of_read_overflow h
  rw [hf] at hreader
  rcases Reader.bind_error.1 hreader with hpool | ⟨pool, t, -, hrest⟩
  · rw [read_table] at hpool
    exact Result.map_error.1 hpool
  · exact absurd hrest (hfails pool t)

theorem exists_preamble_of_overflow {data : Bytes} (h : read data = .error .overflow) :
    ∃ minor major count s, data = preamble minor major count ++ s := by
  have hreader := reader_of_read_overflow h
  obtain hv | ⟨v, t, hv, hrest⟩ := Reader.bind_error.1 hreader
  · exact absurd hv (Reader.fails_u4 data)
  by_cases hmagic : v = magic
  · subst hmagic
    simp only [bne_self_eq_false, Bool.false_eq_true, if_false] at hrest
    obtain hminor | ⟨minor, t₁, hminor, hrest⟩ := Reader.bind_error.1 hrest
    · exact absurd hminor (Reader.fails_u2 t)
    obtain hmajor | ⟨major, t₂, hmajor, hrest⟩ := Reader.bind_error.1 hrest
    · exact absurd hmajor (Reader.fails_u2 t₁)
    have hcount : ∃ count s, Reader.u2 t₂ = .ok (count, s) := by
      cases hu : Reader.u2 t₂ with
      | ok p => exact ⟨p.1, p.2, rfl⟩
      | error e =>
          have hpool : ConstantTable.read t₂ = .error e := Reader.bind_of_error hu
          rw [Reader.bind_of_error hpool] at hrest
          cases hrest
          exact absurd hu (Reader.fails_u2 t₂)
    obtain ⟨count, s, hu⟩ := hcount
    rw [Reader.u2_iff] at hminor hmajor hu
    exact ⟨minor, major, count, s, by
      rw [Reader.u4_iff.1 hv, hminor, hmajor, hu]
      simp only [preamble, List.append_assoc]⟩
  · rw [if_pos (by simpa using hmagic)] at hrest
    cases hrest

/-- A class file is read by a walk over its constants that visits slots in increasing order. Its
counter stays in range unless a constant of two slots stands in slot 65534, and there, and only
there, reading the file stops the program. -/
theorem slot_counter_in_range_iff (data : Bytes) :
    (∀ l, read data = .ok l → ∃ s, data = preamble l.minor l.major l.pool.count ++ s) ∧
    (read data = .error .overflow → ∃ minor major s, data = preamble minor major 65535 ++ s ∧
      ∃ c, (65534, c) ∈ (Constant.walk 65535 1 s).1 ∧ c.slots = 2) ∧
    ∀ minor major count s, data = preamble minor major count ++ s →
      (∀ e, (Constant.walk count 1 s).2 = .error e → read data = .error e) ∧
      (∀ l, read data = .ok l →
        l.pool = ⟨count, (Constant.walk count 1 s).1⟩ ∧
          ∃ r, (Constant.walk count 1 s).2 = .ok r) ∧
      Constant.Orderly count (Constant.walk count 1 s) ∧
      (Constant.InRange (Constant.walk count 1 s).1 ↔
        ∀ c, (65534, c) ∈ (Constant.walk count 1 s).1 → c.slots = 1) ∧
      (read data = .error .overflow ↔ ¬ Constant.InRange (Constant.walk count 1 s).1) := by
  refine ⟨fun _ => exists_preamble, fun h => ?_, ?_⟩
  · obtain ⟨minor, major, count, s, rfl⟩ := exists_preamble_of_overflow h
    obtain ⟨rfl, c, hc, hslots⟩ := Constant.exists_of_not_inRange
      ((Constant.walk_overflow_iff count 1 s).1 ((read_overflow_iff minor major count s).1 h))
    exact ⟨minor, major, s, rfl, c, hc, hslots⟩
  · rintro minor major count s rfl
    exact ⟨fun _ => read_of_walk_error, fun _ => walk_of_read, Constant.orderly_walk count s,
      Constant.inRange_walk_iff count 1 s,
      (read_overflow_iff minor major count s).trans (Constant.walk_overflow_iff count 1 s)⟩

end ClassFile

namespace Specimen

def emptyStrings (index : UInt16) : Nat → List (UInt16 × Constant)
  | 0 => []
  | n + 1 => (index, .utf8 []) :: emptyStrings (index + 1) n

theorem slotCount_emptyStrings (index : UInt16) (n : Nat) :
    Constant.slotCount (emptyStrings index n) = n := by
  induction n generalizing index with
  | zero => rfl
  | succ n ih => rw [emptyStrings, Constant.slotCount_cons, ih, Nat.add_comm]; rfl

theorem cover_emptyStrings {count index : UInt16} {n : Nat}
    (h : index.toNat + n = count.toNat) : Constant.Cover count index (emptyStrings index n) := by
  induction n generalizing index with
  | zero =>
      show ¬ index < count
      rw [UInt16.lt_iff_toNat_lt]
      omega
  | succ n ih =>
      have hcount := count.toNat_lt
      have hlt : index < count := by
        rw [UInt16.lt_iff_toNat_lt]
        omega
      have hsum : index.toNat + (Constant.utf8 []).slots.toNat < 65536 := by
        show index.toNat + 1 < 65536
        omega
      have hrest : Constant.Cover count (index + (Constant.utf8 []).slots)
          (emptyStrings (index + 1) n) := by
        refine ih ?_
        rw [Constant.toNat_add_slots hsum]
        show index.toNat + 1 + n = count.toNat
        omega
      exact ⟨hlt, rfl, Nat.zero_lt_succ _, hsum, hrest⟩

def brimming : List (UInt16 × Constant) :=
  emptyStrings 1 65532 ++ [(65533, .double 5 (List.replicate 8 0))]

theorem cover_brimming : Constant.Cover 65535 1 brimming := by
  have hlow : Constant.Cover 65533 1 (emptyStrings 1 65532) := cover_emptyStrings rfl
  have hlast : Constant.Cover 65535 65533 [(65533, .double 5 (List.replicate 8 0))] :=
    ⟨by decide, rfl, ⟨.inl rfl, rfl⟩, by decide, UInt16.lt_irrefl 65535⟩
  refine Constant.cover_append hlow ?_ hlast (by decide)
  rw [slotCount_emptyStrings]
  rfl

theorem ending_emptyStrings {count index : UInt16} {n : Nat} (t : Bytes)
    (h : index.toNat + n ≤ count.toNat) :
    (Constant.walk count index (Constant.writeAll (emptyStrings index n) ++ t)).2
      = (Constant.walk count (index + .ofNat n) t).2 := by
  induction n generalizing index with
  | zero => exact congrArg (fun k => (Constant.walk count k t).2) (UInt16.add_zero index).symm
  | succ n ih =>
      have hcount := count.toNat_lt
      have hlt : index < count := by
        rw [UInt16.lt_iff_toNat_lt]
        omega
      have hsum : index.toNat + (Constant.utf8 []).slots.toNat < 65536 := by
        show index.toNat + 1 < 65536
        omega
      have hnext : (index + (Constant.utf8 []).slots).toNat + n ≤ count.toNat := by
        rw [Constant.toNat_add_slots hsum]
        show index.toNat + 1 + n ≤ count.toNat
        omega
      have hread : Constant.readTagged 1
          (0 :: 0 :: (Constant.writeAll (emptyStrings (index + 1) n) ++ t))
          = .ok (.utf8 [], Constant.writeAll (emptyStrings (index + 1) n) ++ t) := rfl
      have hslot : index + 1 + UInt16.ofNat n = index + UInt16.ofNat (n + 1) := by
        rw [UInt16.ofNat_add, UInt16.add_assoc, UInt16.add_comm 1]
        rfl
      have hwalk := Constant.walk_next hlt hread hsum
      rw [← hslot]
      exact (congrArg Prod.snd hwalk).trans (ih hnext)

def overrunning : Bytes :=
  Constant.writeAll (emptyStrings 1 65533) ++ (5 :: (List.replicate 8 0 ++ ([1, 0, 17]
    ++ List.replicate 10 0 ++ [1, 0, 1, 0, 3, 0, 8] ++ Constant.writeAll (emptyStrings 1 65534)
    ++ [0, 33, 0, 2, 0, 4, 0, 0, 0, 0, 0, 0, 0, 0])))

theorem walk_overrunning : (Constant.walk 65535 1 overrunning).2 = .error .overflow := by
  have hread : ∀ r, Constant.readTagged 5 (List.replicate 8 0 ++ r)
      = .ok (.double 5 (List.replicate 8 0), r) := fun r =>
    Constant.readTagged_iff.2 ⟨⟨.inl rfl, rfl⟩, rfl⟩
  rw [overrunning, ending_emptyStrings _ (by decide)]
  exact congrArg Prod.snd (Constant.walk_stopped (by decide) (hread _) (by decide))

end Specimen

theorem ClassFile.slot_counter_in_range_brimming :
    Constant.walk 65535 1 (Constant.writeAll Specimen.brimming) = (Specimen.brimming, .ok []) ∧
    Constant.InRange Specimen.brimming ∧ Constant.Orderly 65535 (Specimen.brimming, .ok []) := by
  have hwalk := Constant.walk_writeAll Specimen.cover_brimming []
  rw [List.append_nil] at hwalk
  obtain ⟨-, -, hsteps⟩ := slot_counter_in_range_iff
    (preamble 0 50 65535 ++ Constant.writeAll Specimen.brimming)
  obtain ⟨-, -, horderly, -, -⟩ := hsteps 0 50 65535 _ rfl
  rw [hwalk] at horderly
  refine ⟨hwalk, not_not.1 fun h => ?_, horderly⟩
  cases horderly.stops h

theorem ClassFile.read_overrunning :
    read (preamble 0 50 65535 ++ Specimen.overrunning) = .error .overflow ∧
    ¬ Constant.InRange (Constant.walk 65535 1 Specimen.overrunning).1 :=
  ⟨read_of_walk_error Specimen.walk_overrunning,
    (Constant.walk_overflow_iff 65535 1 Specimen.overrunning).1 Specimen.walk_overrunning⟩

end BytecodeMutation
