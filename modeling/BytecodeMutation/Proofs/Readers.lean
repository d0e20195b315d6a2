import BytecodeMutation.Reader

namespace BytecodeMutation

namespace Reader

variable {α β : Type}

abbrev Inverts (r : Reader α) (w : α → Bytes) (valid : α → Prop) : Prop :=
  ∀ {s a t}, r s = .ok (a, t) ↔ valid a ∧ s = w a ++ t

variable {r : Reader α} {w : α → Bytes} {valid : α → Prop} {s t : Bytes}

theorem Inverts.write {a : α} (h : Inverts r w valid) (ha : valid a) (t : Bytes) :
    r (w a ++ t) = .ok (a, t) :=
  h.2 ⟨ha, rfl⟩

theorem bind_of_ok {x : Reader α} {f : α → Reader β} {a : α} (h : x s = .ok (a, t)) :
    (x >>= f) s = f a t := by
  show Except.bind (x s) _ = _
  rw [h]
  rfl

theorem bind_of_error {x : Reader α} {f : α → Reader β} {e : Fault} (h : x s = .error e) :
    (x >>= f) s = .error e := by
  show Except.bind (x s) _ = _
  rw [h]
  rfl

theorem bind_error {x : Reader α} {f : α → Reader β} {e : Fault} :
    (x >>= f) s = .error e ↔ x s = .error e ∨ ∃ a t, x s = .ok (a, t) ∧ f a t = .error e := by
  show Except.bind (x s) _ = _ ↔ _
  cases x s with
  | error e' => simp [Except.bind]
  | ok p =>
      obtain ⟨a, t⟩ := p
      simp only [Except.bind, reduceCtorEq, false_or, Except.ok.injEq, Prod.mk.injEq]
      exact ⟨fun h => ⟨a, t, ⟨rfl, rfl⟩, h⟩, fun ⟨_, _, ⟨ha, ht⟩, h⟩ => ha ▸ ht ▸ h⟩

theorem u1_iff {b : UInt8} : u1 s = .ok (b, t) ↔ s = b :: t := by
  cases s with
  | nil => simp [u1]
  | cons c s => simp [u1, eq_comm]

theorem u2_iff {v : UInt16} : u2 s = .ok (v, t) ↔ s = Bytes.ofUInt16 v ++ t := by
  constructor
  · intro h
    unfold u2 at h
    split at h
    · cases h
      rw [Bytes.ofUInt16_word16]
      rfl
    · cases h
  · rintro rfl
    exact u2_ofUInt16 v t

theorem u4_iff {v : UInt32} : u4 s = .ok (v, t) ↔ s = Bytes.ofUInt32 v ++ t := by
  constructor
  · intro h
    unfold u4 at h
    split at h
    · cases h
      rw [Bytes.ofUInt32_word32]
      rfl
    · cases h
  · rintro rfl
    exact u4_ofUInt32 v t

theorem take_iff {n : Nat} {a : Bytes} : take n s = .ok (a, t) ↔ a.length = n ∧ s = a ++ t := by
  constructor
  · intro h
    unfold take at h
    split at h
    · rename_i p hp
      cases h
      exact (Bytes.append_of_split? hp).symm
    · cases h
  · rintro ⟨rfl, rfl⟩
    exact take_append a t

theorem skip_iff {n : Nat} {u : Unit} :
    skip n s = .ok (u, t) ↔ ∃ a : Bytes, a.length = n ∧ s = a ++ t := by
  constructor
  · intro h
    cases ht : take n s with
    | error e =>
        rw [skip, ht] at h
        cases h
    | ok p =>
        rw [skip, ht] at h
        cases h
        exact ⟨p.1, take_iff.1 ht⟩
  · rintro ⟨a, ha⟩
    rw [skip, take_iff.2 ha]
    rfl

theorem timesAfter_iff (h : Inverts r w valid) {n : Nat} {acc as : List α} :
    timesAfter r n acc s = .ok (as, t) ↔
      ∃ bs, as = acc.reverse ++ bs ∧ bs.length = n ∧ (∀ b ∈ bs, valid b) ∧
        s = bs.flatMap w ++ t := by
  induction n generalizing acc s with
  | zero =>
      simp only [timesAfter, Except.ok.injEq, Prod.mk.injEq, List.length_eq_zero_iff]
      constructor
      · rintro ⟨rfl, rfl⟩
        exact ⟨[], by simp⟩
      · rintro ⟨_, rfl, rfl, -, rfl⟩
        simp
  | succ n ih =>
      constructor
      · intro hr
        unfold timesAfter at hr
        split at hr
        · rename_i a u ha
          obtain ⟨hv, rfl⟩ := h.1 ha
          obtain ⟨bs, rfl, rfl, hbs, rfl⟩ := ih.1 hr
          exact ⟨a :: bs, by simp, rfl, List.forall_mem_cons.2 ⟨hv, hbs⟩, by simp⟩
        · cases hr
      · rintro ⟨bs, rfl, hn, hbs, rfl⟩
        obtain ⟨b, bs, rfl⟩ := List.exists_cons_of_length_eq_add_one hn
        obtain ⟨hb, hbs⟩ := List.forall_mem_cons.1 hbs
        simp only [timesAfter, List.flatMap_cons, List.append_assoc, h.write hb]
        exact ih.2 ⟨bs, by simp, by simpa using hn, hbs, rfl⟩

theorem times_iff (h : Inverts r w valid) {n : Nat} {as : List α} :
    times n r s = .ok (as, t) ↔
      as.length = n ∧ (∀ a ∈ as, valid a) ∧ s = as.flatMap w ++ t := by
  simp only [times, timesAfter_iff h, List.reverse_nil, List.nil_append, exists_eq_left']

theorem eq_toNat16_iff {v : UInt16} {n : Nat} : n = v.toNat ↔ n < 65536 ∧ v = .ofNat n := by
  constructor
  · rintro rfl
    exact ⟨v.toNat_lt, UInt16.ofNat_toNat.symm⟩
  · rintro ⟨hn, rfl⟩
    rw [UInt16.toNat_ofNat', Nat.mod_eq_of_lt hn]

theorem eq_toNat32_iff {v : UInt32} {n : Nat} : n = v.toNat ↔ n < 4294967296 ∧ v = .ofNat n := by
  constructor
  · rintro rfl
    exact ⟨v.toNat_lt, UInt32.ofNat_toNat.symm⟩
  · rintro ⟨hn, rfl⟩
    rw [UInt32.toNat_ofNat', Nat.mod_eq_of_lt hn]

theorem counted_iff (h : Inverts r w valid) : Inverts (counted r)
    (fun as => Bytes.ofNat16 as.length ++ as.flatMap w)
    (fun as => as.length < 65536 ∧ ∀ a ∈ as, valid a) := by
  intro s as t
  simp only [counted, bind_ok, u2_iff, times_iff h, eq_toNat16_iff]
  constructor
  · rintro ⟨v, u, rfl, ⟨hn, rfl⟩, hv, rfl⟩
    exact ⟨⟨hn, hv⟩, by simp [Bytes.ofNat16]⟩
  · rintro ⟨⟨hn, hv⟩, rfl⟩
    exact ⟨_, _, List.append_assoc .., ⟨hn, rfl⟩, hv, rfl⟩

/-- A reader that fails on some bytes, but never stops the program. -/
def Fails (r : Reader α) : Prop := ∀ s, r s ≠ .error .overflow

theorem Fails.pure (a : α) : Fails (pure a : Reader α) := nofun

theorem Fails.bind {x : Reader α} {f : α → Reader β} (hx : x.Fails) (hf : ∀ a, (f a).Fails) :
    (x >>= f).Fails := by
  intro s h
  rcases bind_error.1 h with h | ⟨a, t, -, h⟩
  · exact hx s h
  · exact hf a t h

theorem fails_u2 : u2.Fails := by
  intro s h
  unfold u2 at h
  split at h <;> cases h

theorem fails_u4 : u4.Fails := by
  intro s h
  unfold u4 at h
  split at h <;> cases h

theorem fails_take (n : Nat) : (take n).Fails := by
  intro s h
  unfold take at h
  split at h <;> cases h

theorem Fails.counted (h : r.Fails) : (counted r).Fails := by
  refine fails_u2.bind fun v s => ?_
  have hafter : ∀ n (acc : List α), (timesAfter r n acc).Fails := by
    intro n
    induction n with
    | zero => exact fun _ _ => nofun
    | succ n ih =>
        intro acc s he
        unfold timesAfter at he
        split at he
        · exact ih _ _ he
        · rename_i e hr
          cases he
          exact h s hr
  exact hafter v.toNat [] s

theorem all_iff {left : Nat → Fault} {a : α} : all r left s = .ok a ↔ r s = .ok (a, []) := by
  unfold all
  split <;> simp_all

end Reader

end BytecodeMutation
