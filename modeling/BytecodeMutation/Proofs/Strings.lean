import BytecodeMutation.Text.ModifiedUtf8

namespace BytecodeMutation.Text

variable {a b d e f : UInt8} {s r : Bytes} {c : Char} {acc cs ds : List Char} {n : Nat}

theorem toNat_ofNat (h : n < 256) : (UInt8.ofNat n).toNat = n := by
  rw [UInt8.toNat_ofNat', Nat.mod_eq_of_lt h]

theorem isContinuation_of_toNat (hn : n < 64) (h : b.toNat = 0x80 + n) :
    isContinuation b = true := by
  simp only [isContinuation, UInt8.le_iff_toNat_le, UInt8.reduceToNat, Bool.and_eq_true,
    decide_eq_true_eq]
  omega

theorem low6_of_toNat (h : b.toNat = 0x80 + n) : low6 b = n := by
  unfold low6
  omega

theorem two_of_toNat (ha : a.toNat = 0xc0 + n / 64) (hb : b.toNat = 0x80 + n % 64) :
    two a b = n := by
  have hlow := low6_of_toNat hb
  unfold two
  omega

theorem three_of_toNat (ha : a.toNat = 0xe0 + n / 4096) (hb : b.toNat = 0x80 + n / 64 % 64)
    (hd : d.toNat = 0x80 + n % 64) : three a b d = n := by
  have hlow := low6_of_toNat hb
  have hlow' := low6_of_toNat hd
  unfold three
  omega

theorem not_ascii (h : 0xc0 ≤ a.toNat) : ¬ (a == 0) = true ∧ ¬ a < 0x80 := by
  simp only [beq_iff_eq, ← UInt8.toNat_inj, UInt8.lt_iff_toNat_lt, UInt8.reduceToNat]
  omega

theorem ne_c0 (h : 0xc2 ≤ a.toNat) : ¬ (a == 0xc0) = true := by
  simp only [beq_iff_eq, ← UInt8.toNat_inj, UInt8.reduceToNat]
  omega

theorem modifiedChar?_one (h : a.toNat ≠ 0) (h' : a.toNat < 0x80) (s : Bytes) :
    modifiedChar? a s = some (.ofNat a.toNat, s) := by
  have hzero : ¬ (a == 0) = true := by
    simp only [beq_iff_eq, ← UInt8.toNat_inj, UInt8.reduceToNat]
    exact h
  unfold modifiedChar?
  rw [if_neg hzero, if_pos (UInt8.lt_iff_toNat_lt.2 h')]

theorem modifiedChar?_two (h : 0xc2 ≤ a.toNat) (h' : a.toNat ≤ 0xdf)
    (hb : isContinuation b = true) (s : Bytes) :
    modifiedChar? a (b :: s) = some (.ofNat (two a b), s) := by
  obtain ⟨hzero, hone⟩ := not_ascii (show 0xc0 ≤ a.toNat by omega)
  have hrange : (decide (0xc2 ≤ a) && decide (a ≤ 0xdf)) = true := by
    simp only [UInt8.le_iff_toNat_le, UInt8.reduceToNat, Bool.and_eq_true, decide_eq_true_eq]
    exact ⟨h, h'⟩
  unfold modifiedChar?
  rw [if_neg hzero, if_neg hone, if_neg (ne_c0 h), if_pos hrange]
  exact if_pos hb

theorem modifiedChar?_three (h : 0xe0 ≤ a.toNat) (h' : a.toNat ≤ 0xef)
    (hb : isContinuation b = true) (hd : isContinuation d = true) (hn : 0x800 ≤ three a b d)
    (s : Bytes) : modifiedChar? a (b :: d :: s) =
      if isHigh (three a b d) then
        (lowSurrogate? s).map fun (low, s) => (.ofNat (joinSurrogates (three a b d) low), s)
      else if isLow (three a b d) then none
      else some (.ofNat (three a b d), s) := by
  obtain ⟨hzero, hone⟩ := not_ascii (show 0xc0 ≤ a.toNat by omega)
  have hnot : ¬ (decide (0xc2 ≤ a) && decide (a ≤ 0xdf)) = true := by
    simp only [UInt8.le_iff_toNat_le, UInt8.reduceToNat, Bool.and_eq_true, decide_eq_true_eq]
    omega
  have hrange : (decide (0xe0 ≤ a) && decide (a ≤ 0xef)) = true := by
    simp only [UInt8.le_iff_toNat_le, UInt8.reduceToNat, Bool.and_eq_true, decide_eq_true_eq]
    exact ⟨h, h'⟩
  have hlong : (isContinuation b && isContinuation d && decide (0x800 ≤ three a b d)) = true := by
    simp only [hb, hd, hn, decide_true, Bool.and_self]
  unfold modifiedChar?
  rw [if_neg hzero, if_neg hone, if_neg (ne_c0 (by omega)), if_neg hnot, if_pos hrange]
  exact if_pos hlong

theorem threeBytes_eq (h : n < 0x10000) : ∃ a b d, threeBytes n = [a, b, d] ∧
    a.toNat = 0xe0 + n / 4096 ∧ isContinuation b = true ∧ isContinuation d = true ∧
    three a b d = n := by
  have ha : (UInt8.ofNat (0xe0 + n / 4096)).toNat = 0xe0 + n / 4096 := toNat_ofNat (by omega)
  have hb : (UInt8.ofNat (0x80 + n / 64 % 64)).toNat = 0x80 + n / 64 % 64 :=
    toNat_ofNat (by omega)
  have hd : (UInt8.ofNat (0x80 + n % 64)).toNat = 0x80 + n % 64 := toNat_ofNat (by omega)
  exact ⟨_, _, _, rfl, ha, isContinuation_of_toNat (by omega) hb,
    isContinuation_of_toNat (by omega) hd, three_of_toNat ha hb hd⟩

theorem lowSurrogate?_threeBytes (h : 0xdc00 ≤ n) (h' : n ≤ 0xdfff) (s : Bytes) :
    lowSurrogate? (threeBytes n ++ s) = some (n, s) := by
  obtain ⟨a, b, d, hbytes, ha, hb, hd, hn⟩ := threeBytes_eq (show n < 0x10000 by omega)
  obtain rfl : a = 0xed := by
    rw [← UInt8.toNat_inj, ha]
    show 0xe0 + n / 4096 = 0xed
    omega
  have hlow : isLow n = true := by simp only [isLow, h, h', decide_true, Bool.and_self]
  simp only [hbytes, List.cons_append, List.nil_append, lowSurrogate?, hn, beq_self_eq_true, hb, hd,
    hlow, Bool.and_self, if_true]

theorem modifiedChar?_modifiedBytes (c : Char) (s : Bytes) :
    ∃ a t, modifiedBytes c ++ s = a :: t ∧ modifiedChar? a t = some (c, s) := by
  have hvalid : c.toNat < 0xd800 ∨ 0xdfff < c.toNat ∧ c.toNat < 0x110000 := c.valid
  obtain ⟨n, hn⟩ : ∃ n, c.toNat = n := ⟨_, rfl⟩
  have hc : Char.ofNat n = c := by rw [← hn, Char.ofNat_toNat]
  rw [hn] at hvalid
  unfold modifiedBytes
  simp only [hn]
  split
  · rename_i hzero
    refine ⟨0xc0, 0x80 :: s, rfl, ?_⟩
    rw [← hc, hzero]
    rfl
  split
  · rename_i hzero hone
    have ha : (UInt8.ofNat n).toNat = n := toNat_ofNat (by omega)
    refine ⟨.ofNat n, s, rfl, ?_⟩
    rw [modifiedChar?_one (by omega) (by omega), ha, hc]
  split
  · rename_i hone htwo
    have ha : (UInt8.ofNat (0xc0 + n / 64)).toNat = 0xc0 + n / 64 := toNat_ofNat (by omega)
    have hb : (UInt8.ofNat (0x80 + n % 64)).toNat = 0x80 + n % 64 := toNat_ofNat (by omega)
    have hcont := isContinuation_of_toNat (by omega) hb
    refine ⟨_, .ofNat (0x80 + n % 64) :: s, rfl, ?_⟩
    rw [modifiedChar?_two (by omega) (by omega) hcont, two_of_toNat ha hb, hc]
  split
  · rename_i htwo hthree
    obtain ⟨a, b, d, hbytes, ha, hb, hd, hthree⟩ := threeBytes_eq hthree
    have hhigh : isHigh n = false := by
      simp only [isHigh, Bool.and_eq_false_iff, decide_eq_false_iff_not]
      omega
    have hlow : isLow n = false := by
      simp only [isLow, Bool.and_eq_false_iff, decide_eq_false_iff_not]
      omega
    refine ⟨a, b :: d :: s, by rw [hbytes]; rfl, ?_⟩
    rw [modifiedChar?_three (by omega) (by omega) hb hd (by omega), hthree, hhigh, hlow, hc]
    rfl
  · rename_i hthree
    obtain ⟨high, hhigh⟩ : ∃ m, m = 0xd800 + (n - 0x10000) / 0x400 := ⟨_, rfl⟩
    obtain ⟨low, hlow⟩ : ∃ m, m = 0xdc00 + (n - 0x10000) % 0x400 := ⟨_, rfl⟩
    rw [← hhigh, ← hlow]
    obtain ⟨a, b, d, hbytes, ha, hb, hd, heq⟩ := threeBytes_eq (show high < 0x10000 by omega)
    have hishigh : isHigh high = true := by
      simp only [isHigh, Bool.and_eq_true, decide_eq_true_eq]
      omega
    have hjoin : joinSurrogates high low = n := by
      unfold joinSurrogates
      omega
    refine ⟨a, b :: d :: (threeBytes low ++ s), by rw [hbytes]; rfl, ?_⟩
    rw [modifiedChar?_three (by omega) (by omega) hb hd (by omega), heq, hishigh, if_pos rfl,
      lowSurrogate?_threeBytes (by omega) (by omega)]
    simp only [Option.map_some, hjoin, hc]

theorem modifiedAfter_flatMap (acc cs : List Char) :
    modifiedAfter acc (cs.flatMap modifiedBytes) = some (acc.reverse ++ cs) := by
  induction cs generalizing acc with
  | nil => simp [modifiedAfter]
  | cons c cs ih =>
      obtain ⟨a, t, hbytes, hc⟩ := modifiedChar?_modifiedBytes c (cs.flatMap modifiedBytes)
      have hrest := ih (c :: acc)
      rw [List.flatMap_cons, hbytes, modifiedAfter]
      split
      · rename_i c' r hc'
        obtain ⟨rfl, rfl⟩ := Prod.mk.inj (Option.some.inj (hc.symm.trans hc'))
        simpa using hrest
      · rename_i hnone
        cases hc.symm.trans hnone

theorem isSurrogate_iff : isSurrogate n = true ↔ isHigh n = true ∨ isLow n = true := by
  simp only [isSurrogate, isHigh, isLow, Bool.and_eq_true, decide_eq_true_eq]
  omega

theorem toNat_charOfNat (h : n.isValidChar) : (Char.ofNat n).toNat = n := by
  rw [Char.ofNat, dif_pos h]
  rfl

theorem isLow_of_lowSurrogate? (h : lowSurrogate? s = some (n, r)) : isLow n = true := by
  unfold lowSurrogate? at h
  split at h
  · split at h
    · rename_i hcond
      obtain ⟨rfl, -⟩ := Prod.mk.inj (Option.some.inj h)
      exact (Bool.and_eq_true_iff.1 hcond).2
    · cases h
  · cases h

theorem le_joinSurrogates {high low : Nat} (hh : isHigh high = true) (hl : isLow low = true) :
    0x10000 ≤ (Char.ofNat (joinSurrogates high low)).toNat := by
  simp only [isHigh, isLow, Bool.and_eq_true, decide_eq_true_eq] at hh hl
  have hle : 0x10000 ≤ joinSurrogates high low := by
    unfold joinSurrogates
    omega
  have hlt : joinSurrogates high low < 0x110000 := by
    unfold joinSurrogates
    omega
  rw [toNat_charOfNat (.inr ⟨by omega, hlt⟩)]
  exact hle

theorem utf8After_cons (acc : List Char) (h : modifiedChar? a s = some (c, r)) :
    utf8After acc (a :: s) = utf8After (c :: acc) r ∨
      utf8After acc (a :: s) = none ∧ (c.toNat = 0 ∨ 0x10000 ≤ c.toNat) := by
  unfold modifiedChar? at h
  split at h
  · cases h
  split at h
  · rename_i hone
    obtain ⟨rfl, rfl⟩ := Prod.mk.inj (Option.some.inj h)
    left
    rw [utf8After.eq_def]
    exact if_pos hone
  rename_i hone
  split at h
  · rename_i hc0
    obtain rfl := beq_iff_eq.1 hc0
    split at h
    · split at h
      · obtain ⟨rfl, -⟩ := Prod.mk.inj (Option.some.inj h)
        right
        refine ⟨?_, .inl rfl⟩
        rw [utf8After.eq_def]
        simp only [hone, if_false]
        rfl
      · cases h
    · cases h
  split at h
  · rename_i hrange
    split at h
    · split at h
      · rename_i hb
        obtain ⟨rfl, rfl⟩ := Prod.mk.inj (Option.some.inj h)
        left
        rw [utf8After.eq_def]
        simp only [hone, if_false, hrange, if_true]
        exact if_pos hb
      · cases h
    · cases h
  rename_i hnot
  split at h
  · rename_i hrange
    split at h
    · split at h
      · rename_i b d s hlong
        split at h
        · rename_i hhigh
          obtain ⟨⟨n, t⟩, ht, heq⟩ := Option.map_eq_some_iff.1 h
          obtain ⟨rfl, -⟩ := Prod.mk.inj heq
          right
          refine ⟨?_, .inr (le_joinSurrogates hhigh (isLow_of_lowSurrogate? ht))⟩
          rw [utf8After.eq_def]
          simp only [hone, if_false, hnot, hrange, if_true, isSurrogate_iff.2 (.inl hhigh),
            Bool.not_true, Bool.and_false, Bool.false_eq_true]
        split at h
        · cases h
        · rename_i hhigh hlow
          obtain ⟨rfl, rfl⟩ := Prod.mk.inj (Option.some.inj h)
          have hnone : isSurrogate (three a b d) = false := by
            rw [Bool.eq_false_iff, ne_eq, isSurrogate_iff]
            exact fun h => h.elim hhigh hlow
          left
          rw [utf8After.eq_def]
          simp only [hone, if_false, hnot, hrange, if_true, hlong, hnone, Bool.not_false,
            Bool.and_self, Bool.false_eq_true]
      · cases h
    · cases h
  · cases h

theorem eq_of_utf8After (h : utf8After acc s = some cs) (h' : modifiedAfter acc s = some ds) :
    cs = ds := by
  fun_induction modifiedAfter acc s with
  | case1 acc => exact Option.some.inj (h.symm.trans h')
  | case2 acc a s c r hc ih =>
      rcases utf8After_cons acc hc with heq | ⟨hnone, -⟩
      · exact ih (heq ▸ h) h'
      · cases hnone.symm.trans h
  | case3 => cases h'

theorem subset_of_modifiedAfter (h : modifiedAfter acc s = some cs) : acc ⊆ cs := by
  fun_induction modifiedAfter acc s with
  | case1 acc =>
      cases h
      exact fun c hc => List.mem_reverse.2 hc
  | case2 acc a s c r hc ih => exact List.Subset.trans (List.subset_cons_self c acc) (ih h)
  | case3 => cases h

theorem utf8After_of_modifiedAfter (h : modifiedAfter acc s = some cs)
    (hcs : ∀ c ∈ cs, c.toNat ≠ 0 ∧ c.toNat < 0x10000) : utf8After acc s = some cs := by
  fun_induction modifiedAfter acc s with
  | case1 acc => exact h
  | case2 acc a s c r hc ih =>
      rcases utf8After_cons acc hc with heq | ⟨-, hzero | hlong⟩
      · rw [heq]
        exact ih h
      · have hmem := subset_of_modifiedAfter h List.mem_cons_self
        exact absurd hzero (hcs c hmem).1
      · have hmem := subset_of_modifiedAfter h List.mem_cons_self
        exact absurd (hcs c hmem).2 (Nat.not_lt.2 hlong)
  | case3 => cases h

theorem constantString?_modifiedUtf8 (t : String) : constantString? (modifiedUtf8 t) = some t := by
  have hmodified : modifiedAfter [] (modifiedUtf8 t) = some t.toList :=
    modifiedAfter_flatMap [] t.toList
  unfold constantString?
  split
  · rename_i t' ht'
    obtain ⟨cs, hcs, rfl⟩ := Option.map_eq_some_iff.1 ht'
    rw [eq_of_utf8After hcs hmodified, String.ofList_toList]
  · rw [hmodified, Option.map_some, String.ofList_toList]

theorem utf8?_of_constantString? {t : String} (h : constantString? s = some t)
    (ht : ∀ c ∈ t.toList, c.toNat ≠ 0 ∧ c.toNat < 0x10000) : utf8? s = some t := by
  unfold constantString? at h
  split at h
  · rename_i t' ht'
    rw [ht', h]
  · obtain ⟨cs, hcs, rfl⟩ := Option.map_eq_some_iff.1 h
    rw [String.toList_ofList] at ht
    rw [utf8?, utf8After_of_modifiedAfter hcs ht]
    rfl

end BytecodeMutation.Text
