import BytecodeMutation.Proofs.Lines

namespace BytecodeMutation

def lastLine? (lines : List LineEntry) (offset : Nat) : Option Nat :=
  (lines.filter fun e => e.start ≤ offset).getLast?.map (·.line)

structure SortsStably (entries sorted : List LineEntry) : Prop where
  ascends : sorted.Pairwise fun a b => a.start ≤ b.start
  same : ∀ n, (sorted.filter fun e => e.start = n) = entries.filter fun e => e.start = n

theorem filter_eq_take {α : Type} {p : α → Bool} {xs : List α} {k : Nat}
    (h : ∀ i a, xs[i]? = some a → (p a = true ↔ i < k)) : xs.filter p = xs.take k := by
  induction xs generalizing k with
  | nil => rw [List.filter_nil, List.take_nil]
  | cons x xs ih =>
      have hx : p x = true ↔ 0 < k := h 0 x rfl
      cases k with
      | zero =>
          rw [List.take_zero, List.filter_eq_nil_iff]
          intro a ha hp
          obtain ⟨i, hi⟩ := List.getElem?_of_mem ha
          exact Nat.not_lt_zero i ((h i a hi).1 hp)
      | succ k =>
          rw [List.filter_cons_of_pos (hx.2 (Nat.succ_pos k)), List.take_succ_cons]
          congr 1
          refine ih fun i a ha => ?_
          rw [h (i + 1) a ha]
          exact Nat.succ_lt_succ_iff

namespace ScanState

variable {holds : Nat → Bool} {size o : Nat} {lines : List LineEntry}

theorem searchFrom_divides (hanti : ∀ i j, i ≤ j → holds j = true → holds i = true) {base : Nat}
    (hpos : 0 < size) (hbase : base = 0 ∨ holds base = true)
    (hend : holds (base + size) = false) :
    (searchFrom holds base size = 0 ∨ holds (searchFrom holds base size) = true) ∧
      holds (searchFrom holds base size + 1) = false := by
  fun_induction searchFrom holds base size with
  | case1 base size hle =>
      obtain rfl : size = 1 := by omega
      exact ⟨hbase, hend⟩
  | case2 base size hgt half ih =>
      have hhalf : half = size / 2 := rfl
      cases hmiddle : holds (base + half) with
      | true =>
          simp only [hmiddle, if_true, dite_true] at ih ⊢
          have hsum : base + half + (size - half) = base + size := by omega
          exact ih (by omega) (.inr trivial) (hsum ▸ hend)
      | false =>
          simp only [hmiddle, Bool.false_eq_true, if_false, dite_false] at ih ⊢
          refine ih (by omega) hbase (Bool.eq_false_iff.2 fun htop => ?_)
          have hbelow := hanti (base + half) (base + (size - half)) (by omega) htop
          rw [hmiddle] at hbelow
          cases hbelow

theorem lt_partitionPoint (hanti : ∀ i j, i ≤ j → holds j = true → holds i = true)
    (hend : holds size = false) {i : Nat} : i < partitionPoint holds size ↔ holds i = true := by
  have hnot : ∀ {j}, holds j = false → j ≤ i → ¬ holds i = true := by
    intro j hj hle hi
    rw [hanti j i hle hi] at hj
    cases hj
  unfold partitionPoint
  split
  · rename_i hzero
    rw [hzero] at hend
    exact iff_of_false (Nat.not_lt_zero i) (hnot hend (Nat.zero_le i))
  · rename_i hpos
    have hend' : holds (0 + size) = false := by rwa [Nat.zero_add]
    obtain ⟨hfirst, hnext⟩ := searchFrom_divides hanti (by omega) (.inl rfl) hend'
    simp only
    split
    · rename_i hlast
      constructor
      · intro hi
        exact hanti i _ (Nat.le_of_lt_succ hi) hlast
      · intro hi
        exact Nat.lt_of_not_le fun hle => hnot hnext hle hi
    · rename_i hlast
      have hzero : searchFrom holds 0 size = 0 := hfirst.resolve_right hlast
      rw [hzero] at hlast ⊢
      exact iff_of_false (Nat.not_lt_zero i)
        (hnot (Bool.eq_false_iff.2 hlast) (Nat.zero_le i))

theorem startsBy_anti (hlines : lines.Pairwise fun a b => a.start ≤ b.start) (i j : Nat)
    (hle : i ≤ j) (hj : startsBy lines.toArray o j = true) :
    startsBy lines.toArray o i = true := by
  rcases Nat.eq_or_lt_of_le hle with rfl | hlt
  · exact hj
  · simp only [startsBy, List.getElem?_toArray, Option.any_eq_true, decide_eq_true_eq] at hj ⊢
    obtain ⟨e, he, hstart⟩ := hj
    obtain ⟨hjlt, rfl⟩ := List.getElem?_eq_some_iff.1 he
    have hi : i < lines.length := by omega
    refine ⟨lines[i], List.getElem?_eq_getElem hi, ?_⟩
    exact Nat.le_trans (List.pairwise_iff_getElem.1 hlines i j hi hjlt hlt) hstart

theorem lineAt?_eq_lastLine? (hlines : lines.Pairwise fun a b => a.start ≤ b.start) (o : Nat) :
    lineAt? lines.toArray o = lastLine? lines o := by
  have hend : startsBy lines.toArray o lines.toArray.size = false := by
    simp [startsBy]
  obtain ⟨k, hk⟩ : ∃ k, k = partitionPoint (startsBy lines.toArray o) lines.toArray.size :=
    ⟨_, rfl⟩
  have hle : k ≤ lines.length := by
    rw [hk]
    exact partitionPoint_le _ _
  have htake : (lines.filter fun e => e.start ≤ o) = lines.take k := by
    refine filter_eq_take fun i e he => ?_
    rw [hk, lt_partitionPoint (startsBy_anti hlines) hend]
    simp [startsBy, he]
  rw [lineAt?, ← hk, lastLine?, htake, List.getLast?_take]
  split
  · rfl
  · rw [List.getElem?_toArray, List.getElem?_eq_getElem (by omega), Option.some_or]

end ScanState

namespace Method

theorem sortsStably_linesOf (xs : List Attribute) :
    SortsStably (xs.flatMap Attribute.lines) (linesOf xs) := by
  have htrans : ∀ a b e : LineEntry, decide (a.start ≤ b.start) = true →
      decide (b.start ≤ e.start) = true → decide (a.start ≤ e.start) = true := by
    intro a b e hab hbe
    rw [decide_eq_true_iff] at hab hbe ⊢
    exact Nat.le_trans hab hbe
  have htotal : ∀ a b : LineEntry,
      (decide (a.start ≤ b.start) || decide (b.start ≤ a.start)) = true := by
    intro a b
    rw [Bool.or_eq_true, decide_eq_true_iff, decide_eq_true_iff]
    exact Nat.le_total a.start b.start
  rw [linesOf_eq]
  constructor
  · exact (List.pairwise_mergeSort htrans htotal _).imp fun h => of_decide_eq_true h
  · intro n
    obtain ⟨es, hes⟩ : ∃ es, es = xs.flatMap Attribute.lines := ⟨_, rfl⟩
    rw [← hes]
    have hone : (es.filter fun e => e.start = n).Pairwise
        fun a b => decide (a.start ≤ b.start) := by
      refine List.pairwise_of_forall_mem_list fun a ha b hb => ?_
      have hstart := of_decide_eq_true (List.mem_filter.1 ha).2
      have hstart' := of_decide_eq_true (List.mem_filter.1 hb).2
      exact decide_eq_true (Nat.le_of_eq (hstart.trans hstart'.symm))
    -- the entries of one start are in order, so the sort leaves them in it
    have hsub : (es.filter fun e => e.start = n).Sublist
        (es.mergeSort fun a b => a.start ≤ b.start) :=
      List.sublist_mergeSort htrans htotal hone List.filter_sublist
    have hfilter := hsub.filter fun e => e.start = n
    rw [List.filter_filter] at hfilter
    simp only [Bool.and_self] at hfilter
    have hperm := (List.mergeSort_perm es fun a b => a.start ≤ b.start).filter
      fun e => decide (e.start = n)
    exact (hfilter.eq_of_length hperm.length_eq.symm).symm

end Method

end BytecodeMutation
