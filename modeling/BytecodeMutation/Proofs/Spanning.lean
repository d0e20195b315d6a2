import BytecodeMutation.Mutation

namespace BytecodeMutation.Identifier

theorem mem_dropRepeats {i : Nat} {is : List Nat} : i ∈ dropRepeats is ↔ i ∈ is := by
  fun_induction dropRepeats is with
  | case1 a s ih => simp_all
  | case2 a b s h ih => simp_all
  | case3 s h => rfl

theorem pairwise_dropRepeats {is : List Nat} (h : is.Pairwise (· ≤ ·)) :
    (dropRepeats is).Pairwise (· < ·) := by
  fun_induction dropRepeats is with
  | case1 a s ih => exact ih (List.pairwise_cons.1 h).2
  | case2 a b s hab ih =>
      obtain ⟨ha, hs⟩ := List.pairwise_cons.1 h
      refine List.pairwise_cons.2 ⟨fun i hi => ?_, ih hs⟩
      have hb : a < b := Nat.lt_of_le_of_ne (ha b List.mem_cons_self) hab
      rcases List.mem_cons.1 (mem_dropRepeats.1 hi) with rfl | hi
      · exact hb
      · exact Nat.lt_of_lt_of_le hb ((List.pairwise_cons.1 hs).1 i hi)
  | case3 s hs =>
      match s, hs with
      | [], _ => exact List.Pairwise.nil
      | [a], _ => exact List.pairwise_singleton _ a
      | a :: b :: s, hs => exact absurd rfl (hs a b s)

theorem dropRepeats_of_ascending {is : List Nat} (h : is.Pairwise (· < ·)) :
    dropRepeats is = is := by
  induction is with
  | nil => rfl
  | cons i is ih =>
      obtain ⟨hi, his⟩ := List.pairwise_cons.1 h
      cases is with
      | nil => rfl
      | cons j is => rw [dropRepeats, if_neg (Nat.ne_of_lt (hi j List.mem_cons_self)), ih his]

variable {id : Identifier} {is : List Nat}

theorem spanning_of_ascending (id : Identifier) (h : is.Pairwise (· < ·)) :
    id.spanning is = { id with indexes := is } := by
  have hsort : is.mergeSort = is :=
    List.mergeSort_of_pairwise (h.imp fun hij => decide_eq_true (Nat.le_of_lt hij))
  rw [spanning, hsort, dropRepeats_of_ascending h]

theorem mem_spanning {i : Nat} : i ∈ (id.spanning is).indexes ↔ i ∈ is := by
  simp [spanning, mem_dropRepeats]

theorem pairwise_spanning (id : Identifier) (is : List Nat) :
    (id.spanning is).indexes.Pairwise (· < ·) := by
  apply pairwise_dropRepeats
  have h := @List.pairwise_mergeSort Nat (fun a b => decide (a ≤ b))
    (by simpa using fun a b c => Nat.le_trans) (by simpa using Nat.le_total) is
  simpa using h

theorem firstOrdinal_mem (h : id.indexes ≠ []) : id.firstOrdinal ∈ id.indexes := by
  obtain ⟨location, indexes, operator⟩ := id
  cases indexes with
  | nil => exact absurd rfl h
  | cons i is => exact List.mem_cons_self

theorem firstOrdinal_le (h : id.indexes.Pairwise (· < ·)) {i : Nat} (hi : i ∈ id.indexes) :
    id.firstOrdinal ≤ i := by
  obtain ⟨location, indexes, operator⟩ := id
  cases indexes with
  | nil => cases hi
  | cons j is =>
      rcases List.mem_cons.1 hi with rfl | hi
      · exact Nat.le_refl _
      · exact Nat.le_of_lt ((List.pairwise_cons.1 h).1 i hi)

theorem firstOrdinal_spanning {i : Nat} (hi : i ∈ is) (hle : ∀ j ∈ is, i ≤ j) :
    (id.spanning is).firstOrdinal = i := by
  apply Nat.le_antisymm
  · exact firstOrdinal_le (pairwise_spanning id is) (mem_spanning.2 hi)
  · exact hle _ (mem_spanning.1 (firstOrdinal_mem (List.ne_nil_of_mem (mem_spanning.2 hi))))

end BytecodeMutation.Identifier
