import BytecodeMutation.Proofs.Listing

namespace BytecodeMutation.InlinedFinally

variable {regions : List OrdinalRange} {b : Blocks} {ds group before rest : List Details}
  {d e : Details} {i j n : Nat}

theorem areCopies_congr (h : areCopies d e = true) : areCopies d = areCopies e := by
  obtain ⟨-, hline, hmutator, hdescription⟩ := areCopies_iff.1 h
  funext x
  simp only [areCopies, hline, hmutator, hdescription]

theorem areCopies_self (h : areCopies d e = true) : areCopies d d = true := by
  obtain ⟨hline, -⟩ := areCopies_iff.1 h
  exact areCopies_iff.2 ⟨hline, rfl, rfl, rfl⟩

theorem areCopies_symm (h : areCopies d e = true) : areCopies e d = true := by
  rw [← areCopies_congr h]
  exact areCopies_self h

theorem copies_congr (h : areCopies d e = true) : copies ds d = copies ds e := by
  simp only [copies, areCopies_congr h]

theorem spansBlocks_iff (hd : d ∈ group) : spansBlocks b d group = true ↔
    ∃ x ∈ group, ∃ y ∈ group, b.numberOf x.firstOrdinal ≠ b.numberOf y.firstOrdinal := by
  simp only [spansBlocks, List.any_eq_true, bne_iff_ne]
  constructor
  · rintro ⟨x, hx, hne⟩
    exact ⟨x, hx, d, hd, hne⟩
  · rintro ⟨x, hx, y, hy, hne⟩
    by_cases hxd : b.numberOf x.firstOrdinal = b.numberOf d.firstOrdinal
    · exact ⟨y, hy, fun hyd => hne (hxd.trans hyd.symm)⟩
    · exact ⟨x, hx, hxd⟩

theorem isMerged_congr (hd : d ∈ ds) (he : e ∈ ds) (h : areCopies d e = true) :
    isMerged regions b d (copies ds d) = isMerged regions b e (copies ds e) := by
  have hdg : d ∈ copies ds e := mem_copies.2 ⟨hd, areCopies_symm h⟩
  have heg : e ∈ copies ds e := mem_copies.2 ⟨he, areCopies_self (areCopies_symm h)⟩
  have hspans : spansBlocks b d (copies ds e) = spansBlocks b e (copies ds e) := by
    rw [Bool.eq_iff_iff, spansBlocks_iff hdg, spansBlocks_iff heg]
  simp only [isMerged, copies_congr h, hspans]

theorem areCopies_of_isMerged (h : isMerged regions b d (copies ds d) = true) :
    areCopies d d = true := by
  simp only [isMerged, spansBlocks, Bool.and_eq_true, List.any_eq_true] at h
  obtain ⟨⟨x, hx, -⟩, -⟩ := h
  exact areCopies_self (mem_copies.1 hx).2

def remaining? (regions : List OrdinalRange) (b : Blocks) (ds before : List Details) (d : Details) :
    Option Details :=
  if isMerged regions b d (copies ds d) then
    if before.any (areCopies d) then none else some (merge d (copies ds d))
  else some d

def collapseAfter (regions : List OrdinalRange) (b : Blocks) (ds : List Details) :
    List Details → List Details → List Details
  | _, [] => []
  | before, d :: rest =>
      (remaining? regions b ds before d).toList ++ collapseAfter regions b ds (before ++ [d]) rest

theorem findIdx?_copies (hds : ds = before ++ d :: rest) (hd : areCopies d d = true) :
    (ds.findIdx? (areCopies d) == some before.length) = !before.any (areCopies d) := by
  rw [hds, List.findIdx?_append]
  cases hf : before.findIdx? (areCopies d) with
  | none =>
      have hany : before.any (areCopies d) = false := by
        rw [List.findIdx?_eq_none_iff] at hf
        simpa using hf
      simp [List.findIdx?_cons, hd, hany]
  | some i =>
      obtain ⟨hi, hcopy, -⟩ := List.findIdx?_eq_some_iff_getElem.1 hf
      have hany : before.any (areCopies d) = true :=
        List.any_eq_true.2 ⟨before[i], List.getElem_mem hi, hcopy⟩
      simp [hany, Nat.ne_of_lt hi]

theorem leftAt?_eq_remaining? (hds : ds = before ++ d :: rest) :
    leftAt? regions b ds d before.length = remaining? regions b ds before d := by
  unfold leftAt? remaining?
  by_cases hm : isMerged regions b d (copies ds d) = true
  · rw [if_pos hm, if_pos hm, findIdx?_copies hds (areCopies_of_isMerged hm)]
    cases before.any (areCopies d) <;> rfl
  · rw [if_neg hm, if_neg hm]

theorem collapseAfter_eq (hds : ds = before ++ rest) : collapseAfter regions b ds before rest
    = (rest.zipIdx before.length).filterMap fun (d, i) => leftAt? regions b ds d i := by
  induction rest generalizing before with
  | nil => rfl
  | cons d rest ih =>
      have hrest := @ih (before ++ [d]) (by simp [hds])
      rw [List.length_append, List.length_singleton] at hrest
      rw [collapseAfter, hrest, List.zipIdx_cons, List.filterMap_cons]
      simp only [leftAt?_eq_remaining? hds]
      cases remaining? regions b ds before d <;> rfl

theorem collapse_eq : collapse regions b ds = collapseAfter regions b ds [] ds :=
  (collapseAfter_eq (List.nil_append ds).symm).symm

theorem mem_collapse : e ∈ collapse regions b ds ↔
    ∃ i d, ds[i]? = some d ∧ leftAt? regions b ds d i = some e := by
  simp only [collapse_eq_filterMap, List.mem_filterMap, Prod.exists, List.mem_zipIdx_iff_getElem?]
  exact exists_comm

theorem leftAt?_eq_some : leftAt? regions b ds d i = some e ↔
    (¬ isMerged regions b d (copies ds d) = true ∧ e = d) ∨
      (isMerged regions b d (copies ds d) = true ∧ ds.findIdx? (areCopies d) = some i ∧
        e = merge d (copies ds d)) := by
  unfold leftAt?
  by_cases hm : isMerged regions b d (copies ds d) = true
  · by_cases hfirst : ds.findIdx? (areCopies d) = some i
    · simp [hm, hfirst, eq_comm]
    · simp [hm, hfirst]
  · simp [hm, eq_comm]

def home (regions : List OrdinalRange) (b : Blocks) (ds : List Details) (d : Details) (i : Nat) :
    Nat :=
  if isMerged regions b d (copies ds d) then (ds.findIdx? (areCopies d)).getD i else i

theorem home_of_not (h : ¬ isMerged regions b d (copies ds d) = true) :
    home regions b ds d i = i := if_neg h

theorem exists_home (hd : d ∈ ds) (h : isMerged regions b d (copies ds d) = true) :
    ∃ j e, ds[j]? = some e ∧ areCopies d e = true ∧ ds.findIdx? (areCopies d) = some j ∧
      ∀ i, home regions b ds d i = j := by
  obtain ⟨j, hj⟩ := Option.isSome_iff_exists.1 (List.findIdx?_isSome.trans
    (List.any_eq_true.2 ⟨d, hd, areCopies_of_isMerged h⟩))
  obtain ⟨hlt, hcopy, -⟩ := List.findIdx?_eq_some_iff_getElem.1 hj
  refine ⟨j, ds[j], List.getElem?_eq_getElem hlt, hcopy, hj, fun i => ?_⟩
  rw [home, if_pos h, hj]
  rfl

theorem home_eq_of_merged {x : Details} (hd : ds[i]? = some d)
    (hm : isMerged regions b d (copies ds d) = true) (hfirst : ds.findIdx? (areCopies d) = some i)
    (hx : ds[j]? = some x) : home regions b ds x j = i ↔ areCopies d x = true := by
  constructor
  · intro hhome
    by_cases hm' : isMerged regions b x (copies ds x) = true
    · obtain ⟨n, e, he, hcopy, -, hn⟩ := exists_home (List.mem_of_getElem? hx) hm'
      obtain rfl := (hn j).symm.trans hhome
      obtain rfl := Option.some.inj (hd.symm.trans he)
      exact areCopies_symm hcopy
    · rw [home_of_not hm'] at hhome
      obtain rfl := hhome
      obtain rfl := Option.some.inj (hd.symm.trans hx)
      exact areCopies_of_isMerged hm
  · intro hcopy
    rw [isMerged_congr (List.mem_of_getElem? hd) (List.mem_of_getElem? hx) hcopy] at hm
    rw [areCopies_congr hcopy] at hfirst
    rw [home, if_pos hm, hfirst]
    rfl

theorem mem_indexes_leftAt? (hd : ds[i]? = some d) (h : leftAt? regions b ds d i = some e) :
    n ∈ e.id.indexes ↔
      ∃ j x, ds[j]? = some x ∧ home regions b ds x j = i ∧ n ∈ x.id.indexes := by
  rcases leftAt?_eq_some.1 h with ⟨hm, rfl⟩ | ⟨hm, hfirst, rfl⟩
  · refine ⟨fun hn => ⟨i, e, hd, home_of_not hm, hn⟩, ?_⟩
    rintro ⟨j, x, hx, hhome, hn⟩
    by_cases hm' : isMerged regions b x (copies ds x) = true
    · obtain ⟨j', e', he', hcopy, -, hj'⟩ := exists_home (List.mem_of_getElem? hx) hm'
      obtain rfl := (hj' j).symm.trans hhome
      obtain rfl := Option.some.inj (hd.symm.trans he')
      rw [isMerged_congr (List.mem_of_getElem? hx) (List.mem_of_getElem? hd) hcopy] at hm'
      exact absurd hm' hm
    · rw [home_of_not hm'] at hhome
      obtain rfl := hhome
      obtain rfl := Option.some.inj (hd.symm.trans hx)
      exact hn
  · have hmem : n ∈ (merge d (copies ds d)).id.indexes ↔
        ∃ x ∈ copies ds d, n ∈ x.id.indexes :=
      Identifier.mem_spanning.trans List.mem_flatMap
    rw [hmem]
    constructor
    · rintro ⟨x, hx, hn⟩
      obtain ⟨hx, hcopy⟩ := mem_copies.1 hx
      obtain ⟨j, hj⟩ := List.getElem?_of_mem hx
      exact ⟨j, x, hj, (home_eq_of_merged hd hm hfirst hj).2 hcopy, hn⟩
    · rintro ⟨j, x, hx, hhome, hn⟩
      exact ⟨x, mem_copies.2 ⟨List.mem_of_getElem? hx,
        (home_eq_of_merged hd hm hfirst hx).1 hhome⟩, hn⟩

theorem exists_leftAt?_home (regions : List OrdinalRange) (b : Blocks) {x : Details}
    (hx : ds[j]? = some x) :
    ∃ d e, ds[home regions b ds x j]? = some d ∧ (d = x ∨ areCopies x d = true) ∧
      leftAt? regions b ds d (home regions b ds x j) = some e := by
  by_cases hm : isMerged regions b x (copies ds x) = true
  · obtain ⟨i, d, hd, hcopy, hfirst, hi⟩ := exists_home (List.mem_of_getElem? hx) hm
    rw [hi j]
    rw [isMerged_congr (List.mem_of_getElem? hx) (List.mem_of_getElem? hd) hcopy] at hm
    rw [areCopies_congr hcopy] at hfirst
    exact ⟨d, _, hd, .inr hcopy, leftAt?_eq_some.2 (.inr ⟨hm, hfirst, rfl⟩)⟩
  · rw [home_of_not hm]
    exact ⟨x, x, hx, .inl rfl, leftAt?_eq_some.2 (.inl ⟨hm, rfl⟩)⟩

theorem mutator_of_home {x : Details} (hx : ds[j]? = some x)
    (hd : ds[home regions b ds x j]? = some d) : d.mutator = x.mutator := by
  obtain ⟨d', e, hd', hcopy, -⟩ := exists_leftAt?_home regions b hx
  obtain rfl := Option.some.inj (hd.symm.trans hd')
  rcases hcopy with rfl | hcopy
  · rfl
  · exact (areCopies_iff.1 hcopy).2.2.1.symm

theorem index_of_collapse (he : e ∈ collapse regions b ds) {i : Nat} (hi : i ∈ e.id.indexes) :
    ∃ d ∈ ds, i ∈ d.id.indexes := by
  obtain ⟨j, d, hd, hleft⟩ := mem_collapse.1 he
  obtain ⟨k, x, hx, -, hi⟩ := (mem_indexes_leftAt? hd hleft).1 hi
  exact ⟨x, List.mem_of_getElem? hx, hi⟩

variable {c : Class} {m : Method} {os : List Operator}

theorem firstOrdinal_of_collapse (h : Listing c m b os ds) (he : e ∈ collapse regions b ds) :
    ∃ d ∈ ds, e.firstOrdinal = d.firstOrdinal := by
  obtain ⟨i, d, hd, he⟩ := mem_collapse.1 he
  exact ⟨d, List.mem_of_getElem? hd, (listed_leftAt? hd h he).2⟩

theorem covered_collapse (h : Listing c m b os ds) (hd : d ∈ ds) :
    ∃ e ∈ collapse regions b ds, e.mutator = d.mutator ∧ e.id.operator = d.id.operator ∧
      (∀ i ∈ d.id.indexes, i ∈ e.id.indexes) ∧
      ∃ x ∈ ds, (x = d ∨ areCopies d x = true) ∧ e.firstOrdinal = x.firstOrdinal := by
  obtain ⟨j, hj⟩ := List.getElem?_of_mem hd
  obtain ⟨x, e, hx, hcopy, hleft⟩ := exists_leftAt?_home regions b hj
  have hmem : x ∈ ds := List.mem_of_getElem? hx
  refine ⟨e, mem_collapse.2 ⟨_, x, hx, hleft⟩,
    (mutator_of_leftAt? hleft).trans (mutator_of_home hj hx), ?_,
    fun i hi => (mem_indexes_leftAt? hx hleft).2 ⟨j, d, hj, rfl, hi⟩, x, hmem, hcopy,
    (listed_leftAt? hx h hleft).2⟩
  obtain ⟨o, -, ho⟩ := h.listed d hd
  obtain ⟨o', -, ho'⟩ := h.listed x hmem
  have hoperator : e.id.operator = x.id.operator := by
    rcases leftAt?_cases hleft with rfl | ⟨-, -, rfl⟩ <;> rfl
  rw [hoperator, ho.id, ho'.id]
  rcases hcopy with rfl | hcopy
  · exact congrArg Operator.id (Operator.name_injective (ho'.mutator.symm.trans ho.mutator))
  · exact congrArg Operator.id (operator_of_areCopies ho ho' hcopy).symm

theorem index_of_apply (he : e ∈ apply m b ds) {i : Nat} (hi : i ∈ e.id.indexes) :
    ∃ d ∈ ds, i ∈ d.id.indexes := by
  simp only [apply] at he
  split at he
  · exact ⟨e, he, hi⟩
  · exact index_of_collapse he hi

theorem firstOrdinal_of_apply (h : Listing c m b os ds) (he : e ∈ apply m b ds) :
    ∃ d ∈ ds, e.firstOrdinal = d.firstOrdinal := by
  simp only [apply] at he
  split at he
  · exact ⟨e, he, rfl⟩
  · exact firstOrdinal_of_collapse h he

theorem covered_apply (h : Listing c m b os ds) (hd : d ∈ ds) :
    ∃ e ∈ apply m b ds, e.mutator = d.mutator ∧ e.id.operator = d.id.operator ∧
      (∀ i ∈ d.id.indexes, i ∈ e.id.indexes) ∧
      ∃ x ∈ ds, (x = d ∨ areCopies d x = true) ∧ e.firstOrdinal = x.firstOrdinal := by
  simp only [apply]
  split
  · exact ⟨d, hd, rfl, rfl, fun _ hi => hi, d, hd, .inl rfl, rfl⟩
  · exact covered_collapse h hd

end BytecodeMutation.InlinedFinally
