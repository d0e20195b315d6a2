import BytecodeMutation.Proofs.Grouping
import BytecodeMutation.Proofs.Suppression

namespace BytecodeMutation.InlinedFinally

variable {regions : List OrdinalRange} {b : Blocks} {ds group : List Details} {d e : Details}
  {i n : Nat}

theorem collapse_eq_self (h : ∀ d ∈ ds, isMerged regions b d (copies ds d) = false) :
    collapse regions b ds = ds := by
  rw [collapse_eq_filterMap]
  conv => rhs; rw [← List.zipIdx_map_fst 0 ds, ← List.filterMap_eq_map]
  refine List.filterMap_congr fun x hx => ?_
  have hd := List.mem_of_getElem? (List.mem_zipIdx_iff_getElem?.1 hx)
  exact leftAt?_eq_some.2 (.inl ⟨by simp [h x.1 hd], rfl⟩)

theorem apply_eq_collapse (m : Method) :
    apply m b ds = collapse (InlinedFinally.regions m) b ds := by
  simp only [apply]
  split
  · rename_i hnone
    refine (collapse_eq_self fun d _ => ?_).symm
    simp [isMerged, inRegion, List.isEmpty_iff.1 hnone]
  · rfl

theorem key?_of_leftAt? (h : leftAt? regions b ds d i = some e) : key? e = key? d := by
  rcases leftAt?_cases h with rfl | ⟨-, -, rfl⟩ <;> rfl

theorem isMerged_mono {group' : List Details} (hsub : ∀ x ∈ group, x ∈ group')
    (h : isMerged regions b d group = true) : isMerged regions b d group' = true := by
  simp only [isMerged, Bool.and_eq_true, spansBlocks, inRegion, List.any_eq_true] at h ⊢
  obtain ⟨⟨x, hx, hne⟩, y, hy, hin⟩ := h
  exact ⟨⟨x, hsub x hx, hne⟩, y, hsub y hy, hin⟩

theorem isMerged_collapse (he : e ∈ collapse regions b ds) :
    isMerged regions b e (copies (collapse regions b ds) e) = false := by
  rw [Bool.eq_false_iff]
  intro h
  obtain ⟨i, d, hd, hleft⟩ := mem_collapse.1 he
  have hself := mem_copies.2 ⟨he, areCopies_of_isMerged h⟩
  -- a copy that is left comes from a copy, and one is merged just when the other is
  have hsource : ∀ x ∈ copies (collapse regions b ds) e, ∃ j d', ds[j]? = some d' ∧
      leftAt? regions b ds d' j = some x ∧ areCopies d d' = true ∧
        isMerged regions b d (copies ds d) = isMerged regions b d' (copies ds d') := by
    intro x hx
    obtain ⟨hx, hcopy⟩ := mem_copies.1 hx
    obtain ⟨j, d', hd', hleft'⟩ := mem_collapse.1 hx
    have hcopy' : areCopies d d' = true := by
      rw [areCopies_iff_key, key?_of_leftAt? hleft, key?_of_leftAt? hleft'] at hcopy
      exact areCopies_iff_key.2 hcopy
    exact ⟨j, d', hd', hleft', hcopy',
      isMerged_congr (List.mem_of_getElem? hd) (List.mem_of_getElem? hd') hcopy'⟩
  rcases leftAt?_eq_some.1 hleft with ⟨hm, rfl⟩ | ⟨hm, hfirst, rfl⟩
  · refine hm (isMerged_mono (fun x hx => ?_) h)
    obtain ⟨j, d', hd', hleft', hcopy, hsame⟩ := hsource x hx
    rcases leftAt?_eq_some.1 hleft' with ⟨-, rfl⟩ | ⟨hm', -, rfl⟩
    · exact mem_copies.2 ⟨List.mem_of_getElem? hd', hcopy⟩
    · exact absurd (hsame.trans hm') hm
  · have hone : ∀ x ∈ copies (collapse regions b ds) (merge d (copies ds d)),
        x = merge d (copies ds d) := by
      intro x hx
      obtain ⟨j, d', hd', hleft', hcopy, hsame⟩ := hsource x hx
      rcases leftAt?_eq_some.1 hleft' with ⟨hm', rfl⟩ | ⟨-, hfirst', rfl⟩
      · exact absurd (hsame.symm.trans hm) hm'
      · rw [← areCopies_congr hcopy] at hfirst'
        obtain rfl := Option.some.inj (hfirst.symm.trans hfirst')
        obtain rfl := Option.some.inj (hd.symm.trans hd')
        rfl
    simp only [isMerged, Bool.and_eq_true] at h
    obtain ⟨x, hx, y, hy, hne⟩ := (spansBlocks_iff hself).1 h.1
    rw [hone x hx, hone y hy] at hne
    exact hne rfl

theorem apply_apply (m : Method) : apply m b (apply m b ds) = apply m b ds := by
  simp only [apply_eq_collapse]
  exact collapse_eq_self fun _ => isMerged_collapse

def covered (ds : List Details) : List (String × Nat) :=
  ds.flatMap fun d => d.id.indexes.map (d.mutator, ·)

theorem mem_covered {x : String × Nat} :
    x ∈ covered ds ↔ ∃ d ∈ ds, d.mutator = x.1 ∧ x.2 ∈ d.id.indexes := by
  simp only [covered, List.mem_flatMap, List.mem_map]
  constructor
  · rintro ⟨d, hd, i, hi, rfl⟩
    exact ⟨d, hd, rfl, hi⟩
  · rintro ⟨d, hd, hname, hi⟩
    exact ⟨d, hd, x.2, hi, by rw [hname]⟩

theorem mem_covered_collapse {x : String × Nat} :
    x ∈ covered (collapse regions b ds) ↔ x ∈ covered ds := by
  simp only [mem_covered, mem_collapse]
  constructor
  · rintro ⟨e, ⟨i, d, hd, hleft⟩, hname, hn⟩
    obtain ⟨j, y, hy, rfl, hn⟩ := (mem_indexes_leftAt? hd hleft).1 hn
    exact ⟨y, List.mem_of_getElem? hy,
      (mutator_of_home hy hd).symm.trans ((mutator_of_leftAt? hleft).symm.trans hname), hn⟩
  · rintro ⟨y, hy, hname, hn⟩
    obtain ⟨j, hj⟩ := List.getElem?_of_mem hy
    obtain ⟨d, e, hd, -, hleft⟩ := exists_leftAt?_home regions b hj
    exact ⟨e, ⟨_, d, hd, hleft⟩,
      (mutator_of_leftAt? hleft).trans ((mutator_of_home hj hd).trans hname),
      (mem_indexes_leftAt? hd hleft).2 ⟨j, y, hj, rfl, hn⟩⟩

theorem nodup_covered : (covered ds).Nodup ↔ (∀ d ∈ ds, d.id.indexes.Nodup) ∧
    ds.Pairwise fun d e => d.mutator = e.mutator → d.id.indexes.Disjoint e.id.indexes := by
  rw [covered, List.nodup_flatMap]
  refine and_congr (forall₂_congr fun d _ => ?_) (List.Pairwise.iff fun d e => ?_)
  · exact List.nodup_map_iff (Prod.mk_right_injective d.mutator)
  · constructor
    · intro h hname n hn hn'
      exact h (List.mem_map.2 ⟨n, hn, rfl⟩) (List.mem_map.2 ⟨n, hn', by rw [hname]⟩)
    · intro h x hx hx'
      obtain ⟨n, hn, rfl⟩ := List.mem_map.1 hx
      obtain ⟨n', hn', heq⟩ := List.mem_map.1 hx'
      simp only [Prod.mk.injEq] at heq
      obtain ⟨hname, rfl⟩ := heq
      exact h hname.symm hn hn'

theorem nodup_covered_collapse (h : (covered ds).Nodup) :
    (covered (collapse regions b ds)).Nodup := by
  obtain ⟨hnodup, hdisjoint⟩ := nodup_covered.1 h
  have hunique {n j j' : Nat} {x x' : Details} (hx : ds[j]? = some x) (hx' : ds[j']? = some x')
      (hname : x.mutator = x'.mutator) (hn : n ∈ x.id.indexes) (hn' : n ∈ x'.id.indexes) :
      j = j' := by
    obtain ⟨hj, rfl⟩ := List.getElem?_eq_some_iff.1 hx
    obtain ⟨hj', rfl⟩ := List.getElem?_eq_some_iff.1 hx'
    have hpairs := List.pairwise_iff_getElem.1 hdisjoint
    rcases Nat.lt_trichotomy j j' with hlt | heq | hlt
    · exact absurd hn' (hpairs j j' hj hj' hlt hname hn)
    · exact heq
    · exact absurd hn (hpairs j' j hj' hj hlt hname.symm hn')
  refine nodup_covered.2 ⟨fun e he => ?_, ?_⟩
  · obtain ⟨i, d, hd, hleft⟩ := mem_collapse.1 he
    rcases leftAt?_cases hleft with rfl | ⟨-, -, rfl⟩
    · exact hnodup e (List.mem_of_getElem? hd)
    · exact (Identifier.pairwise_spanning _ _).imp Nat.ne_of_lt
  · rw [collapse_eq_filterMap]
    refine List.pairwise_filterMap.2 ((Scan.pairwise_snd_zipIdx ds).imp_of_mem ?_)
    rintro ⟨d, i⟩ ⟨d', i'⟩ hd hd' hlt e hleft e' hleft' hname n hn hn'
    rw [List.mem_zipIdx_iff_getElem?] at hd hd'
    obtain ⟨j, x, hx, rfl, hn⟩ := (mem_indexes_leftAt? hd hleft).1 hn
    obtain ⟨j', x', hx', rfl, hn'⟩ := (mem_indexes_leftAt? hd' hleft').1 hn'
    have hsame : x.mutator = x'.mutator := by
      rw [← mutator_of_home hx hd, ← mutator_of_home hx' hd', ← mutator_of_leftAt? hleft,
        ← mutator_of_leftAt? hleft', hname]
    obtain rfl := hunique hx hx' hsame hn hn'
    obtain rfl := Option.some.inj (hx.symm.trans hx')
    exact Nat.lt_irrefl _ hlt

def InHandler (m : Method) (i : Nat) : Prop :=
  ∃ h ∈ m.handlers, h.catchType = none ∧ ∃ start, m.ordinalOf? h.handler = some start ∧
    start ≤ i ∧ i < m.code.length ∧
    ∀ j s, start ≤ j → j < i → m.code[j]? = some s → s.opcode ≠ Opcode.athrow

/-- Copies that are merged: two or more, in two blocks or more, one of them in a handler that
catches everything. -/
structure Merges (m : Method) (b : Blocks) (group : List Details) : Prop where
  several : 2 ≤ group.length
  blocks : ∃ d ∈ group, ∃ e ∈ group, b.numberOf d.firstOrdinal ≠ b.numberOf e.firstOrdinal
  caught : ∃ d ∈ group, InHandler m d.firstOrdinal

/-- What stands for the mutation at a position: itself, or at the first of its copies their merge,
which covers the instructions of all. -/
inductive Leaves (m : Method) (b : Blocks) (ds : List Details) (i : Nat) : Details → Prop where
  | kept {d : Details} : ds[i]? = some d → ¬ Merges m b (copies ds d) → Leaves m b ds i d
  | merged {d : Details} : ds[i]? = some d → Merges m b (copies ds d) →
      (∀ e ∈ ds.take i, areCopies d e = false) →
      Leaves m b ds i { d with
        id := { d.id with indexes := (copies ds d).map (·.firstOrdinal) }
        inFinallyBlock := true }

variable {m : Method}

theorem mem_region {h : Handler} {start : Nat} (hnone : h.catchType = none)
    (hstart : m.ordinalOf? h.handler = some start) :
    (∃ r, region? m h = some r ∧ r.contains i = true) ↔ start ≤ i ∧ i < m.code.length ∧
      ∀ j s, start ≤ j → j < i → m.code[j]? = some s → s.opcode ≠ Opcode.athrow := by
  have hlt : start < m.code.length := (List.findIdx?_eq_some_iff_getElem.1 hstart).1
  simp only [region?, hnone, hstart, Option.isNone_none, if_true, Option.map_some,
    Option.some.injEq, exists_eq_left', OrdinalRange.contains, Bool.and_eq_true,
    decide_eq_true_iff]
  refine and_congr_right fun hle => ?_
  split
  · rename_i k hk
    obtain ⟨hklt, hthrow, hbefore⟩ := List.findIdx?_eq_some_iff_getElem.1 hk
    rw [List.length_drop] at hklt
    rw [List.getElem_drop, beq_iff_eq] at hthrow
    constructor
    · refine fun hi => ⟨by omega, fun j s hj hji hs => ?_⟩
      obtain ⟨hjlt, rfl⟩ := List.getElem?_eq_some_iff.1 hs
      have h := hbefore (j - start) (by omega)
      simp only [List.getElem_drop, beq_iff_eq, Nat.add_sub_cancel' hj] at h
      exact h
    · rintro ⟨-, h⟩
      by_contra hgt
      exact h (start + k) _ (Nat.le_add_right ..) (by omega)
        (List.getElem?_eq_getElem (by omega)) hthrow
  · rename_i hk
    rw [List.findIdx?_eq_none_iff] at hk
    constructor
    · refine fun hi => ⟨by omega, fun j s hj _ hs hthrow => ?_⟩
      have hmem : s ∈ m.code.drop start := by
        refine List.mem_of_getElem? (i := j - start) ?_
        rw [List.getElem?_drop, Nat.add_sub_cancel' hj]
        exact hs
      simpa [hthrow] using hk s hmem
    · exact fun h => Nat.le_sub_one_of_lt h.1

theorem any_regions_iff :
    ((InlinedFinally.regions m).any fun r => r.contains i) = true ↔ InHandler m i := by
  simp only [List.any_eq_true, InlinedFinally.regions, List.mem_filterMap]
  constructor
  · rintro ⟨r, ⟨h, hh, hr⟩, hi⟩
    have hnone : h.catchType = none := by
      by_contra hsome
      simp [region?, hsome] at hr
    obtain ⟨start, hstart⟩ : ∃ start, m.ordinalOf? h.handler = some start := by
      by_contra hstart
      rw [← Option.isSome_iff_exists, Bool.not_eq_true, Option.isSome_eq_false_iff,
        Option.isNone_iff_eq_none] at hstart
      simp [region?, hstart] at hr
    exact ⟨h, hh, hnone, start, hstart, (mem_region hnone hstart).1 ⟨r, hr, hi⟩⟩
  · rintro ⟨h, hh, hnone, start, hstart, hi⟩
    obtain ⟨r, hr, hi⟩ := (mem_region hnone hstart).2 hi
    exact ⟨r, ⟨h, hh, hr⟩, hi⟩

theorem qualifies_iff :
    qualifies (InlinedFinally.regions m) b group = true ↔ Merges m b group := by
  simp only [qualifies, inRegion, Bool.and_eq_true, decide_eq_true_iff, Finset.one_lt_card,
    List.mem_toFinset, List.mem_map, List.any_eq_true (l := group), any_regions_iff]
  constructor
  · rintro ⟨⟨hlength, _, ⟨x, hx, rfl⟩, _, ⟨y, hy, rfl⟩, hne⟩, hin⟩
    exact ⟨hlength, ⟨x, hx, y, hy, hne⟩, hin⟩
  · rintro ⟨hlength, ⟨x, hx, y, hy, hne⟩, hin⟩
    exact ⟨⟨hlength, _, ⟨x, hx, rfl⟩, _, ⟨y, hy, rfl⟩, hne⟩, hin⟩

theorem isMerged_iff_merges (hd : d ∈ ds) :
    isMerged (InlinedFinally.regions m) b d (copies ds d) = true ↔ Merges m b (copies ds d) := by
  rw [← qualifies_iff]
  by_cases hself : areCopies d d = true
  · rw [qualifies_eq (mem_copies.2 ⟨hd, hself⟩)]
  · have hnone : copies ds d = [] :=
      List.filter_eq_nil_iff.2 fun e _ he => hself (areCopies_self he)
    rw [hnone]
    rfl

variable (hsingle : ∀ d ∈ ds, d.id.indexes = [d.firstOrdinal])
  (hordered : ds.Pairwise fun d e => d.firstOrdinal ≤ e.firstOrdinal)
  (hunique : ds.Pairwise fun d e => ¬ (d.mutator = e.mutator ∧ d.firstOrdinal = e.firstOrdinal))

include hsingle hunique in
theorem nodup_covered_of_single : (covered ds).Nodup := by
  refine nodup_covered.2 ⟨fun d hd => ?_, hunique.imp_of_mem fun hd he hne hname => ?_⟩
  · rw [hsingle d hd]
    exact List.nodup_singleton _
  · rw [hsingle _ hd, hsingle _ he, List.disjoint_singleton, List.mem_singleton]
    exact fun h => hne ⟨hname, h.symm⟩

include hsingle hordered hunique in
theorem merge_copies (d : Details) : merge d (copies ds d) = { d with
    id := { d.id with indexes := (copies ds d).map (·.firstOrdinal) }
    inFinallyBlock := true } := by
  have hindexes : (copies ds d).flatMap (·.id.indexes) = (copies ds d).map (·.firstOrdinal) := by
    rw [List.map_eq_flatMap]
    exact List.flatMap_congr fun e he => hsingle e (mem_copies.1 he).1
  have hpairs : (copies ds d).Pairwise fun x y => x.firstOrdinal < y.firstOrdinal := by
    refine ((hordered.and hunique).sublist List.filter_sublist).imp_of_mem ?_
    rintro x y hx hy ⟨hle, hne⟩
    refine Nat.lt_of_le_of_ne hle fun heq => hne ⟨?_, heq⟩
    rw [← (areCopies_iff.1 (mem_copies.1 hx).2).2.2.1, (areCopies_iff.1 (mem_copies.1 hy).2).2.2.1]
  rw [merge, hindexes, Identifier.spanning_of_ascending _ (List.pairwise_map.2 hpairs)]

theorem findIdx?_eq_some_iff_take (hi : ds[i]? = some d) (hself : areCopies d d = true) :
    ds.findIdx? (areCopies d) = some i ↔ ∀ e ∈ ds.take i, areCopies d e = false := by
  obtain ⟨hlt, rfl⟩ := List.getElem?_eq_some_iff.1 hi
  rw [List.findIdx?_eq_some_iff_getElem]
  constructor
  · rintro ⟨hlt, -, hbefore⟩ e he
    obtain ⟨j, hj, rfl⟩ := List.mem_take_iff_getElem.1 he
    exact Bool.eq_false_iff.2 (hbefore j (by omega))
  · intro h
    refine ⟨hlt, hself, fun j hj => ?_⟩
    rw [h _ (List.mem_take_iff_getElem.2 ⟨j, by omega, rfl⟩)]
    exact Bool.false_ne_true

include hsingle hordered hunique in
theorem leaves_iff : Leaves m b ds i e ↔
    ∃ d, ds[i]? = some d ∧ leftAt? (InlinedFinally.regions m) b ds d i = some e := by
  constructor
  · intro h
    cases h with
    | kept hd hm =>
        rw [← isMerged_iff_merges (List.mem_of_getElem? hd)] at hm
        exact ⟨e, hd, leftAt?_eq_some.2 (.inl ⟨hm, rfl⟩)⟩
    | @merged d hd hm hfirst =>
        rw [← isMerged_iff_merges (List.mem_of_getElem? hd)] at hm
        refine ⟨d, hd, leftAt?_eq_some.2 (.inr ⟨hm, ?_, ?_⟩)⟩
        · exact (findIdx?_eq_some_iff_take hd (areCopies_of_isMerged hm)).2 hfirst
        · exact (merge_copies hsingle hordered hunique d).symm
  · rintro ⟨d, hd, hleft⟩
    rcases leftAt?_eq_some.1 hleft with ⟨hm, rfl⟩ | ⟨hm, hfirst, rfl⟩
    · exact .kept hd fun h => hm ((isMerged_iff_merges (List.mem_of_getElem? hd)).2 h)
    · rw [merge_copies hsingle hordered hunique d]
      exact .merged hd ((isMerged_iff_merges (List.mem_of_getElem? hd)).1 hm)
        ((findIdx?_eq_some_iff_take hd (areCopies_of_isMerged hm)).1 hfirst)

theorem forall₂_filterMap {α β : Type} {f : α → Option β} {R : α → β → Prop} {xs : List α}
    (h : ∀ x ∈ xs, ∀ y, f x = some y → R x y) :
    List.Forall₂ R (xs.filter fun x => (f x).isSome) (xs.filterMap f) := by
  induction xs with
  | nil => exact .nil
  | cons x xs ih =>
      have hrest := ih fun y hy => h y (List.mem_cons_of_mem _ hy)
      cases hx : f x with
      | none => simpa [hx] using hrest
      | some y =>
          rw [List.filterMap_cons_some hx, List.filter_cons_of_pos (by simp [hx])]
          exact .cons (h x List.mem_cons_self y hx) hrest

include hsingle hordered hunique in
theorem leaves_collapse : ∃ places : List Nat, places.Pairwise (· < ·) ∧
    (∀ i, i ∈ places ↔ ∃ e, Leaves m b ds i e) ∧
    List.Forall₂ (Leaves m b ds) places (collapse (InlinedFinally.regions m) b ds) := by
  let left (x : Details × Nat) := leftAt? (InlinedFinally.regions m) b ds x.1 x.2
  have hleaves : ∀ x ∈ ds.zipIdx, ∀ e, left x = some e → Leaves m b ds x.2 e := fun x hx e he =>
    (leaves_iff hsingle hordered hunique).2 ⟨x.1, List.mem_zipIdx_iff_getElem?.1 hx, he⟩
  refine ⟨(ds.zipIdx.filter fun x => (left x).isSome).map (·.2), ?_, fun i => ?_, ?_⟩
  · exact List.pairwise_map.2 ((Scan.pairwise_snd_zipIdx ds).sublist List.filter_sublist)
  · simp only [List.mem_map, List.mem_filter, Option.isSome_iff_exists]
    constructor
    · rintro ⟨x, ⟨hx, e, he⟩, rfl⟩
      exact ⟨e, hleaves x hx e he⟩
    · rintro ⟨e, he⟩
      obtain ⟨d, hd, hleft⟩ := (leaves_iff hsingle hordered hunique).1 he
      exact ⟨(d, i), ⟨List.mem_zipIdx_iff_getElem?.2 hd, e, hleft⟩, rfl⟩
  · rw [collapse_eq_filterMap, List.forall₂_map_left_iff]
    exact forall₂_filterMap hleaves

/-- Mutations of single instructions in ascending order, each operator once for an instruction: in
whatever order their groups are merged, each stays covered by exactly one that is left, which is the
same as before or the merge of all its copies, and there is nothing to merge any more. -/
theorem apply_covers (m : Method) (b : Blocks) (ds : List Details)
    (hsingle : ∀ d ∈ ds, d.id.indexes = [d.firstOrdinal])
    (hordered : ds.Pairwise fun d e => d.firstOrdinal ≤ e.firstOrdinal)
    (hunique : ds.Pairwise fun d e =>
      ¬ (d.mutator = e.mutator ∧ d.firstOrdinal = e.firstOrdinal)) :
    (∀ order, order.Perm (groups ds).toList → applyIn order m b ds = apply m b ds) ∧
    (covered (apply m b ds)).Nodup ∧ (covered (apply m b ds)).Perm (covered ds) ∧
    (∃ places : List Nat, places.Pairwise (· < ·) ∧
      (∀ i, i ∈ places ↔ ∃ e, Leaves m b ds i e) ∧
      List.Forall₂ (Leaves m b ds) places (apply m b ds)) ∧
    ∀ order, order.Perm (groups (apply m b ds)).toList →
      applyIn order m b (apply m b ds) = apply m b ds := by
  have hbefore := nodup_covered_of_single hsingle hunique
  have hafter : (covered (apply m b ds)).Nodup := by
    rw [apply_eq_collapse]
    exact nodup_covered_collapse hbefore
  refine ⟨fun order horder => applyIn_eq m horder, hafter, ?_, ?_, fun order horder => ?_⟩
  · refine (List.perm_ext_iff_of_nodup hafter hbefore).2 fun x => ?_
    rw [apply_eq_collapse, mem_covered_collapse]
  · rw [apply_eq_collapse]
    exact leaves_collapse hsingle hordered hunique
  · rw [applyIn_eq m horder, apply_apply]

open Specimen in
theorem apply_covers_guardFound :
    (∀ order, order.Perm (groups guardFound).toList →
      applyIn order guardMethod (.ofMethod guardMethod) guardFound = guardMerged) ∧
    (covered guardMerged).Perm
      [("MATH", 0), ("MATH", 3), ("INVERT_NEGS", 4), ("INVERT_NEGS", 5)] := by
  obtain ⟨horder, -, hperm, -⟩ := apply_covers guardMethod (.ofMethod guardMethod) guardFound
    (by decide) (by decide) (by decide)
  rw [apply_guardFound] at horder hperm
  exact ⟨horder, hperm⟩

end BytecodeMutation.InlinedFinally
