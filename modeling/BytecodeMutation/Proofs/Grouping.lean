import Mathlib.Data.Finset.Card
import Std.Data.HashMap
import BytecodeMutation.Proofs.Copies

namespace BytecodeMutation.InlinedFinally

abbrev Key := String × Nat × String

def key? (d : Details) : Option Key := d.line.map fun n => (d.mutator, n, d.description)

abbrev Groups := Std.HashMap Key (List Nat)

def addPosition (g : Groups) (x : Details × Nat) : Groups :=
  match key? x.1 with
  | some k => g.alter k fun is => some (is.getD [] ++ [x.2])
  | none => g

def groups (ds : List Details) : Groups := ds.zipIdx.foldl addPosition ∅

structure Merging where
  merged : Std.HashMap Nat Details := ∅
  absorbed : Finset Nat := ∅

def membersAt (ds : List Details) (is : List Nat) : List Details := is.filterMap (ds[·]?)

def qualifies (regions : List OrdinalRange) (b : Blocks) (group : List Details) : Bool :=
  decide (1 < group.length) &&
    decide (1 < (group.map fun e => b.numberOf e.firstOrdinal).toFinset.card) &&
    inRegion regions group

def mergeGroup (regions : List OrdinalRange) (b : Blocks) (ds : List Details) (acc : Merging)
    (x : Key × List Nat) : Merging :=
  match x.2, membersAt ds x.2 with
  | i :: is, d :: rest =>
      if qualifies regions b (d :: rest) then
        ⟨acc.merged.insert i (merge d (d :: rest)), acc.absorbed ∪ is.toFinset⟩
      else acc
  | _, _ => acc

def mergeGroups (regions : List OrdinalRange) (b : Blocks) (ds : List Details)
    (order : List (Key × List Nat)) : Merging :=
  order.foldl (mergeGroup regions b ds) {}

def Merging.leftAt? (acc : Merging) (d : Details) (i : Nat) : Option Details :=
  if i ∈ acc.absorbed then none else some (acc.merged.getD i d)

def applyIn (order : List (Key × List Nat)) (m : Method) (b : Blocks) (ds : List Details) :
    List Details :=
  let regions := regions m
  if regions.isEmpty then ds
  else ds.zipIdx.filterMap fun (d, i) => (mergeGroups regions b ds order).leftAt? d i

variable {regions : List OrdinalRange} {b : Blocks} {ds group : List Details} {d e : Details}
  {k : Key} {i j n : Nat} {is : List Nat} {order : List (Key × List Nat)}

theorem areCopies_iff_key : areCopies d e = true ↔ ∃ k, key? d = some k ∧ key? e = some k := by
  simp only [areCopies_iff, key?, Option.map_eq_some_iff]
  constructor
  · rintro ⟨⟨n, hn⟩, hline, hmutator, hdescription⟩
    exact ⟨_, ⟨n, hn, rfl⟩, n, hline ▸ hn, by rw [hmutator, hdescription]⟩
  · rintro ⟨_, ⟨n, hn, rfl⟩, n', hn', h⟩
    simp only [Prod.mk.injEq] at h
    obtain ⟨hmutator, rfl, hdescription⟩ := h
    exact ⟨⟨n', hn⟩, hn.trans hn'.symm, hmutator.symm, hdescription.symm⟩

theorem areCopies_eq_of_key (h : key? d = some k) :
    areCopies d = fun e => decide (key? e = some k) := by
  funext e
  rw [Bool.eq_iff_iff, areCopies_iff_key, decide_eq_true_iff, h]
  simp

def positionsFrom (n : Nat) (ds : List Details) (k : Key) : List Nat :=
  (ds.zipIdx n).filterMap fun x => if key? x.1 = some k then some x.2 else none

theorem positionsFrom_cons : positionsFrom n (d :: ds) k
    = if key? d = some k then n :: positionsFrom (n + 1) ds k else positionsFrom (n + 1) ds k := by
  rw [positionsFrom, List.zipIdx_cons, List.filterMap_cons]
  split <;> simp_all [positionsFrom]

theorem getElem?_foldl_addPosition (g : Groups) :
    ((ds.zipIdx n).foldl addPosition g)[k]?
      = if positionsFrom n ds k = [] then g[k]?
        else some (g[k]?.getD [] ++ positionsFrom n ds k) := by
  induction ds generalizing n g with
  | nil => simp [positionsFrom]
  | cons d ds ih =>
      rw [List.zipIdx_cons, List.foldl_cons, ih, positionsFrom_cons]
      cases hd : key? d with
      | none => simp [addPosition, hd]
      | some k' =>
          simp only [addPosition, hd, Std.HashMap.getElem?_alter, beq_iff_eq, Option.some.injEq]
          by_cases hk : k' = k <;> split <;> simp_all

theorem getElem?_groups :
    (groups ds)[k]? = if positionsFrom 0 ds k = [] then none else some (positionsFrom 0 ds k) := by
  rw [groups, getElem?_foldl_addPosition]
  simp

theorem mem_positionsFrom :
    i ∈ positionsFrom 0 ds k ↔ ∃ d, ds[i]? = some d ∧ key? d = some k := by
  simp only [positionsFrom, List.mem_filterMap, Prod.exists, List.mem_zipIdx_iff_getElem?]
  constructor
  · rintro ⟨d, j, hd, h⟩
    split at h
    · cases h
      exact ⟨d, hd, ‹_›⟩
    · cases h
  · rintro ⟨d, hd, hk⟩
    exact ⟨d, i, hd, if_pos hk⟩

theorem pairwise_positionsFrom : (positionsFrom n ds k).Pairwise (· < ·) := by
  have hzip : (ds.zipIdx n).Pairwise fun x y => x.2 < y.2 := by
    have h := List.pairwise_lt_range' (s := n) (n := ds.length)
    rw [← List.zipIdx_map_snd] at h
    exact List.pairwise_map.1 h
  refine List.pairwise_filterMap.2 (hzip.imp fun hxy i hi j hj => ?_)
  split at hi <;> split at hj <;> cases hi <;> cases hj
  exact hxy

theorem membersAt_positionsFrom : membersAt ds (positionsFrom 0 ds k)
    = ds.filter fun e => decide (key? e = some k) := by
  have hstep : membersAt ds (positionsFrom 0 ds k)
      = ds.zipIdx.filterMap fun x => if key? x.1 = some k then some x.1 else none := by
    rw [membersAt, positionsFrom, List.filterMap_filterMap]
    refine List.filterMap_congr fun x hx => ?_
    rw [List.mem_zipIdx_iff_getElem?] at hx
    split <;> simp [hx]
  rw [hstep, ← List.filterMap_eq_filter]
  conv => rhs; rw [← List.zipIdx_map_fst 0 ds, List.filterMap_map]
  refine List.filterMap_congr fun x _ => ?_
  simp [Option.guard]

theorem membersAt_copies (hd : key? d = some k) :
    membersAt ds (positionsFrom 0 ds k) = copies ds d := by
  rw [membersAt_positionsFrom, copies, areCopies_eq_of_key hd]

theorem mem_order (horder : order.Perm (groups ds).toList) :
    (k, is) ∈ order ↔ is = positionsFrom 0 ds k ∧ is ≠ [] := by
  rw [horder.mem_iff, Std.HashMap.mem_toList_iff_getElem?_eq_some, getElem?_groups]
  by_cases h : positionsFrom 0 ds k = []
  · simp only [h, if_true]
    constructor
    · intro h
      cases h
    · rintro ⟨rfl, h⟩
      exact absurd rfl h
  · rw [if_neg h, Option.some.injEq]
    constructor
    · rintro rfl
      exact ⟨rfl, h⟩
    · rintro ⟨rfl, -⟩
      rfl

theorem qualifies_eq (hd : d ∈ group) :
    qualifies regions b group = isMerged regions b d group := by
  rw [qualifies, isMerged]
  congr 1
  rw [Bool.eq_iff_iff, spansBlocks_iff hd, Bool.and_eq_true, decide_eq_true_iff,
    decide_eq_true_iff, Finset.one_lt_card]
  simp only [List.mem_toFinset, List.mem_map]
  constructor
  · rintro ⟨-, _, ⟨x, hx, rfl⟩, _, ⟨y, hy, rfl⟩, hne⟩
    exact ⟨x, hx, y, hy, hne⟩
  · rintro ⟨x, hx, y, hy, hne⟩
    refine ⟨?_, _, ⟨x, hx, rfl⟩, _, ⟨y, hy, rfl⟩, hne⟩
    rw [← List.length_map fun e => b.numberOf e.firstOrdinal]
    exact one_lt_length (List.mem_map_of_mem hx) (List.mem_map_of_mem hy) hne

structure MergesTo (regions : List OrdinalRange) (b : Blocks) (ds : List Details)
    (x : Key × List Nat) (i : Nat) (is : List Nat) (d : Details) : Prop where
  positions : x.2 = i :: is
  first : (membersAt ds x.2).head? = some d
  qualifies : qualifies regions b (membersAt ds x.2) = true

theorem mergeGroup_cases (acc : Merging) (x : Key × List Nat) :
    (∃ i is d, MergesTo regions b ds x i is d ∧ mergeGroup regions b ds acc x
      = ⟨acc.merged.insert i (merge d (membersAt ds x.2)), acc.absorbed ∪ is.toFinset⟩) ∨
    (∀ i is d, ¬ MergesTo regions b ds x i is d) ∧ mergeGroup regions b ds acc x = acc := by
  unfold mergeGroup
  split
  · rename_i i is d rest hpositions hgroup
    split
    · rename_i hq
      rw [← hgroup] at hq ⊢
      exact .inl ⟨i, is, d, ⟨hpositions, by rw [hgroup]; rfl, hq⟩, rfl⟩
    · rename_i hq
      rw [← hgroup] at hq
      exact .inr ⟨fun _ _ _ h => hq h.qualifies, rfl⟩
  · rename_i hnone
    refine .inr ⟨fun i is d h => ?_, rfl⟩
    obtain ⟨rest, hrest⟩ := List.head?_eq_some_iff.1 h.first
    exact hnone i is d rest h.positions hrest

theorem mem_absorbed_mergeGroup {acc : Merging} {x : Key × List Nat} :
    j ∈ (mergeGroup regions b ds acc x).absorbed ↔
      j ∈ acc.absorbed ∨ ∃ i is d, MergesTo regions b ds x i is d ∧ j ∈ is := by
  rcases mergeGroup_cases acc x with ⟨i, is, d, hm, h⟩ | ⟨hm, h⟩
  · rw [h, Finset.mem_union, List.mem_toFinset]
    refine or_congr_right ⟨fun hj => ⟨i, is, d, hm, hj⟩, ?_⟩
    rintro ⟨i', is', d', hm', hj⟩
    obtain ⟨rfl, rfl⟩ := List.cons.inj (hm.positions.symm.trans hm'.positions)
    exact hj
  · rw [h]
    refine ⟨.inl, ?_⟩
    rintro (hj | ⟨i, is, d, h, -⟩)
    · exact hj
    · exact absurd h (hm i is d)

theorem mem_absorbed_foldl {acc : Merging} :
    j ∈ (order.foldl (mergeGroup regions b ds) acc).absorbed ↔
      j ∈ acc.absorbed ∨ ∃ x ∈ order, ∃ i is d, MergesTo regions b ds x i is d ∧ j ∈ is := by
  induction order generalizing acc with
  | nil => simp
  | cons x order ih =>
      rw [List.foldl_cons, ih, mem_absorbed_mergeGroup, or_assoc]
      simp

theorem merged_foldl {acc : Merging}
    (h : (order.foldl (mergeGroup regions b ds) acc).merged[i]? = some e) :
    acc.merged[i]? = some e ∨ ∃ x ∈ order, ∃ is d,
      MergesTo regions b ds x i is d ∧ e = merge d (membersAt ds x.2) := by
  induction order generalizing acc with
  | nil => exact .inl h
  | cons x order ih =>
      rcases ih h with hfirst | ⟨y, hy, his⟩
      · rcases mergeGroup_cases acc x with ⟨j, is, d, hm, hstep⟩ | ⟨-, hstep⟩
        · rw [hstep, Std.HashMap.getElem?_insert] at hfirst
          split at hfirst
          · obtain rfl := beq_iff_eq.1 ‹_›
            obtain rfl := Option.some.inj hfirst
            exact .inr ⟨x, List.mem_cons_self, is, d, hm, rfl⟩
          · exact .inl hfirst
        · rw [hstep] at hfirst
          exact .inl hfirst
      · exact .inr ⟨y, List.mem_cons_of_mem _ hy, his⟩

theorem isSome_merged_foldl {acc : Merging} (h : acc.merged[i]?.isSome = true ∨
      ∃ x ∈ order, ∃ is d, MergesTo regions b ds x i is d) :
    (order.foldl (mergeGroup regions b ds) acc).merged[i]?.isSome = true := by
  induction order generalizing acc with
  | nil => simpa using h
  | cons x order ih =>
      apply ih
      rcases mergeGroup_cases acc x with ⟨j, is, d, hm, hstep⟩ | ⟨hm, hstep⟩
      · rw [hstep, Std.HashMap.getElem?_insert]
        by_cases hij : (j == i) = true
        · exact .inl (by rw [if_pos hij]; rfl)
        · rw [if_neg hij]
          refine h.imp_right ?_
          rintro ⟨y, hy, is', d', hm'⟩
          rcases List.mem_cons.1 hy with rfl | hy
          · obtain ⟨rfl, -⟩ := List.cons.inj (hm.positions.symm.trans hm'.positions)
            exact absurd (beq_self_eq_true j) hij
          · exact ⟨y, hy, is', d', hm'⟩
      · rw [hstep]
        refine h.imp_right ?_
        rintro ⟨y, hy, is', d', hm'⟩
        rcases List.mem_cons.1 hy with rfl | hy
        · exact absurd hm' (hm i is' d')
        · exact ⟨y, hy, is', d', hm'⟩

theorem head?_positionsFrom (hd : key? d = some k) :
    (positionsFrom n ds k).head? = (ds.findIdx? (areCopies d)).map (· + n) := by
  rw [areCopies_eq_of_key hd]
  induction ds generalizing n with
  | nil => rfl
  | cons e ds ih =>
      rw [positionsFrom_cons, List.findIdx?_cons]
      by_cases he : key? e = some k
      · simp [he]
      · simp [he, ih, Function.comp_def, Nat.add_comm, Nat.add_left_comm]

section Order

variable {x : Key × List Nat}

theorem notMem_of_mergesTo (horder : order.Perm (groups ds).toList) (hx : x ∈ order)
    (hm : MergesTo regions b ds x i is d) : i ∉ is := by
  obtain ⟨hpositions, -⟩ := (mem_order (k := x.1) horder).1 hx
  intro hi
  have hlater := List.pairwise_cons.1 (hm.positions.symm.trans hpositions ▸ pairwise_positionsFrom)
  exact absurd (hlater.1 i hi) (Nat.lt_irrefl i)

theorem isMerged_of_mergesTo (horder : order.Perm (groups ds).toList) (hx : x ∈ order)
    (hm : MergesTo regions b ds x j is e) (hi : ds[i]? = some d) (hmem : i ∈ j :: is) :
    isMerged regions b d (copies ds d) = true ∧ ds.findIdx? (areCopies d) = some j ∧
      ds[j]? = some e ∧ membersAt ds x.2 = copies ds d := by
  obtain ⟨hpositions, -⟩ := (mem_order (k := x.1) horder).1 hx
  have hlist := hm.positions.symm.trans hpositions
  obtain ⟨d', hd', hk⟩ := mem_positionsFrom.1 (hlist ▸ hmem)
  obtain rfl := Option.some.inj (hi.symm.trans hd')
  have hself : d ∈ copies ds d :=
    mem_copies.2 ⟨List.mem_of_getElem? hi, areCopies_iff_key.2 ⟨x.1, hk, hk⟩⟩
  have hgroup : membersAt ds x.2 = copies ds d := by rw [hpositions, membersAt_copies hk]
  refine ⟨?_, ?_, ?_, hgroup⟩
  · rw [← qualifies_eq hself, ← hgroup]
    exact hm.qualifies
  · have hhead : (positionsFrom 0 ds x.1).head? = (ds.findIdx? (areCopies d)).map (· + 0) :=
      head?_positionsFrom hk
    rw [← hlist] at hhead
    simpa using hhead.symm
  · obtain ⟨x', hx', -⟩ := mem_positionsFrom.1 (hlist ▸ List.mem_cons_self)
    have hfirst := hm.first
    rw [hm.positions, membersAt, List.filterMap_cons, hx'] at hfirst
    exact hx'.trans hfirst

theorem exists_mergesTo (horder : order.Perm (groups ds).toList) (hi : ds[i]? = some d)
    (hm : isMerged regions b d (copies ds d) = true) :
    ∃ x ∈ order, ∃ j is e, MergesTo regions b ds x j is e ∧ i ∈ j :: is := by
  obtain ⟨k, hk, -⟩ := areCopies_iff_key.1 (areCopies_of_isMerged hm)
  have hself : d ∈ copies ds d :=
    mem_copies.2 ⟨List.mem_of_getElem? hi, areCopies_of_isMerged hm⟩
  have hmem : i ∈ positionsFrom 0 ds k := mem_positionsFrom.2 ⟨d, hi, hk⟩
  obtain ⟨j, is, hlist⟩ := List.exists_cons_of_ne_nil (List.ne_nil_of_mem hmem)
  obtain ⟨e, rest, hgroup⟩ := List.exists_cons_of_ne_nil (List.ne_nil_of_mem hself)
  refine ⟨(k, positionsFrom 0 ds k), (mem_order horder).2 ⟨rfl, List.ne_nil_of_mem hmem⟩, j, is,
    e, ⟨hlist, ?_, ?_⟩, hlist ▸ hmem⟩
  · rw [membersAt_copies hk, hgroup]
    rfl
  · rwa [membersAt_copies hk, qualifies_eq hself]

theorem mem_absorbed (horder : order.Perm (groups ds).toList) (hi : ds[i]? = some d) :
    i ∈ (mergeGroups regions b ds order).absorbed ↔
      isMerged regions b d (copies ds d) = true ∧ ds.findIdx? (areCopies d) ≠ some i := by
  rw [mergeGroups, mem_absorbed_foldl]
  constructor
  · rintro (h | ⟨x, hx, j, is, e, hm, hlate⟩)
    · exact absurd h (Finset.notMem_empty i)
    · obtain ⟨hmerged, hfirst, -⟩ :=
        isMerged_of_mergesTo horder hx hm hi (List.mem_cons_of_mem _ hlate)
      refine ⟨hmerged, fun h => ?_⟩
      obtain rfl := Option.some.inj (hfirst.symm.trans h)
      exact notMem_of_mergesTo horder hx hm hlate
  · rintro ⟨hmerged, hne⟩
    obtain ⟨x, hx, j, is, e, hm, hmem⟩ := exists_mergesTo horder hi hmerged
    obtain ⟨-, hfirst, -⟩ := isMerged_of_mergesTo horder hx hm hi hmem
    rcases List.mem_cons.1 hmem with rfl | hlate
    · exact absurd hfirst hne
    · exact .inr ⟨x, hx, j, is, e, hm, hlate⟩

theorem getElem?_merged (horder : order.Perm (groups ds).toList) (hi : ds[i]? = some d) :
    (mergeGroups regions b ds order).merged[i]? = some e ↔
      isMerged regions b d (copies ds d) = true ∧ ds.findIdx? (areCopies d) = some i ∧
        e = merge d (copies ds d) := by
  have hsound {e : Details} : (mergeGroups regions b ds order).merged[i]? = some e →
      isMerged regions b d (copies ds d) = true ∧ ds.findIdx? (areCopies d) = some i ∧
        e = merge d (copies ds d) := by
    intro h
    rcases merged_foldl h with h | ⟨x, hx, is, d', hm, rfl⟩
    · simp at h
    · obtain ⟨hmerged, hfirst, hd', hgroup⟩ :=
        isMerged_of_mergesTo horder hx hm hi List.mem_cons_self
      obtain rfl := Option.some.inj (hi.symm.trans hd')
      exact ⟨hmerged, hfirst, by rw [hgroup]⟩
  refine ⟨hsound, ?_⟩
  rintro ⟨hmerged, hfirst, rfl⟩
  -- the group writes something there, and by the other direction only its merge
  obtain ⟨x, hx, j, is, e, hm, hmem⟩ := exists_mergesTo horder hi hmerged
  obtain ⟨-, hj, -⟩ := isMerged_of_mergesTo horder hx hm hi hmem
  obtain rfl := Option.some.inj (hfirst.symm.trans hj)
  have hsome : (mergeGroups regions b ds order).merged[i]?.isSome = true :=
    isSome_merged_foldl (.inr ⟨x, hx, is, e, hm⟩)
  obtain ⟨e', he'⟩ := Option.isSome_iff_exists.1 hsome
  exact he'.trans (congrArg some (hsound he').2.2)

theorem leftAt?_mergeGroups (horder : order.Perm (groups ds).toList) (hi : ds[i]? = some d) :
    (mergeGroups regions b ds order).leftAt? d i = leftAt? regions b ds d i := by
  rw [Merging.leftAt?, InlinedFinally.leftAt?, Std.HashMap.getD_eq_getD_getElem?]
  by_cases hmerged : isMerged regions b d (copies ds d) = true
  · by_cases hfirst : ds.findIdx? (areCopies d) = some i
    · rw [if_neg fun h => ((mem_absorbed horder hi).1 h).2 hfirst,
        (getElem?_merged horder hi).2 ⟨hmerged, hfirst, rfl⟩, if_pos hmerged, hfirst,
        beq_self_eq_true]
      rfl
    · rw [if_pos ((mem_absorbed horder hi).2 ⟨hmerged, hfirst⟩), if_pos hmerged,
        if_neg (by simpa using hfirst)]
  · have hnone : (mergeGroups regions b ds order).merged[i]? = none :=
      Option.eq_none_iff_forall_ne_some.2 fun e he =>
        hmerged ((getElem?_merged horder hi).1 he).1
    rw [if_neg fun h => hmerged ((mem_absorbed horder hi).1 h).1, hnone, if_neg hmerged]
    rfl

theorem applyIn_eq (m : Method) (horder : order.Perm (groups ds).toList) :
    applyIn order m b ds = apply m b ds := by
  have hleft : (ds.zipIdx.filterMap fun (d, i) =>
      (mergeGroups (regions m) b ds order).leftAt? d i) = collapse (regions m) b ds := by
    rw [collapse_eq_filterMap]
    exact List.filterMap_congr fun x hx =>
      leftAt?_mergeGroups horder (List.mem_zipIdx_iff_getElem?.1 hx)
  simp only [applyIn, apply, hleft]

end Order

end BytecodeMutation.InlinedFinally
