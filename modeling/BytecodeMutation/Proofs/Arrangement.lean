import Mathlib.Data.List.Pairwise
import BytecodeMutation.Proofs.Emission
import BytecodeMutation.Proofs.FrameTables
import BytecodeMutation.Proofs.Methods
import BytecodeMutation.Proofs.Splice

namespace BytecodeMutation

open Instruction

theorem Instruction.placedFrom_ascends (offset : Nat) (is : List Instruction) :
    ((placedFrom offset is).map (·.1)).Pairwise (· < ·) := by
  induction is generalizing offset with
  | nil => exact .nil
  | cons i is ih =>
      refine .cons (fun t ht => ?_) (ih _)
      obtain ⟨d, hd, rfl⟩ := List.mem_map.1 ht
      have hle := (placedFrom_lt hd).1
      have hpos := encodedLength_pos offset i
      show offset < d.1
      omega

namespace Placement

variable {t oldLength : Nat} {pieces : List Piece} {p : Placement} {d e : Piece × Nat}

def placed (p : Placement) : List (Piece × Nat) := p.pieces.zip p.offsets

def image (p : Placement) (t : Nat) : Nat := p.map[t]?.getD 0

theorem length_offsets (h : Places oldLength pieces p) : p.offsets.length = p.pieces.length := by
  rw [h.offsets, List.length_map, length_placedFrom, List.length_map]

theorem map_fst_placed (h : Places oldLength pieces p) : p.placed.map (·.1) = p.pieces :=
  List.map_fst_zip (Nat.le_of_eq (length_offsets h).symm)

theorem map_snd_placed (h : Places oldLength pieces p) : p.placed.map (·.2) = p.offsets :=
  List.map_snd_zip (Nat.le_of_eq (length_offsets h))

theorem origins_placed (h : Places oldLength pieces p) :
    p.placed.filterMap (·.1.origin) = p.pieces.filterMap (·.origin) := by
  rw [← map_fst_placed h, List.filterMap_map]
  rfl

theorem placedFrom_zip (offset : Nat) (pieces : List Piece) :
    placedFrom offset (pieces.map (·.instruction)) =
      (pieces.zip ((placedFrom offset (pieces.map (·.instruction))).map (·.1))).map
        fun d => (d.2, d.1.instruction) := by
  induction pieces generalizing offset with
  | nil => rfl
  | cons s pieces ih =>
      simp only [List.map_cons, placedFrom, List.zip_cons_cons]
      rw [← ih]

theorem placedFrom_placed (h : Places oldLength pieces p) :
    placedFrom 0 (p.pieces.map (·.instruction)) =
      p.placed.map fun d => (d.2, d.1.instruction) := by
  rw [placed, h.offsets]
  exact placedFrom_zip 0 p.pieces

theorem eq_of_origin (h : (p.placed.filterMap (·.1.origin)).Nodup) (hd : d ∈ p.placed)
    (he : e ∈ p.placed) (hdt : d.1.origin = some t) (het : e.1.origin = some t) : d = e := by
  have hapart := List.pairwise_filterMap.1 h
  by_contra hne
  have hsymm : Std.Symm fun d e : Piece × Nat => ∀ t, d.1.origin = some t →
      ∀ t', e.1.origin = some t' → t ≠ t' := ⟨fun _ _ h t ht t' ht' heq => h t' ht' t ht heq.symm⟩
  exact hapart.forall hd he hne t hdt t het rfl

theorem map_of_origin (h : Places oldLength pieces p)
    (hnodup : (p.pieces.filterMap (·.origin)).Nodup) (hd : d ∈ p.placed)
    (hdt : d.1.origin = some t) (ht : t ≠ oldLength) : p.map[t]? = some d.2 := by
  rw [← origins_placed h] at hnodup
  rw [h.map]
  refine mapOf_of_mem (fun e he het => ?_) ⟨d, hd, hdt⟩ ht
  rw [eq_of_origin hnodup he hd het hdt]

end Placement

theorem Method.IsRead.settled {m : Method} (h : m.IsRead) : Assembly.IsSettled m.code := by
  intro s hs r hr
  -- the operand is no local variable, so its instruction is legal without further conditions
  have hlegal : s.instruction.Legal := h.legal hs fun index hi => by
    rw [hr] at hi
    cases hi
  rw [Legal, hr] at hlegal
  exact hlegal

namespace Assembly

structure Emission extends Piece where
  ordinal : Nat
  offset : Nat

structure Emission.Before (x y : Emission) : Prop where
  offset : x.offset < y.offset
  ordinal : x.ordinal ≤ y.ordinal
  first : y.origin ≠ none → x.ordinal < y.ordinal

def labelled (code : List Site) (stream : List StreamItem) : List (Nat × Piece) :=
  stream.flatMap fun item => (emitted code item).map fun e => (item.ordinal, e)

def emissionsOf (labels : List (Nat × Piece)) (placed : List (Piece × Nat)) : List Emission :=
  labels.zipWith (fun x d => ⟨d.1, x.1, d.2⟩) placed

section Labels

variable {code : List Site} {stream : List StreamItem} {x : Nat × Piece}

theorem map_snd_labelled (code : List Site) (stream : List StreamItem) :
    (labelled code stream).map (·.2) = stream.flatMap (emitted code) := by
  rw [labelled, List.map_flatMap]
  refine List.flatMap_congr fun item _ => ?_
  rw [List.map_map]
  exact List.map_id _

theorem site_of_labelled (hx : x ∈ labelled code stream) :
    ∃ s, code[x.1]? = some s ∧ ∀ t, x.2.origin = some t → t = s.offset := by
  obtain ⟨item, -, hx⟩ := List.mem_flatMap.1 hx
  obtain ⟨e, he, rfl⟩ := List.mem_map.1 hx
  cases item with
  | kept ordinal =>
      obtain ⟨s, hs, rfl⟩ := List.mem_map.1 he
      refine ⟨s, Option.mem_toList.1 hs, fun t ht => ?_⟩
      exact (Option.some.inj ht).symm
  | replaced ordinal is =>
      obtain ⟨s, hs, he⟩ := List.mem_flatMap.1 he
      refine ⟨s, Option.mem_toList.1 hs, fun t ht => ?_⟩
      cases is with
      | nil => cases he
      | cons i is =>
          rcases List.mem_cons.1 he with rfl | he
          · exact (Option.some.inj ht).symm
          · obtain ⟨j, -, rfl⟩ := List.mem_map.1 he
            cases ht

theorem emitted_once (code : List Site) (item : StreamItem) :
    (emitted code item).Pairwise fun _ e => e.origin = none := by
  have hmarked : ∀ origin is, (marked origin is).Pairwise fun _ e => e.origin = none := by
    intro origin is
    cases is with
    | nil => exact .nil
    | cons i is =>
        refine .cons (fun e he => ?_) ?_
        · obtain ⟨j, -, rfl⟩ := List.mem_map.1 he
          rfl
        · rw [List.pairwise_map]
          exact List.pairwise_of_forall fun _ _ => rfl
  cases item with
  | kept ordinal =>
      simp only [emitted]
      cases code[ordinal]? with
      | none => exact .nil
      | some s => exact List.pairwise_singleton _ _
  | replaced ordinal is =>
      simp only [emitted]
      cases code[ordinal]? with
      | none => exact .nil
      | some s =>
          rw [Option.toList_some, List.flatMap_singleton]
          exact hmarked s.offset is

theorem InOrder.pairwise_labelled (h : InOrder code stream) :
    (labelled code stream).Pairwise fun x y => x.1 ≤ y.1 ∧ (y.2.origin ≠ none → x.1 < y.1) := by
  have hordinals : (stream.map StreamItem.ordinal).Pairwise (· < ·) := by
    rw [h.ordinals]
    exact List.pairwise_lt_range
  refine List.pairwise_flatMap.2 ⟨fun item _ => ?_, (List.pairwise_map.1 hordinals).imp ?_⟩
  · rw [List.pairwise_map]
    exact (emitted_once code item).imp fun hnone => ⟨Nat.le_refl _, fun hsome => absurd hnone hsome⟩
  · intro item item' hlt x hx y hy
    obtain ⟨e, -, rfl⟩ := List.mem_map.1 hx
    obtain ⟨e', -, rfl⟩ := List.mem_map.1 hy
    exact ⟨Nat.le_of_lt hlt, fun _ => hlt⟩

theorem forall₂_emissionsOf {R : Piece → Piece → Prop} {labels : List (Nat × Piece)}
    {placed : List (Piece × Nat)}
    (h : List.Forall₂ R (labels.map (·.2)) (placed.map (·.1))) :
    List.Forall₂ (fun x e => e.ordinal = x.1 ∧ R x.2 e.toPiece) labels
      (emissionsOf labels placed) := by
  induction labels generalizing placed with
  | nil => exact .nil
  | cons x labels ih =>
      cases placed with
      | nil => cases h
      | cons d placed =>
          cases h with
          | cons hx hrest => exact .cons ⟨rfl, hx⟩ (ih hrest)

theorem map_emissionsOf {labels : List (Nat × Piece)} {placed : List (Piece × Nat)}
    (h : labels.length = placed.length) :
    (emissionsOf labels placed).map (fun e => (e.toPiece, e.offset)) = placed := by
  induction labels generalizing placed with
  | nil => exact (List.length_eq_zero_iff.1 h.symm).symm
  | cons x labels ih =>
      cases placed with
      | nil => cases h
      | cons d placed => exact congrArg (d :: ·) (ih (Nat.succ.inj h))

end Labels

structure Arranges (l : ClassFile) (c : CodeBody) (m : Method) (stream : List StreamItem)
    (c' : CodeBody) (tail : PoolTail) (pieces : List Piece) (p : Placement) : Prop where
  recodes : Recodes l c m stream c' tail pieces p
  inOrder : InOrder m.code stream
  read : m.IsRead
  length : c.code.length = m.codeLength

variable {l : ClassFile} {c c' : CodeBody} {m : Method} {stream : List StreamItem}
  {tail : PoolTail} {pieces : List Piece} {p : Placement}

theorem Recodes.extends (h : Recodes l c m stream c' tail pieces p) :
    tail.Extends l.pool.count :=
  (piecesFrom_ok (PoolTail.extends_nil l.pool.count) h.emits).1.holds

theorem Recodes.stands (h : Recodes l c m stream c' tail pieces p) (hsettled : IsSettled m.code) :
    List.Forall₂ (Stands (tail.extend l.pool).constants) (stream.flatMap (emitted m.code))
      p.pieces := by
  obtain ⟨-, ps, rfl, hps⟩ := piecesFrom_ok (PoolTail.extends_nil l.pool.count) h.emits
  have hsub : tail.constants ⊆ (tail.extend l.pool).constants := fun d hd =>
    List.mem_append_right _ (List.mem_reverse.2 hd)
  exact Placement.forall₂_trans (fun e s q hs hw => ⟨s, hs.mono hsub, hw⟩) (hps hsettled)
    h.places.widens

namespace Arranges

variable (h : Arranges l c m stream c' tail pieces p) {t t' : Nat} {d : Piece × Nat}

include h

theorem stands : List.Forall₂ (Stands (tail.extend l.pool).constants)
    (stream.flatMap (emitted m.code)) p.pieces :=
  h.recodes.stands h.read.settled

theorem origins : p.pieces.filterMap (·.origin) = m.offsets := by
  rw [Method.offsets, ← h.inOrder.origins]
  exact Placement.origins_of_forall₂ (fun _ _ he => he.origin) h.stands

theorem offset_lt (ht : t ∈ m.offsets) : t < c.code.length := by
  rw [h.length]
  exact h.read.offset_lt ht

theorem map_of_origin (hd : d ∈ p.placed) (hdt : d.1.origin = some t) : p.map[t]? = some d.2 := by
  have hmem : t ∈ p.pieces.filterMap (·.origin) :=
    List.mem_filterMap.2 ⟨d.1, (List.of_mem_zip hd).1, hdt⟩
  have hnodup := h.read.nodup_offsets
  rw [h.origins] at hmem
  rw [← h.origins] at hnodup
  exact Placement.map_of_origin h.recodes.places hnodup hd hdt (Nat.ne_of_lt (h.offset_lt hmem))

theorem exists_origin (ht : t ∈ m.offsets) : ∃ d ∈ p.placed, d.1.origin = some t := by
  rw [← h.origins, ← Placement.origins_placed h.recodes.places] at ht
  exact List.mem_filterMap.1 ht

theorem image_eq (hd : d ∈ p.placed) (hdt : d.1.origin = some t) : p.image t = d.2 := by
  rw [Placement.image, h.map_of_origin hd hdt]
  rfl

theorem map_image (ht : t ∈ m.offsets) : p.map[t]? = some (p.image t) ∧ p.image t < 65536 := by
  obtain ⟨d, hd, hdt⟩ := h.exists_origin ht
  have hmap := h.map_of_origin hd hdt
  rw [h.image_eq hd hdt]
  exact ⟨hmap, h.recodes.places.isShort hmap⟩

theorem image_mem (ht : t ∈ m.offsets) : p.image t ∈ p.offsets := by
  obtain ⟨d, hd, hdt⟩ := h.exists_origin ht
  rw [h.image_eq hd hdt]
  exact (List.of_mem_zip hd).2

theorem mem_offsets (ht : t ∈ m.offsets) (hmap : p.map[t]? = some t') : t' ∈ p.offsets := by
  obtain rfl := Option.some.inj ((h.map_image ht).1.symm.trans hmap)
  exact h.image_mem ht

theorem length_new : Instruction.endFrom 0 (p.pieces.map (·.instruction)) = c'.code.length := by
  have hend := h.recodes.encodes.length
  rw [Nat.zero_add] at hend
  exact hend.symm

theorem map_end : p.map[m.codeLength]? = some c'.code.length := by
  rw [← h.length, h.recodes.places.map, h.length_new]
  exact Placement.mapOf_oldLength

end Arranges

def emissions (m : Method) (stream : List StreamItem) (p : Placement) : List Emission :=
  emissionsOf (labelled m.code stream) p.placed

namespace Arranges

variable (h : Arranges l c m stream c' tail pieces p) {t t' : Nat} {e : Emission} {s : Site}

include h

theorem stands_emissions :
    List.Forall₂ (fun x e => e.ordinal = x.1 ∧ Stands (tail.extend l.pool).constants x.2 e.toPiece)
      (labelled m.code stream) (emissions m stream p) := by
  refine forall₂_emissionsOf ?_
  rw [map_snd_labelled, Placement.map_fst_placed h.recodes.places]
  exact h.stands

theorem map_emissions :
    (emissions m stream p).map (fun e => (e.toPiece, e.offset)) = p.placed := by
  have hlabelled := congrArg List.length (map_snd_labelled m.code stream)
  have hplaced := congrArg List.length (Placement.map_fst_placed h.recodes.places)
  rw [List.length_map] at hlabelled hplaced
  exact map_emissionsOf (hlabelled.trans (h.stands.length_eq.trans hplaced.symm))

theorem offsets_emissions : (emissions m stream p).map (·.offset) = p.offsets := by
  rw [← Placement.map_snd_placed h.recodes.places, ← h.map_emissions, List.map_map]
  rfl

theorem before_emissions : (emissions m stream p).Pairwise Emission.Before := by
  have hsame : (emissions m stream p).map (fun e => (e.ordinal, e.origin))
      = (labelled m.code stream).map fun x => (x.1, x.2.origin) := by
    rw [eq_comm, ← List.forall₂_eq_eq_eq, List.forall₂_map_left_iff, List.forall₂_map_right_iff]
    exact h.stands_emissions.imp fun x e hx => Prod.ext hx.1.symm hx.2.origin.symm
  have hlabels : ((emissions m stream p).map fun e => (e.ordinal, e.origin)).Pairwise
      fun x y => x.1 ≤ y.1 ∧ (y.2 ≠ none → x.1 < y.1) := by
    rw [hsame, List.pairwise_map]
    exact h.inOrder.pairwise_labelled
  have hoffsets : ((emissions m stream p).map (·.offset)).Pairwise (· < ·) := by
    rw [h.offsets_emissions, h.recodes.places.offsets]
    exact placedFrom_ascends 0 _
  refine ((List.pairwise_map.1 hlabels).and (List.pairwise_map.1 hoffsets)).imp ?_
  exact fun ⟨⟨hordinal, hfirst⟩, hoffset⟩ => ⟨hoffset, hordinal, hfirst⟩

theorem exists_site (he : e ∈ emissions m stream p) :
    ∃ s, m.code[e.ordinal]? = some s ∧ ∀ t, e.origin = some t → t = s.offset := by
  obtain ⟨x, hx, hordinal, hstands⟩ := Result.exists_left_of_mem h.stands_emissions he
  rw [hordinal, hstands.origin]
  exact site_of_labelled hx

theorem emission_lt (he : e ∈ emissions m stream p) : e.offset < c'.code.length := by
  have hmem : e.offset ∈ p.offsets := by
    rw [← h.offsets_emissions]
    exact List.mem_map_of_mem he
  rw [h.recodes.places.offsets] at hmem
  obtain ⟨d, hd, hoffset⟩ := List.mem_map.1 hmem
  rw [← h.length_new, ← hoffset]
  exact (placedFrom_lt hd).2

theorem exists_emission (ht : p.map[t]? = some t') :
    (t = m.codeLength ∧ t' = c'.code.length) ∨
      ∃ e ∈ emissions m stream p, e.origin = some t ∧ e.offset = t' := by
  rw [h.recodes.places.map, h.length, h.length_new] at ht
  rcases Placement.mem_of_mapOf ht with hend | ⟨d, hd, hdt, rfl⟩
  · exact .inl hend
  · have hd : d ∈ p.placed := hd
    rw [← h.map_emissions] at hd
    obtain ⟨e, he, rfl⟩ := List.mem_map.1 hd
    exact .inr ⟨e, he, hdt, rfl⟩

theorem offset_le_iff {e' : Emission} (he : e ∈ emissions m stream p)
    (he' : e' ∈ emissions m stream p) (hmarked : e.origin ≠ none) :
    e.offset ≤ e'.offset ↔ e.ordinal ≤ e'.ordinal := by
  by_cases heq : e = e'
  · rw [heq]
    exact iff_of_true (Nat.le_refl _) (Nat.le_refl _)
  · have hsymm : Std.Symm fun x y : Emission => x.Before y ∨ y.Before x := ⟨fun _ _ => Or.symm⟩
    have hapart : (emissions m stream p).Pairwise fun x y => x.Before y ∨ y.Before x :=
      h.before_emissions.imp Or.inl
    rcases hapart.forall he he' heq with hlt | hlt
    · exact iff_of_true (Nat.le_of_lt hlt.offset) hlt.ordinal
    · exact iff_of_false (Nat.not_le.2 hlt.offset) (Nat.not_le.2 (hlt.first hmarked))

theorem image_le_iff (ht : p.map[t]? = some t') (he : e ∈ emissions m stream p)
    (hs : m.code[e.ordinal]? = some s) : t' ≤ e.offset ↔ t ≤ s.offset := by
  rcases h.exists_emission ht with ⟨rfl, rfl⟩ | ⟨first, hfirst, horigin, rfl⟩
  · have hlt := h.read.offset_lt (List.mem_map_of_mem (List.mem_of_getElem? hs))
    exact iff_of_false (Nat.not_le.2 (h.emission_lt he)) (Nat.not_le.2 hlt)
  · obtain ⟨s', hs', hoffset⟩ := h.exists_site hfirst
    have hmarked : first.origin ≠ none := by
      rw [horigin]
      exact nofun
    rw [h.offset_le_iff hfirst he hmarked, hoffset t horigin]
    exact (h.read.offset_le_iff hs' hs).symm

theorem isIncreasing : p.map.IsIncreasing := by
  intro s s' t t' hs ht hlt
  rcases h.exists_emission hs with ⟨rfl, rfl⟩ | ⟨e, he, horigin, rfl⟩
  · rcases h.exists_emission ht with ⟨rfl, rfl⟩ | ⟨e, he, horigin, rfl⟩
    · exact absurd hlt (Nat.lt_irrefl _)
    · obtain ⟨s, hsite, hoffset⟩ := h.exists_site he
      have hmem := h.read.offset_lt (List.mem_map_of_mem (List.mem_of_getElem? hsite))
      rw [← hoffset t horigin] at hmem
      exact absurd hlt (Nat.lt_asymm hmem)
  · obtain ⟨site, hsite, hoffset⟩ := h.exists_site he
    rw [← Nat.not_le, h.image_le_iff ht he hsite, ← hoffset s horigin, Nat.not_le]
    exact hlt

theorem find?_image {k : Nat} (ht : p.map[t]? = some t') (hs : m.code[k]? = some s)
    (hoffset : s.offset = t) : ∃ e, (emissions m stream p).find? (·.ordinal == k) = some e ∧
      e.offset = t' := by
  rcases h.exists_emission ht with ⟨rfl, rfl⟩ | ⟨first, hfirst, horigin, rfl⟩
  · have hlt := h.read.offset_lt (List.mem_map_of_mem (List.mem_of_getElem? hs))
    exact absurd hoffset (Nat.ne_of_lt hlt)
  · obtain ⟨s', hs', hsame⟩ := h.exists_site hfirst
    have hordinal : first.ordinal = k :=
      h.read.ordinal_inj hs' hs ((hsame t horigin).symm.trans hoffset.symm)
    obtain ⟨before, after, heq⟩ := List.append_of_mem hfirst
    have hbefore := h.before_emissions
    rw [heq] at hbefore
    refine ⟨first, List.find?_eq_some_iff_append.2 ⟨beq_iff_eq.2 hordinal, before, after, heq, ?_⟩,
      rfl⟩
    intro x hx
    have hlt := ((List.pairwise_append.1 hbefore).2.2 x hx first List.mem_cons_self).first
      (by rw [horigin]; exact nofun)
    simp only [Bool.not_eq_true', beq_eq_false_iff_ne]
    omega

end Arranges

end Assembly

end BytecodeMutation
