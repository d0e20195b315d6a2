import BytecodeMutation.Assembly
import BytecodeMutation.Proofs.Codec

namespace BytecodeMutation

namespace Instruction

def endFrom (offset : Nat) : List Instruction → Nat
  | [] => offset
  | i :: is => endFrom (offset + i.encodedLength offset) is

theorem encodedLength_pos (offset : Nat) (i : Instruction) : 0 < i.encodedLength offset := by
  unfold encodedLength
  split <;> (try split) <;> omega

theorem le_endFrom (offset : Nat) (is : List Instruction) : offset ≤ endFrom offset is := by
  induction is generalizing offset with
  | nil => exact Nat.le_refl offset
  | cons i is ih => exact Nat.le_trans (Nat.le_add_right _ _) (ih _)

theorem placedFrom_le {offset : Nat} {is : List Instruction} {d : Nat × Instruction}
    (h : d ∈ placedFrom offset is) :
    offset ≤ d.1 ∧ d.1 + d.2.encodedLength d.1 ≤ endFrom offset is := by
  induction is generalizing offset with
  | nil => cases h
  | cons i is ih =>
      have hend := le_endFrom (offset + i.encodedLength offset) is
      rcases List.mem_cons.1 h with rfl | h
      · exact ⟨Nat.le_refl _, hend⟩
      · obtain ⟨hl, hu⟩ := ih h
        exact ⟨by omega, hu⟩

theorem placedFrom_lt {offset : Nat} {is : List Instruction} {d : Nat × Instruction}
    (h : d ∈ placedFrom offset is) : offset ≤ d.1 ∧ d.1 < endFrom offset is := by
  obtain ⟨hle, hend⟩ := placedFrom_le h
  have hpos := encodedLength_pos d.1 d.2
  omega

theorem count_le_encodedLength (offset : Nat) (i : Instruction) :
    ∀ k ∈ i.operand.keys?, k.2 ≤ i.encodedLength offset := by
  intro k hk
  obtain ⟨op, operand⟩ := i
  cases operand <;> cases hk
  simp only [encodedLength]
  omega

theorem length_placedFrom (offset : Nat) (is : List Instruction) :
    (placedFrom offset is).length = is.length := by
  induction is generalizing offset with
  | nil => rfl
  | cons i is ih => simp only [placedFrom, List.length_cons, ih]

theorem Encodes.length {moved : TargetMap} {offset : Nat} {is : List Instruction} {s : Bytes}
    (h : Encodes moved offset is s) : offset + s.length = endFrom offset is := by
  induction h with
  | nil => rfl
  | @cons offset i is bytes s h _ ih =>
      rw [List.length_append, length_encode h, endFrom, ← ih]
      omega

end Instruction

namespace Placement

open Instruction

inductive Widens : Piece → Piece → Prop where
  | same (s : Piece) : Widens s s
  | goto (origin : Option Nat) (target : Nat) :
      Widens ⟨origin, ⟨Opcode.goto, .branch target⟩⟩ ⟨origin, ⟨Opcode.gotoW, .branch target⟩⟩
  | jsr (origin : Option Nat) (target : Nat) :
      Widens ⟨origin, ⟨Opcode.jsr, .branch target⟩⟩ ⟨origin, ⟨Opcode.jsrW, .branch target⟩⟩

theorem Widens.trans {s t u : Piece} (h : Widens s t) (h' : Widens t u) : Widens s u := by
  cases h with
  | same => exact h'
  | goto origin target =>
      cases h'
      exact .goto origin target
  | jsr origin target =>
      cases h'
      exact .jsr origin target

theorem Widens.origin {s t : Piece} (h : Widens s t) : t.origin = s.origin := by
  cases h <;> rfl

theorem origins_of_forall₂ {R : Piece → Piece → Prop} {as bs : List Piece}
    (hR : ∀ a b, R a b → b.origin = a.origin) (h : List.Forall₂ R as bs) :
    bs.filterMap (·.origin) = as.filterMap (·.origin) := by
  induction h with
  | nil => rfl
  | cons hab _ ih => simp only [List.filterMap_cons, hR _ _ hab, ih]

def Reaches (map : OffsetMap) (s : Piece) (offset : Nat) : Prop :=
  ∀ target, s.instruction.operand = .branch target → Opcode.isFarJump s.instruction.opcode = false →
    ∃ moved, map[target]? = some moved ∧ reaches offset moved = true

variable {map : OffsetMap} {offset oldLength : Nat} {s t : Piece} {acc pieces out : List Piece}
  {widened w : Bool}

theorem widenPiece_ok (h : widenPiece map offset s = .ok (t, w)) :
    Widens s t ∧ (w = false → t = s ∧ Reaches map s offset) := by
  obtain ⟨origin, op, operand⟩ := s
  simp only [widenPiece] at h
  split at h
  · rename_i target
    split at h
    · rename_i hfar
      cases h
      refine ⟨.same _, fun _ => ⟨rfl, fun _ _ hnear => ?_⟩⟩
      rw [hfar] at hnear
      cases hnear
    · split at h
      · cases h
      · rename_i moved hmoved
        split at h
        · rename_i hreach
          cases h
          refine ⟨.same _, fun _ => ⟨rfl, fun target' htarget _ => ?_⟩⟩
          cases htarget
          exact ⟨moved, hmoved, hreach⟩
        · split at h
          · rename_i hop
            obtain rfl := beq_iff_eq.1 hop
            cases h
            refine ⟨.goto origin target, fun hw => ?_⟩
            cases hw
          · split at h
            · rename_i hop
              obtain rfl := beq_iff_eq.1 hop
              cases h
              refine ⟨.jsr origin target, fun hw => ?_⟩
              cases hw
            · split at h <;> cases h
  · rename_i hop
    cases h
    exact ⟨.same _, fun _ => ⟨rfl, fun target htarget _ => absurd htarget (hop target)⟩⟩

theorem widenFrom_ok {rest : List (Piece × Nat)}
    (h : widenFrom map acc widened rest = .ok (out, w)) :
    (∃ ps, out = acc.reverse ++ ps ∧ List.Forall₂ Widens (rest.map (·.1)) ps) ∧
      (w = false → ∀ d ∈ rest, Reaches map d.1 d.2) := by
  induction rest generalizing acc widened with
  | nil =>
      cases h
      exact ⟨⟨[], by simp, .nil⟩, fun _ => nofun⟩
  | cons d rest ih =>
      obtain ⟨s, offset⟩ := d
      have hw := (widenFrom_narrow h).1
      simp only [widenFrom] at h
      split at h
      · rename_i t v ht
        obtain ⟨hwidens, hreach⟩ := widenPiece_ok ht
        obtain ⟨⟨ps, rfl, hps⟩, hrest⟩ := ih h
        refine ⟨⟨t :: ps, by simp, .cons hwidens hps⟩, fun hfalse => ?_⟩
        have hv := (widenFrom_narrow h).1 hfalse
        rw [Bool.or_eq_false_iff] at hv
        exact List.forall_mem_cons.2 ⟨(hreach hv.2).2, hrest hfalse⟩
      · cases h

theorem offsetsFrom_eq (offset : Nat) (acc : List Nat) (pieces : List Piece) :
    offsetsFrom offset acc pieces =
      (acc.reverse ++ (placedFrom offset (pieces.map (·.instruction))).map (·.1),
        endFrom offset (pieces.map (·.instruction))) := by
  induction pieces generalizing offset acc with
  | nil => simp [offsetsFrom, placedFrom, endFrom]
  | cons s pieces ih => simp [offsetsFrom, placedFrom, endFrom, ih, next]

/-- A placement of pieces with some jumps widened, in which every short jump reaches its target. -/
structure Places (oldLength : Nat) (pieces : List Piece) (p : Placement) : Prop where
  widens : List.Forall₂ Widens pieces p.pieces
  offsets : p.offsets = (placedFrom 0 (p.pieces.map (·.instruction))).map (·.1)
  length : endFrom 0 (p.pieces.map (·.instruction)) ≤ maxCodeLength
  map : p.map = mapOf p.pieces p.offsets oldLength (endFrom 0 (p.pieces.map (·.instruction)))
  reaches : ∀ d ∈ p.pieces.zip p.offsets, Reaches p.map d.1 d.2

theorem zip_placedFrom_fst (offset : Nat) (pieces : List Piece) :
    (pieces.zip ((placedFrom offset (pieces.map (·.instruction))).map (·.1))).map (·.1)
      = pieces := by
  rw [List.map_fst_zip]
  simp [length_placedFrom]

theorem round_ok {r : Placement ⊕ List Piece} (h : round oldLength pieces = .ok r) :
    (∀ p, r = .inl p → Places oldLength pieces p) ∧
      ∀ ps, r = .inr ps → List.Forall₂ Widens pieces ps := by
  simp only [round, offsetsFrom_eq, List.reverse_nil, List.nil_append] at h
  split at h
  · cases h
  · rename_i hlength
    split at h
    · cases h
    · rename_i hwiden
      cases h
      obtain ⟨-, hreach⟩ := widenFrom_ok hwiden
      constructor
      · rintro p ⟨⟩
        exact ⟨List.forall₂_same.2 fun s _ => .same s, rfl, Nat.le_of_not_lt hlength, rfl,
          hreach rfl⟩
      · intro ps heq
        cases heq
    · rename_i hwiden
      cases h
      obtain ⟨⟨ps, rfl, hps⟩, -⟩ := widenFrom_ok hwiden
      rw [zip_placedFrom_fst] at hps
      constructor
      · intro p heq
        cases heq
      · rintro _ ⟨⟩
        simpa using hps

theorem forall₂_trans {α β γ : Type} {R : α → β → Prop} {S : β → γ → Prop} {T : α → γ → Prop}
    {as : List α} {bs : List β} {cs : List γ} (h : ∀ a b c, R a b → S b c → T a c)
    (hr : List.Forall₂ R as bs) (hs : List.Forall₂ S bs cs) : List.Forall₂ T as cs := by
  induction hr generalizing cs with
  | nil =>
      cases hs
      exact .nil
  | cons hab _ ih =>
      cases hs with
      | cons hbc hs => exact .cons (h _ _ _ hab hbc) (ih hs)

theorem ofPieces_ok {p : Placement} (h : ofPieces oldLength pieces = .ok p) :
    Places oldLength pieces p := by
  fun_induction ofPieces oldLength pieces with
  | case1 pieces e hr => cases h
  | case2 pieces q hr =>
      cases h
      exact (round_ok hr).1 _ rfl
  | case3 pieces widened hr ih =>
      have hp := ih h
      have hw := (round_ok hr).2 _ rfl
      exact ⟨forall₂_trans (fun _ _ _ h h' => h.trans h') hw hp.widens, hp.offsets, hp.length,
        hp.map, hp.reaches⟩

theorem getElem?_addOrigin (map : OffsetMap) (d : Piece × Nat) (t : Nat) :
    (addOrigin map d)[t]? = if d.1.origin = some t then some d.2 else map[t]? := by
  unfold addOrigin
  split
  · rename_i origin horigin
    simp [Std.TreeMap.getElem?_insert, horigin]
  · rename_i horigin
    simp [horigin]

theorem foldl_addOrigin_of_mem {t offset : Nat} {placed : List (Piece × Nat)} {map : OffsetMap}
    (hall : ∀ d ∈ placed, d.1.origin = some t → d.2 = offset)
    (h : map[t]? = some offset ∨ ∃ d ∈ placed, d.1.origin = some t) :
    (placed.foldl addOrigin map)[t]? = some offset := by
  induction placed generalizing map with
  | nil => simpa using h
  | cons d placed ih =>
      obtain ⟨hd, hall⟩ := List.forall_mem_cons.1 hall
      refine ih hall ?_
      rw [getElem?_addOrigin]
      split
      · rename_i horigin
        exact .inl (congrArg some (hd horigin))
      · rename_i horigin
        exact h.imp_right fun ⟨e, he, heo⟩ =>
          ⟨e, (List.mem_cons.1 he).resolve_left (fun hed => horigin (hed ▸ heo)), heo⟩

theorem mem_of_foldl_addOrigin {t offset : Nat} {placed : List (Piece × Nat)} {map : OffsetMap}
    (h : (placed.foldl addOrigin map)[t]? = some offset) :
    map[t]? = some offset ∨ ∃ d ∈ placed, d.1.origin = some t ∧ d.2 = offset := by
  induction placed generalizing map with
  | nil => exact .inl h
  | cons d placed ih =>
      rcases ih h with h | ⟨e, he, h⟩
      · rw [getElem?_addOrigin] at h
        split at h
        · rename_i horigin
          exact .inr ⟨d, List.mem_cons_self, horigin, Option.some.inj h⟩
        · exact .inl h
      · exact .inr ⟨e, List.mem_cons_of_mem _ he, h⟩

variable {offsets : List Nat} {newLength : Nat}

theorem mapOf_oldLength :
    (mapOf pieces offsets oldLength newLength)[oldLength]? = some newLength := by
  simp [mapOf]

theorem mapOf_of_mem {t : Nat} (hall : ∀ d ∈ pieces.zip offsets, d.1.origin = some t → d.2 = offset)
    (h : ∃ d ∈ pieces.zip offsets, d.1.origin = some t) (ht : t ≠ oldLength) :
    (mapOf pieces offsets oldLength newLength)[t]? = some offset := by
  rw [mapOf, Std.TreeMap.getElem?_insert]
  simp only [Nat.compare_eq_eq, Ne.symm ht, if_false]
  exact foldl_addOrigin_of_mem hall (.inr h)

theorem mem_of_mapOf {t : Nat} (h : (mapOf pieces offsets oldLength newLength)[t]? = some offset) :
    (t = oldLength ∧ offset = newLength) ∨
      ∃ d ∈ pieces.zip offsets, d.1.origin = some t ∧ d.2 = offset := by
  rw [mapOf, Std.TreeMap.getElem?_insert] at h
  split at h
  · rename_i heq
    exact .inl ⟨(Nat.compare_eq_eq.1 heq).symm, (Option.some.inj h).symm⟩
  · rcases mem_of_foldl_addOrigin h with h | h
    · cases h
    · exact .inr h

end Placement

namespace Assembly

open Instruction

variable {map : OffsetMap} {acc : List Bytes} {pieces : List Piece} {code : Bytes}

theorem encodeFrom_ok {offset : Nat}
    (h : encodeFrom map acc
      (pieces.zip ((placedFrom offset (pieces.map (·.instruction))).map (·.1))) = .ok code) :
    ∃ s, code = acc.reverse.flatten ++ s ∧
      Encodes (target map) offset (pieces.map (·.instruction)) s := by
  induction pieces generalizing offset acc with
  | nil =>
      cases h
      exact ⟨[], by simp, .nil⟩
  | cons p pieces ih =>
      simp only [List.map_cons, placedFrom, List.zip_cons_cons, encodeFrom] at h
      split at h
      · rename_i bytes hbytes
        obtain ⟨s, rfl, hs⟩ := ih h
        exact ⟨bytes ++ s, by simp, .cons hbytes hs⟩
      · cases h

end Assembly

end BytecodeMutation
