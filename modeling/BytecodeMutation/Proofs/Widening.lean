import BytecodeMutation.Proofs.Arrangement
import BytecodeMutation.Proofs.Writing

namespace BytecodeMutation

theorem Assembly.target_ok {map : OffsetMap} {t t' : Nat} :
    target map t = .ok t' ↔ map[t]? = some t' := by
  unfold Assembly.target
  split
  · rename_i moved hmoved
    rw [Except.ok.injEq, hmoved, Option.some.injEq]
  · rename_i hnone
    rw [hnone]
    exact iff_of_false nofun nofun

namespace Placement

open Instruction

variable {map : OffsetMap} {ts : List Nat} {t n offset oldLength newLength : Nat} {s s' : Piece}
  {acc pieces widened : List Piece} {offsets : List Nat} {placed : List (Piece × Nat)}
  {p : Placement} {e : Fault}

def JumpsWithin (ts : List Nat) (s : Piece) : Prop :=
  ∀ target, s.instruction.operand = .branch target → target ∈ ts ∧
    (Opcode.isJump s.instruction.opcode = true ∨ Opcode.isConditional s.instruction.opcode = true)

theorem JumpsWithin.widens (h : JumpsWithin ts s) (hw : Widens s s') : JumpsWithin ts s' := by
  cases hw with
  | same => exact h
  | goto origin target => exact fun t ht => ⟨(h t ht).1, .inl rfl⟩
  | jsr origin target => exact fun t ht => ⟨(h t ht).1, .inl rfl⟩

def Misses (map : OffsetMap) (s : Piece) (offset : Nat) : Prop :=
  ∃ target moved, s.instruction.operand = .branch target ∧
    Opcode.isConditional s.instruction.opcode = true ∧ map[target]? = some moved ∧
    reaches offset moved = false

theorem widenPiece_error (h : JumpsWithin ts s) (hmap : ∀ t ∈ ts, ∃ t' : Nat, map[t]? = some t')
    (he : widenPiece map offset s = .error e) :
    e = .limit (.conditionalOutOfReach offset) ∧ Misses map s offset := by
  unfold widenPiece at he
  simp only at he
  split at he
  · rename_i target htarget
    obtain ⟨hmem, hop⟩ := h target htarget
    obtain ⟨moved, hmoved⟩ := hmap target hmem
    simp only [hmoved] at he
    split at he
    · cases he
    rename_i hfar
    split at he
    · cases he
    rename_i hreach
    split at he
    · cases he
    rename_i hgoto
    split at he
    · cases he
    rename_i hjsr
    -- what is no jump of either width is conditional
    have hconditional : Opcode.isConditional s.instruction.opcode = true := by
      refine hop.resolve_left fun hjump => ?_
      simp only [Opcode.isFarJump, Bool.or_eq_true, not_or] at hfar
      simp only [Opcode.isJump, Bool.or_eq_true] at hjump
      tauto
    rw [if_pos hconditional] at he
    cases he
    exact ⟨rfl, target, moved, htarget, hconditional, hmoved, Bool.eq_false_iff.2 hreach⟩
  · cases he

theorem widenFrom_error {w : Bool} (h : ∀ d ∈ placed, JumpsWithin ts d.1)
    (hmap : ∀ t ∈ ts, ∃ t' : Nat, map[t]? = some t') (he : widenFrom map acc w placed = .error e) :
    ∃ d ∈ placed, e = .limit (.conditionalOutOfReach d.2) ∧ Misses map d.1 d.2 := by
  induction placed generalizing acc w with
  | nil => cases he
  | cons d placed ih =>
      obtain ⟨s, offset⟩ := d
      obtain ⟨hs, hplaced⟩ := List.forall_mem_cons.1 h
      unfold widenFrom at he
      split at he
      · obtain ⟨d, hd, hmisses⟩ := ih hplaced he
        exact ⟨d, List.mem_cons_of_mem _ hd, hmisses⟩
      · rename_i e' hpiece
        cases he
        exact ⟨(s, offset), List.mem_cons_self, widenPiece_error hs hmap hpiece⟩

theorem exists_foldl_addOrigin
    (h : (∃ t' : Nat, map[t]? = some t') ∨ ∃ d ∈ placed, d.1.origin = some t) :
    ∃ t' : Nat, (placed.foldl addOrigin map)[t]? = some t' := by
  induction placed generalizing map with
  | nil => simpa using h
  | cons d placed ih =>
      refine ih ?_
      rw [getElem?_addOrigin]
      split
      · exact .inl ⟨_, rfl⟩
      · rename_i horigin
        exact h.imp_right fun ⟨e, he, heo⟩ =>
          ⟨e, (List.mem_cons.1 he).resolve_left (fun hed => horigin (hed ▸ heo)), heo⟩

theorem exists_mapOf (hlen : pieces.length ≤ offsets.length)
    (ht : t = oldLength ∨ t ∈ pieces.filterMap (·.origin)) :
    ∃ t' : Nat, (mapOf pieces offsets oldLength newLength)[t]? = some t' := by
  rw [mapOf, Std.TreeMap.getElem?_insert]
  split
  · exact ⟨_, rfl⟩
  · rename_i hne
    have hmem := ht.resolve_left fun heq => hne (Nat.compare_eq_eq.2 heq.symm)
    refine exists_foldl_addOrigin (.inr ?_)
    rw [← List.map_fst_zip hlen, List.filterMap_map] at hmem
    exact List.mem_filterMap.1 hmem

def offsetsOf (pieces : List Piece) : List Nat :=
  (placedFrom 0 (pieces.map (·.instruction))).map (·.1)

def lengthOf (pieces : List Piece) : Nat := endFrom 0 (pieces.map (·.instruction))

theorem length_offsetsOf (pieces : List Piece) : (offsetsOf pieces).length = pieces.length := by
  rw [offsetsOf, List.length_map, length_placedFrom, List.length_map]

/-- Why pieces have no placement: their code is too long, or it is not, and a conditional jump does
not reach its target in it. -/
inductive Overruns (oldLength : Nat) (pieces : List Piece) : Fault → Prop where
  | tooLarge (h : maxCodeLength < lengthOf pieces) :
      Overruns oldLength pieces (.limit (.codeTooLarge (lengthOf pieces)))
  | outOfReach {s : Piece} {offset : Nat} (hlength : lengthOf pieces ≤ maxCodeLength)
      (hs : (s, offset) ∈ pieces.zip (offsetsOf pieces))
      (h : Misses (mapOf pieces (offsetsOf pieces) oldLength (lengthOf pieces)) s offset) :
      Overruns oldLength pieces (.limit (.conditionalOutOfReach offset))

theorem round_error (h : ∀ s ∈ pieces, JumpsWithin ts s)
    (hts : ∀ t ∈ ts, t = oldLength ∨ t ∈ pieces.filterMap (·.origin))
    (he : round oldLength pieces = .error e) : Overruns oldLength pieces e := by
  simp only [round, offsetsFrom_eq, List.reverse_nil, List.nil_append] at he
  split at he
  · rename_i hlength
    cases he
    exact .tooLarge hlength
  · rename_i hlength
    split at he
    · rename_i e' hwiden
      cases he
      obtain ⟨⟨s, offset⟩, hs, rfl, hmisses⟩ :=
        widenFrom_error (fun d hd => h d.1 (List.of_mem_zip hd).1)
          (fun t ht => exists_mapOf (Nat.le_of_eq (length_offsetsOf pieces).symm) (hts t ht)) hwiden
      exact .outOfReach (Nat.le_of_not_lt hlength) hs hmisses
    · cases he
    · cases he

theorem round_pieces (h : round oldLength pieces = .ok (.inl p)) : p.pieces = pieces := by
  simp only [round, offsetsFrom_eq, List.reverse_nil, List.nil_append] at h
  split at h
  · cases h
  · split at h <;> cases h
    rfl

inductive Rounds (oldLength : Nat) : Nat → List Piece → List Piece → Prop where
  | refl (pieces : List Piece) : Rounds oldLength 0 pieces pieces
  | step {n : Nat} {pieces widened last : List Piece}
      (h : round oldLength pieces = .ok (.inr widened)) (hs : Rounds oldLength n widened last) :
      Rounds oldLength (n + 1) pieces last

theorem Rounds.widens (h : Rounds oldLength n pieces widened) :
    List.Forall₂ Widens pieces widened := by
  induction h with
  | refl pieces => exact List.forall₂_same.2 fun s _ => .same s
  | step h _ ih => exact forall₂_trans (fun _ _ _ h h' => h.trans h') ((round_ok h).2 _ rfl) ih

theorem Rounds.le_narrowJumps (h : Rounds oldLength n pieces widened) :
    n + narrowJumps widened ≤ narrowJumps pieces := by
  induction h with
  | refl pieces => exact Nat.le_of_eq (Nat.zero_add _)
  | step h _ ih =>
      have hlt := narrowJumps_round h
      omega

theorem exists_rounds (oldLength : Nat) (pieces : List Piece) :
    ∃ n last, Rounds oldLength n pieces last ∧
      ((∃ p, round oldLength last = .ok (.inl p) ∧ ofPieces oldLength pieces = .ok p) ∨
        ∃ e, round oldLength last = .error e ∧ ofPieces oldLength pieces = .error e) := by
  fun_induction ofPieces oldLength pieces with
  | case1 pieces e hr => exact ⟨0, pieces, .refl pieces, .inr ⟨e, hr, rfl⟩⟩
  | case2 pieces p hr => exact ⟨0, pieces, .refl pieces, .inl ⟨p, hr, rfl⟩⟩
  | case3 pieces widened hr ih =>
      obtain ⟨n, last, hrounds, hlast⟩ := ih
      exact ⟨n + 1, last, .step hr hrounds, hlast⟩

theorem jumpsWithin_widens (h : ∀ s ∈ pieces, JumpsWithin ts s)
    (hw : List.Forall₂ Widens pieces widened) : ∀ s ∈ widened, JumpsWithin ts s := by
  intro s hs
  obtain ⟨s₀, hs₀, hws⟩ := Result.exists_left_of_mem hw hs
  exact (h s₀ hs₀).widens hws

theorem ofPieces_error (h : ∀ s ∈ pieces, JumpsWithin ts s)
    (hts : ∀ t ∈ ts, t = oldLength ∨ t ∈ pieces.filterMap (·.origin))
    (he : ofPieces oldLength pieces = .error e) :
    ∃ n last, Rounds oldLength n pieces last ∧ round oldLength last = .error e ∧
      Overruns oldLength last e := by
  obtain ⟨n, last, hrounds, ⟨p, -, hp⟩ | ⟨e', hlast, he'⟩⟩ := exists_rounds oldLength pieces
  · rw [hp] at he
    cases he
  · cases he'.symm.trans he
    have hw := hrounds.widens
    -- what is widened keeps its origin and its target
    have horigins := origins_of_forall₂ (fun _ _ hab => Widens.origin hab) hw
    exact ⟨n, last, hrounds, hlast,
      round_error (jumpsWithin_widens h hw) (fun t ht => horigins ▸ hts t ht) hlast⟩

structure IsEdited (oldLength : Nat) (pieces : List Piece) : Prop where
  origins : (pieces.filterMap (·.origin)).Nodup
  fresh : oldLength ∉ pieces.filterMap (·.origin)
  jumps : ∀ s ∈ pieces, ∀ target, s.instruction.operand = .branch target →
    Opcode.isJump s.instruction.opcode = true ∨ Opcode.isConditional s.instruction.opcode = true
  settled : ∀ s ∈ pieces, ∀ r, s.instruction.operand ≠ .newConstant r
  targets : ∀ s ∈ pieces, ∀ t ∈ s.instruction.targets,
    t = oldLength ∨ t ∈ pieces.filterMap (·.origin)

theorem Widens.targets (h : Widens s s') : s'.instruction.targets = s.instruction.targets := by
  cases h <;> rfl

theorem Widens.settled (h : Widens s s') {r : NewConstant}
    (hs : s.instruction.operand ≠ .newConstant r) : s'.instruction.operand ≠ .newConstant r := by
  cases h with
  | same => exact hs
  | goto => exact nofun
  | jsr => exact nofun

theorem IsEdited.jumpsWithin (h : IsEdited oldLength pieces) :
    ∀ s ∈ pieces, JumpsWithin (pieces.flatMap (·.instruction.targets)) s := by
  intro s hs target htarget
  have hmem : target ∈ s.instruction.targets := by
    rw [Instruction.targets, htarget]
    exact List.mem_singleton_self target
  exact ⟨List.mem_flatMap.2 ⟨s, hs, hmem⟩, h.jumps s hs target htarget⟩

theorem IsEdited.widens (h : IsEdited oldLength pieces) (hw : List.Forall₂ Widens pieces widened) :
    IsEdited oldLength widened := by
  have horigins := origins_of_forall₂ (fun _ _ hab => Widens.origin hab) hw
  refine ⟨horigins ▸ h.origins, horigins ▸ h.fresh, ?_, fun s hs r => ?_, fun s hs t ht => ?_⟩
  · exact fun s hs target htarget =>
      (jumpsWithin_widens h.jumpsWithin hw s hs target htarget).2
  · obtain ⟨s₀, hs₀, hws⟩ := Result.exists_left_of_mem hw hs
    exact hws.settled (h.settled s₀ hs₀ r)
  · obtain ⟨s₀, hs₀, hws⟩ := Result.exists_left_of_mem hw hs
    rw [horigins]
    exact h.targets s₀ hs₀ t (hws.targets ▸ ht)

/-- A placement whose pieces stand one after another, are where its map says, and can be written
there in as many bytes as they have up to the next one, except where a sum that leads to the highest
key of a switch leaves its range. -/
structure IsLaidOut (oldLength : Nat) (p : Placement) : Prop where
  offsets : p.offsets = offsetsOf p.pieces
  short : lengthOf p.pieces ≤ maxCodeLength
  origin : ∀ d ∈ p.placed, ∀ t, d.1.origin = some t → p.map[t]? = some d.2
  stop : p.map[oldLength]? = some (lengthOf p.pieces)
  encodes : ∀ d ∈ p.placed, d.1.instruction.KeysInRange → ∃ bytes,
    d.1.instruction.encode (Assembly.target p.map) d.2 = .ok bytes ∧
      bytes.length = d.1.instruction.encodedLength d.2
  overflows : ∀ d ∈ p.placed, ¬ d.1.instruction.KeysInRange →
    d.1.instruction.encode (Assembly.target p.map) d.2 = .error .overflow

theorem Places.count_lt (h : Places oldLength pieces p) {d : Piece × Nat} (hd : d ∈ p.placed) :
    ∀ k ∈ d.1.instruction.operand.keys?, k.2 < 2147483648 := by
  intro k hk
  have hmem : (d.2, d.1.instruction) ∈ placedFrom 0 (p.pieces.map (·.instruction)) := by
    rw [placedFrom_placed h]
    exact List.mem_map_of_mem hd
  have hend : d.2 + d.1.instruction.encodedLength d.2 ≤ _ := (placedFrom_le hmem).2
  have hcount := count_le_encodedLength d.2 d.1.instruction k hk
  have hlength := h.length
  simp only [maxCodeLength] at hlength
  omega

theorem Places.isLaidOut (h : Places oldLength pieces p) (he : IsEdited oldLength p.pieces) :
    IsLaidOut oldLength p where
  offsets := h.offsets
  short := h.length
  origin d hd t ht := by
    refine map_of_origin h he.origins hd ht fun heq => he.fresh ?_
    rw [← heq]
    exact List.mem_filterMap.2 ⟨d.1, (List.of_mem_zip hd).1, ht⟩
  stop := by
    rw [h.map]
    exact mapOf_oldLength
  encodes d hd hkeys := by
    have hs := (List.of_mem_zip hd).1
    have hmap : ∀ t ∈ d.1.instruction.targets, ∃ t' : Nat, p.map[t]? = some t' := by
      intro t ht
      rw [h.map]
      exact exists_mapOf (Nat.le_of_eq (length_offsets h).symm) (he.targets d.1 hs t ht)
    obtain ⟨bytes, hbytes⟩ : ∃ bytes,
        d.1.instruction.encode (Assembly.target p.map) d.2 = .ok bytes := by
      refine exists_encode (he.settled d.1 hs) (h.count_lt hd) hkeys (fun t ht => ?_)
        fun t t' ht hmoved hnear => ?_
      · obtain ⟨t', ht'⟩ := hmap t ht
        exact ⟨t', Assembly.target_ok.2 ht'⟩
      · obtain ⟨moved, hmoved', hreaches⟩ := h.reaches d hd t ht hnear
        rw [Assembly.target_ok, hmoved'] at hmoved
        cases hmoved
        exact hreaches
    exact ⟨bytes, hbytes, length_encode hbytes⟩
  overflows d hd hkeys := encode_overflow (h.count_lt hd) hkeys

/-- Placing the pieces of an edited method ends after as many rounds as there are narrow jumps or
fewer. What is placed then differs in jumps that were widened, and can be written but for switches
up to the greatest key; or the code has no room for it. -/
theorem ofPieces_ends (oldLength : Nat) (pieces : List Piece) (h : IsEdited oldLength pieces) :
    ∃ n widened, Rounds oldLength n pieces widened ∧ n ≤ narrowJumps pieces ∧
      List.Forall₂ Widens pieces widened ∧
      ((∃ p, ofPieces oldLength pieces = .ok p ∧ p.pieces = widened ∧ IsLaidOut oldLength p) ∨
        ∃ e, ofPieces oldLength pieces = .error e ∧ Overruns oldLength widened e) := by
  obtain ⟨n, widened, hrounds, hlast⟩ := exists_rounds oldLength pieces
  have hle := hrounds.le_narrowJumps
  have hw := hrounds.widens
  have hedited := h.widens hw
  refine ⟨n, widened, hrounds, by omega, hw, ?_⟩
  rcases hlast with ⟨p, hround, hp⟩ | ⟨e, hround, he⟩
  · have hplaces := (round_ok hround).1 p rfl
    have hpieces := round_pieces hround
    rw [← hpieces] at hedited
    exact .inl ⟨p, hp, hpieces, hplaces.isLaidOut hedited⟩
  · refine .inr ⟨e, he, round_error hedited.jumpsWithin (fun t ht => ?_) hround⟩
    obtain ⟨s, hs, ht⟩ := List.mem_flatMap.1 ht
    exact hedited.targets s hs t ht

end Placement

namespace Specimen

def leaving : List Piece :=
  [⟨some 0, .plain Opcode.iload0⟩, ⟨some 1, .plain Opcode.pop⟩, ⟨none, .plain Opcode.iconst0⟩,
    ⟨none, ⟨Opcode.ifeq, .branch 7⟩⟩, ⟨some 4, ⟨Opcode.goto, .branch 0⟩⟩,
    ⟨some 7, .plain Opcode.returnVoid⟩]

theorem isEdited_leaving : Placement.IsEdited 8 leaving where
  origins := by decide
  fresh := by decide
  jumps s hs target htarget := by
    simp only [leaving, List.mem_cons, List.not_mem_nil, or_false] at hs
    rcases hs with rfl | rfl | rfl | rfl | rfl | rfl
    case inr.inr.inr.inl => exact .inr rfl
    case inr.inr.inr.inr.inl => exact .inl rfl
    all_goals cases htarget
  settled s hs r hr := by
    simp only [leaving, List.mem_cons, List.not_mem_nil, or_false] at hs
    rcases hs with rfl | rfl | rfl | rfl | rfl | rfl <;> cases hr
  targets := by decide

def highSwitch : List Piece :=
  [⟨some 0, ⟨Opcode.tableswitch, .tableSwitch 20 2147483647 [20]⟩⟩,
    ⟨some 20, .plain Opcode.returnVoid⟩]

theorem isEdited_highSwitch : Placement.IsEdited 21 highSwitch where
  origins := by decide
  fresh := by decide
  jumps s hs target htarget := by
    simp only [highSwitch, List.mem_cons, List.not_mem_nil, or_false] at hs
    rcases hs with rfl | rfl <;> cases htarget
  settled s hs r hr := by
    simp only [highSwitch, List.mem_cons, List.not_mem_nil, or_false] at hs
    rcases hs with rfl | rfl <;> cases hr
  targets := by decide

end Specimen

theorem Placement.ofPieces_ends_leaving : IsEdited 8 Specimen.leaving ∧
    ∃ n widened, Rounds 8 n Specimen.leaving widened ∧ n ≤ narrowJumps Specimen.leaving ∧
      List.Forall₂ Widens Specimen.leaving widened ∧
      ((∃ p, ofPieces 8 Specimen.leaving = .ok p ∧ p.pieces = widened ∧ IsLaidOut 8 p) ∨
        ∃ e, ofPieces 8 Specimen.leaving = .error e ∧ Overruns 8 widened e) :=
  ⟨Specimen.isEdited_leaving, ofPieces_ends 8 Specimen.leaving Specimen.isEdited_leaving⟩

theorem Placement.ofPieces_unwritten : IsEdited 21 Specimen.highSwitch ∧
    ∃ p, ofPieces 21 Specimen.highSwitch = .ok p ∧ ∃ d ∈ p.placed,
      d.1.instruction.encode (Assembly.target p.map) d.2 = .error .overflow :=
  ⟨Specimen.isEdited_highSwitch, by decide +kernel⟩

end BytecodeMutation
