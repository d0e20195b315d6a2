import BytecodeMutation.Proofs.AlignedTables
import BytecodeMutation.Proofs.Canonical
import BytecodeMutation.Proofs.Relocation

namespace BytecodeMutation

open Instruction

namespace Placement

variable {map : OffsetMap} {oldLength offset : Nat} {s : Piece} {acc pieces : List Piece}

theorem widenPiece_of_reaches (h : Reaches map s offset) :
    widenPiece map offset s = .ok (s, false) := by
  unfold widenPiece
  simp only
  split
  · rename_i target htarget
    split
    · rfl
    · rename_i hfar
      obtain ⟨moved, hmoved, hreaches⟩ := h target htarget (by simpa using hfar)
      simp only [hmoved, hreaches, if_true]
  · rfl

theorem widenFrom_of_reaches {rest : List (Piece × Nat)} (h : ∀ d ∈ rest, Reaches map d.1 d.2) :
    widenFrom map acc false rest = .ok (acc.reverse ++ rest.map (·.1), false) := by
  induction rest generalizing acc with
  | nil => simp [widenFrom]
  | cons d rest ih =>
      obtain ⟨hd, hrest⟩ := List.forall_mem_cons.1 h
      simp only [widenFrom, widenPiece_of_reaches hd, Bool.or_false, ih hrest]
      simp

theorem ofPieces_of_reaches {offsets : List Nat} {length : Nat}
    (hoffsets : offsets = (placedFrom 0 (pieces.map (·.instruction))).map (·.1))
    (hlength : length = endFrom 0 (pieces.map (·.instruction))) (hle : length ≤ maxCodeLength)
    (h : ∀ d ∈ pieces.zip offsets, Reaches (mapOf pieces offsets oldLength length) d.1 d.2) :
    ofPieces oldLength pieces = .ok ⟨pieces, offsets, mapOf pieces offsets oldLength length⟩ := by
  -- the first round widens no jump, so there is no second one
  have hround : round oldLength pieces
      = .ok (.inl ⟨pieces, offsets, mapOf pieces offsets oldLength length⟩) := by
    simp only [round, offsetsFrom_eq, List.reverse_nil, List.nil_append, ← hoffsets, ← hlength]
    rw [if_neg (Nat.not_lt.2 hle), widenFrom_of_reaches h]
  rw [ofPieces]
  split
  · rename_i heq
    cases hround.symm.trans heq
  · rename_i heq
    cases hround.symm.trans heq
    rfl
  · rename_i heq
    cases hround.symm.trans heq

end Placement

namespace Assembly

def keeping (n : Nat) : List StreamItem := (List.range n).map .kept

def standing (code : List Site) : List Piece := code.map fun s => ⟨some s.offset, s.instruction⟩

theorem piecesFrom_kept {code : List Site} {t : PoolTail} {acc : List Piece} {ks : List Nat}
    (h : ∀ k ∈ ks, k < code.length) : piecesFrom code.toArray t acc (ks.map .kept)
      = .ok (acc.reverse ++ ks.flatMap fun k => code[k]?.toList.map
          fun s => ⟨some s.offset, s.instruction⟩, t) := by
  induction ks generalizing acc with
  | nil => simp [piecesFrom]
  | cons k ks ih =>
      obtain ⟨hk, hks⟩ := List.forall_mem_cons.1 h
      have hget : code.toArray[k]? = some code[k] := by simp [hk]
      have hsite : code[k]? = some code[k] := List.getElem?_eq_getElem hk
      simp only [List.map_cons, piecesFrom, hget, ih hks, List.flatMap_cons, hsite]
      simp

theorem piecesFrom_keeping (code : List Site) (t : PoolTail) :
    piecesFrom code.toArray t [] (keeping code.length) = .ok (standing code, t) := by
  rw [keeping, piecesFrom_kept fun k hk => List.mem_range.1 hk, flatMap_range]
  rfl

theorem encodeFrom_of_encodes {map : OffsetMap} {acc : List Bytes} {pieces : List Piece}
    {offset : Nat} {s : Bytes}
    (h : Encodes (target map) offset (pieces.map (·.instruction)) s) :
    encodeFrom map acc
        (pieces.zip ((placedFrom offset (pieces.map (·.instruction))).map (·.1)))
      = .ok (acc.reverse.flatten ++ s) := by
  induction pieces generalizing offset acc s with
  | nil =>
      cases h
      simp [encodeFrom]
  | cons p pieces ih =>
      cases h with
      | cons hbytes hs =>
          simp only [List.map_cons, placedFrom, List.zip_cons_cons, encodeFrom, hbytes, ih hs]
          simp

end Assembly

namespace Instruction

variable {moved : TargetMap} {offset target : Nat} {op : UInt8} {bytes s : Bytes}
  {is : List Instruction}

theorem reaches_of_encodeBranch (ho : offset < 65536) (ht : target < 65536)
    (hop : Opcode.isFarJump op = false) (h : encodeBranch .ok op offset target = .ok bytes) :
    Placement.reaches offset target = true := by
  obtain ⟨d, hd, h⟩ := Result.bind_ok.1 h
  obtain rfl : distance offset target = d := Except.ok.inj hd
  have hdistance := distance_toInt
    (.of_lt (Nat.lt_trans ho (by decide)) (Nat.lt_trans ht (by decide)))
  rw [hop] at h
  split at h
  · rename_i hfalse
    cases hfalse
  · split at h
    · rename_i hfits
      rw [fitsShort_iff, hdistance] at hfits
      simp only [Placement.reaches, Bool.and_eq_true, decide_eq_true_eq]
      omega
    · cases h

end Instruction

def Method.IsBoundary (m : Method) (t : Nat) : Prop := t ∈ m.offsets ∨ t = m.codeLength

instance (m : Method) (t : Nat) : Decidable (m.IsBoundary t) :=
  inferInstanceAs (Decidable (_ ∨ _))

namespace Assembly

theorem Arranges.exists_map {l : ClassFile} {c c' : CodeBody} {m : Method}
    {stream : List StreamItem} {tail : PoolTail} {pieces : List Piece} {p : Placement} {t : Nat}
    (h : Arranges l c m stream c' tail pieces p) (ht : m.IsBoundary t) :
    ∃ t' : Nat, p.map[t]? = some t' := by
  rcases ht with ht | rfl
  · exact ⟨_, (h.map_image ht).1⟩
  · exact ⟨_, h.map_end⟩

structure Steady (l : ClassFile) (q : Pool) (b : CodeBody) (m : Method) : Prop where
  reads : m.Reads q b.code b.handlers
  length : b.code.length ≤ 65535
  encodes : Encodes .ok 0 (m.code.map (·.instruction)) b.code
  placed : placedFrom 0 (m.code.map (·.instruction))
    = m.code.map fun s => (s.offset, s.instruction)
  attributes : ∀ a ∈ b.attributes, a.IsAligned l m.IsBoundary

theorem instructions_standing (code : List Site) :
    (standing code).map (·.instruction) = code.map (·.instruction) := by
  simp [standing]

theorem zip_standing (code : List Site) :
    (standing code).zip (code.map (·.offset))
      = code.map fun s => (⟨some s.offset, s.instruction⟩, s.offset) :=
  List.zip_map' ..

def standingMap (m : Method) : OffsetMap :=
  Placement.mapOf (standing m.code) m.offsets m.codeLength m.codeLength

theorem standingMap_keeps (m : Method) : (standingMap m).Keeps m.IsBoundary where
  stays := by
    intro t ht
    by_cases hend : t = m.codeLength
    · rw [hend]
      exact Placement.mapOf_oldLength
    · obtain ⟨s, hs, rfl⟩ := List.mem_map.1 (ht.resolve_right hend)
      refine Placement.mapOf_of_mem ?_ ?_ hend
      · intro d hd hdt
        rw [Method.offsets, zip_standing] at hd
        obtain ⟨s', -, rfl⟩ := List.mem_map.1 hd
        exact Option.some.inj hdt
      · rw [Method.offsets, zip_standing]
        exact ⟨_, List.mem_map_of_mem hs, rfl⟩
  identity := by
    intro s t hst
    rcases Placement.mem_of_mapOf hst with ⟨rfl, rfl⟩ | ⟨d, hd, hds, rfl⟩
    · rfl
    · rw [Method.offsets, zip_standing] at hd
      obtain ⟨s', -, rfl⟩ := List.mem_map.1 hd
      exact Option.some.inj hds

theorem target_standing {m : Method} {t : Nat} (ht : m.IsBoundary t) :
    target (standingMap m) t = .ok t := by
  simp only [target, (standingMap_keeps m).stays ht]

namespace Steady

variable {l : ClassFile} {q : Pool} {b : CodeBody} {m : Method} (h : Steady l q b m)

include h

theorem boundary_lt {t : Nat} (ht : m.IsBoundary t) : t < 65536 := by
  have hlength := h.length
  have hcode := h.reads.length
  rcases ht with ht | rfl
  · obtain ⟨s, hs, rfl⟩ := List.mem_map.1 ht
    have hdecodes := (Method.sites_iff.1 h.reads.sites).1
    have hlt := (hdecodes.bounds _ (List.mem_map_of_mem hs)).2
    simp only at hlt
    omega
  · omega

theorem targets {s : Site} (hs : s ∈ m.code) {t : Nat} (ht : t ∈ s.instruction.targets) :
    m.IsBoundary t :=
  .inl ((Method.validate_iff.1 h.reads.valid).1 s hs t ht)

theorem reaches : ∀ d ∈ (standing m.code).zip m.offsets,
    Placement.Reaches (standingMap m) d.1 d.2 := by
  intro d hd t ht hnear
  rw [Method.offsets, zip_standing] at hd
  obtain ⟨s, hs, rfl⟩ := List.mem_map.1 hd
  simp only at ht hnear
  have hmem : t ∈ s.instruction.targets := by
    rw [Instruction.targets, ht]
    exact List.mem_singleton_self t
  have hboundary := h.targets hs hmem
  refine ⟨t, (standingMap_keeps m).stays hboundary, ?_⟩
  have hplaced : (s.offset, s.instruction) ∈ placedFrom 0 (m.code.map (·.instruction)) := by
    rw [h.placed]
    exact List.mem_map_of_mem hs
  obtain ⟨bytes, hbytes⟩ := h.encodes.exists_bytes _ hplaced
  simp only [encode, ht] at hbytes
  have hoffset : m.IsBoundary s.offset := .inl (List.mem_map_of_mem hs)
  exact reaches_of_encodeBranch (h.boundary_lt hoffset) (h.boundary_lt hboundary) hnear hbytes

theorem encodes_standing :
    Encodes (target (standingMap m)) 0 ((standing m.code).map (·.instruction)) b.code := by
  rw [instructions_standing]
  refine h.encodes.congr fun i hi t ht => ?_
  obtain ⟨s, hs, rfl⟩ := List.mem_map.1 hi
  exact (target_standing (h.targets hs ht)).symm

theorem ofPieces_standing : Placement.ofPieces b.code.length (standing m.code)
    = .ok ⟨standing m.code, m.offsets, standingMap m⟩ := by
  have hend := h.encodes.length
  rw [Nat.zero_add, ← h.reads.length, ← instructions_standing] at hend
  have hoffsets : m.offsets = (placedFrom 0 ((standing m.code).map (·.instruction))).map (·.1) := by
    rw [instructions_standing, h.placed, List.map_map]
    rfl
  have hlength := h.length
  rw [← h.reads.length] at hlength ⊢
  exact Placement.ofPieces_of_reaches hoffsets hend hlength h.reaches

theorem moveHandler_self {r : RawHandler} (hr : r ∈ b.handlers) :
    moveHandler (standingMap m) r = .ok r := by
  obtain ⟨g, hg, hread⟩ := Result.exists_of_mem_left h.reads.handlers hr
  obtain ⟨hstart, hstop, hhandler, -⟩ := Method.handlerOf_ok hread
  obtain ⟨hs, hh, he⟩ := (Method.validate_iff.1 h.reads.valid).2 g hg
  rw [hstart] at hs
  rw [hstop] at he
  rw [hhandler] at hh
  have hpc : ∀ {v : UInt16}, m.IsBoundary v.toNat →
      (attempt .moveHandlers (target (standingMap m) v.toNat)).map UInt16.ofNat = .ok v := by
    intro v hv
    rw [attempt_ok.2 (target_standing hv)]
    exact congrArg Except.ok UInt16.ofNat_toNat
  exact Result.bind_ok.2 ⟨_, hpc (.inl hs), Result.bind_ok.2 ⟨_, hpc he.symm,
    Result.bind_ok.2 ⟨_, hpc (.inl hh), rfl⟩⟩⟩

theorem encodeFrom_standing :
    encodeFrom (standingMap m) [] ((standing m.code).zip m.offsets) = .ok b.code := by
  have hencode : encodeFrom (standingMap m) [] ((standing m.code).zip
      ((placedFrom 0 ((standing m.code).map (·.instruction))).map (·.1))) = .ok b.code :=
    encodeFrom_of_encodes h.encodes_standing
  rw [instructions_standing, h.placed, List.map_map] at hencode
  exact hencode

theorem codeFor_keeping : codeFor l b m (keeping m.code.length)
    = .ok (b, ⟨l.pool.count, [], [], []⟩) := by
  have hattributes : b.attributes.mapM (moveAttribute l (standingMap m))
      = .ok (b.attributes.map some) :=
    Result.mapM_eq_map fun a ha =>
      moveAttribute_self (standingMap_keeps m) h.boundary_lt (h.attributes a ha)
  have hhandlers : b.handlers.mapM (moveHandler (standingMap m)) = .ok (b.handlers.map id) :=
    Result.mapM_eq_map fun r hr => h.moveHandler_self hr
  have hkept : (keeping m.code.length).any isReplaced = false := by
    simp [keeping, isReplaced]
  simp only [codeFor, piecesFrom_keeping, h.ofPieces_standing, h.encodeFrom_standing, hattributes,
    hhandlers, hkept, bind, Except.bind, pure, Except.pure, List.filterMap_map, List.map_id,
    Bool.false_eq_true, if_false]
  simp

end Steady

theorem extend_nil (table : ConstantTable) :
    PoolTail.extend ⟨table.count, [], [], []⟩ table = table := by
  simp [PoolTail.extend]

theorem Steady.replaceCode_keeping {l : ClassFile} {q : Pool} {b : CodeBody} {m : Method}
    {a : RawAttribute} {data : Bytes} (h : Steady l q b m) (hl : ClassFile.read data = .ok l)
    (ha : l.codeOf? m.index = some a) (hb : CodeBody.read a.body = .ok b) (name : String) :
    replaceCode name data m (keeping m.code.length) = .ok data := by
  obtain ⟨-, rfl⟩ := ClassFile.read_iff.1 hl
  obtain ⟨-, hbody⟩ := CodeBody.read_iff.1 hb
  obtain ⟨before, after, r, as, bs, hat⟩ := codeAt_of_codeOf? ha
  have hwrite : { setCode l m.index b.write with
      pool := PoolTail.extend ⟨l.pool.count, [], [], []⟩ l.pool }.write = l.write := by
    rw [extend_nil, ← hbody, hat.setCode_self]
  have hassemble : assemble l.write m (keeping m.code.length) = .ok l.write := by
    refine Result.bind_ok.2 ⟨l, hl, ?_⟩
    simp only [ha]
    refine Result.bind_ok.2 ⟨b, hb, ?_⟩
    rw [if_neg (not_not.2 h.reads.length.symm)]
    exact Result.bind_ok.2 ⟨_, h.codeFor_keeping, congrArg Except.ok hwrite⟩
  simp only [replaceCode, hassemble]

end Assembly

end BytecodeMutation
