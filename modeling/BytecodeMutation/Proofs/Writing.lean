import BytecodeMutation.Proofs.Placing

namespace BytecodeMutation

namespace Instruction

variable {moved : TargetMap} {offset : Nat} {i : Instruction} {is : List Instruction}

theorem exists_distanceTo {t t' : Nat} (h : moved t = .ok t') :
    ∃ d, distanceTo moved offset t = .ok d :=
  ⟨_, Result.map_ok.2 ⟨t', h, rfl⟩⟩

theorem fitsShort_distance {t : Nat} (h : Placement.reaches offset t = true) :
    Operand.fitsShort (distance offset t) = true := by
  simp only [Placement.reaches, Bool.and_eq_true, decide_eq_true_eq] at h
  rw [fitsShort_iff, distance, Int32.toInt_ofInt_of_le] <;> omega

theorem exists_encodeBranch {op : UInt8} {t t' : Nat} (h : moved t = .ok t')
    (hnear : Opcode.isFarJump op = false → Placement.reaches offset t' = true) :
    ∃ bytes, encodeBranch moved op offset t = .ok bytes := by
  have hd : distanceTo moved offset t = .ok (distance offset t') := Result.map_ok.2 ⟨t', h, rfl⟩
  simp only [encodeBranch, hd, bind, Except.bind]
  cases hfar : Opcode.isFarJump op with
  | true => exact ⟨_, if_pos rfl⟩
  | false =>
      rw [if_neg Bool.false_ne_true, if_pos (fitsShort_distance (hnear hfar))]
      exact ⟨_, rfl⟩

theorem exists_encode (hsettled : ∀ r, i.operand ≠ .newConstant r)
    (hcount : ∀ k ∈ i.operand.keys?, k.2 < 2147483648) (hkeys : i.KeysInRange)
    (htargets : ∀ t ∈ i.targets, ∃ t', moved t = .ok t')
    (hreaches : ∀ t t', i.operand = .branch t → moved t = .ok t' →
      Opcode.isFarJump i.opcode = false → Placement.reaches offset t' = true) :
    ∃ bytes, i.encode moved offset = .ok bytes := by
  obtain ⟨op, operand⟩ := i
  have hdistance : ∀ t ∈ operand.targets, ∃ d, distanceTo moved offset t = .ok d := fun t ht => by
    obtain ⟨t', ht'⟩ := htargets t ht
    exact exists_distanceTo ht'
  cases operand with
  | newConstant r => exact absurd rfl (hsettled r)
  | branch target =>
      obtain ⟨t', ht'⟩ := htargets target List.mem_cons_self
      exact exists_encodeBranch ht' (hreaches target t' rfl ht')
  | tableSwitch default low targets =>
      obtain ⟨hdefault, htable⟩ := List.forall_mem_cons.1 hdistance
      obtain ⟨d, hd⟩ := hdefault
      obtain ⟨ds, hds⟩ := Result.exists_forall₂ htable
      obtain ⟨hleast, hnext⟩ := hkeys (low, targets.length) rfl
      have hhigh := (highest_ok (hcount (low, targets.length) rfl)).2 ⟨hleast, hnext, rfl⟩
      exact ⟨_, Result.map_ok.2 ⟨_, Result.bind_ok.2 ⟨_, hhigh, Result.bind_ok.2 ⟨d, hd,
        Result.bind_ok.2 ⟨ds, Result.mapM_ok.2 hds, rfl⟩⟩⟩, rfl⟩⟩
  | lookupSwitch default cases =>
      obtain ⟨hdefault, htable⟩ := List.forall_mem_cons.1 hdistance
      obtain ⟨d, hd⟩ := hdefault
      have hcase : ∀ x ∈ cases, ∃ y : Int32 × Int32,
          (distanceTo moved offset x.2).map (x.1, ·) = .ok y := fun x hx => by
        obtain ⟨e, he⟩ := htable x.2 (List.mem_map_of_mem hx)
        exact ⟨(x.1, e), Result.map_ok.2 ⟨e, he, rfl⟩⟩
      obtain ⟨ds, hds⟩ := Result.exists_forall₂ hcase
      exact ⟨_, Result.map_ok.2 ⟨_, Result.bind_ok.2 ⟨d, hd, Result.bind_ok.2
        ⟨ds, Result.mapM_ok.2 hds, rfl⟩⟩, rfl⟩⟩
  | _ => exact ⟨_, rfl⟩

theorem encode_overflow (hcount : ∀ k ∈ i.operand.keys?, k.2 < 2147483648)
    (hkeys : ¬ i.KeysInRange) : i.encode moved offset = .error .overflow := by
  obtain ⟨op, operand⟩ := i
  cases operand with
  | tableSwitch default low targets =>
      have hhigh := highest_overflow (hcount (low, targets.length) rfl) fun h => hkeys fun k hk => by
        cases hk
        exact h
      exact Result.map_error.2 (Result.bind_error.2 (.inl hhigh))
  | _ => exact absurd nofun hkeys

theorem exists_encodes (h : ∀ d ∈ placedFrom offset is, ∃ bytes, d.2.encode moved d.1 = .ok bytes) :
    ∃ s, Encodes moved offset is s := by
  induction is generalizing offset with
  | nil => exact ⟨[], .nil⟩
  | cons i is ih =>
      obtain ⟨⟨bytes, hbytes⟩, hrest⟩ := List.forall_mem_cons.1 h
      obtain ⟨s, hs⟩ := ih hrest
      exact ⟨bytes ++ s, .cons hbytes hs⟩

def writeFrom (moved : TargetMap) (written : Bytes) :
    List Instruction → Except Fault (List (Nat × Instruction) × Bytes)
  | [] => .ok ([], written)
  | i :: is => do
      let bytes ← i.encode moved written.length
      let (placed, code) ← writeFrom moved (written ++ bytes) is
      return ((written.length, i) :: placed, code)

def write (moved : TargetMap) (is : List Instruction) :
    Except Fault (List (Nat × Instruction) × Bytes) :=
  writeFrom moved [] is

theorem Encodes.writeFrom {s : Bytes} (h : Encodes moved offset is s) (written : Bytes)
    (hw : written.length = offset) :
    writeFrom moved written is = .ok (placedFrom offset is, written ++ s) := by
  induction h generalizing written with
  | nil =>
      rw [List.append_nil]
      rfl
  | @cons offset i is bytes s h _ ih =>
      have hlength : (written ++ bytes).length = offset + i.encodedLength offset := by
        rw [List.length_append, hw, length_encode h]
      refine Result.bind_ok.2 ⟨bytes, hw ▸ h, Result.bind_ok.2 ⟨_, ih _ hlength, ?_⟩⟩
      rw [List.append_assoc, hw]
      rfl

def Fits (offset : Nat) (i : Instruction) : Prop :=
  ∀ t ∈ i.targets, ReachesFar offset t ∧
    (Format.ofOpcode? i.opcode = some .branch → Placement.reaches offset t = true)

theorem Legal.settled (h : i.Legal) (r : NewConstant) : i.operand ≠ .newConstant r := by
  intro hr
  rw [Legal, hr] at h
  exact h

theorem Legal.count (h : i.Legal) : ∀ k ∈ i.operand.keys?, k.2 < 2147483648 := by
  intro k hk
  obtain ⟨op, operand⟩ := i
  cases operand <;> cases hk
  exact h.2.2.2

theorem Legal.near (h : i.Legal) {t : Nat} (ht : i.operand = .branch t)
    (hop : Opcode.isFarJump i.opcode = false) : Format.ofOpcode? i.opcode = some .branch := by
  rw [Legal, ht] at h
  refine h.resolve_right fun hfar => ?_
  rw [(Format.farBranch_iff i.opcode).1 hfar] at hop
  cases hop

theorem Fits.exists_encode (h : i.Fits offset) (hi : i.Legal) (hkeys : i.KeysInRange) :
    ∃ bytes, i.encode .ok offset = .ok bytes := by
  refine Instruction.exists_encode hi.settled hi.count hkeys (fun t _ => ⟨t, rfl⟩)
    fun t t' ht hmoved hop => ?_
  cases hmoved
  have htarget : t ∈ i.targets := by
    rw [targets, ht]
    exact List.mem_singleton_self t
  exact (h t htarget).2 (hi.near ht hop)

theorem map_snd_placedFrom (offset : Nat) (is : List Instruction) :
    (placedFrom offset is).map (·.2) = is := by
  induction is generalizing offset with
  | nil => rfl
  | cons i is ih => rw [placedFrom, List.map_cons, ih]

end Instruction

namespace Specimen

open Instruction

end Specimen

end BytecodeMutation
