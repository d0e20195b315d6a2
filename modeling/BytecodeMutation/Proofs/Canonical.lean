import BytecodeMutation.Proofs.Methods

namespace BytecodeMutation

namespace Format

theorem tableSwitch_iff (op : UInt8) :
    ofOpcode? op = some .tableSwitch ↔ op = Opcode.tableswitch := by
  revert op
  exact forall_opcode (by decide +kernel)

theorem lookupSwitch_iff (op : UInt8) :
    ofOpcode? op = some .lookupSwitch ↔ op = Opcode.lookupswitch := by
  revert op
  exact forall_opcode (by decide +kernel)

theorem invokeInterface_iff (op : UInt8) :
    ofOpcode? op = some .invokeInterface ↔ op = Opcode.invokeinterface := by
  revert op
  exact forall_opcode (by decide +kernel)

theorem invokeDynamic_iff (op : UInt8) :
    ofOpcode? op = some .invokeDynamic ↔ op = Opcode.invokedynamic := by
  revert op
  exact forall_opcode (by decide +kernel)

end Format

namespace Instruction

/-- An instruction as it is written: wide only where the short form does not do, and zeros where
nothing is read. -/
structure IsCanonicalAt (offset : Nat) (op : UInt8) (s : Bytes) (i : Instruction) : Prop where
  wide : op = Opcode.wide → i.IsLegalWide ∧ isWide i.operand = true
  padding : op = Opcode.tableswitch ∨ op = Opcode.lookupswitch →
    ∀ b ∈ s.take (switchPadding offset), b = 0
  interface : op = Opcode.invokeinterface → s[3]? = some 0
  dynamic : op = Opcode.invokedynamic → s[2]? = some 0 ∧ s[3]? = some 0

variable {offset : Nat} {op : UInt8} {s r : Bytes} {i : Instruction}

theorem isCanonicalAt_iff : IsCanonicalAt offset op s i ↔
    (op = Opcode.wide → i.IsLegalWide ∧ isWide i.operand = true) ∧
      (op = Opcode.tableswitch ∨ op = Opcode.lookupswitch →
        (s.take (switchPadding offset)).all (· == 0) = true) ∧
      (op = Opcode.invokeinterface → s[3]? = some 0) ∧
      (op = Opcode.invokedynamic → s[2]? = some 0 ∧ s[3]? = some 0) := by
  simp only [List.all_eq_true, beq_iff_eq]
  exact ⟨fun h => ⟨h.wide, h.padding, h.interface, h.dynamic⟩,
    fun ⟨hwide, hpadding, hinterface, hdynamic⟩ => ⟨hwide, hpadding, hinterface, hdynamic⟩⟩

-- A test of the bytes at hand, and not of all bytes there are whether they are among them.
instance : Decidable (IsCanonicalAt offset op s i) := decidable_of_iff _ isCanonicalAt_iff.symm

theorem ofInt16_signed16 (a b : UInt8) : Bytes.ofInt16 (signed16 a b) = [a, b] := by
  rw [Bytes.ofInt16, signed16, UInt16.toUInt16_toInt16, Bytes.ofUInt16_word16]

theorem ofInt32_signed32 (a b c d : UInt8) : Bytes.ofInt32 (signed32 a b c d) = [a, b, c, d] :=
  (signed32_inverts.1 rfl).symm

theorem distance_targetOf {d : Int32} {t : Nat} (h : targetOf offset d = .ok t) :
    distance offset t = d := by
  simp only [targetOf] at h
  split at h
  · rename_i hrange
    cases h
    have hback : (offset : Int) + d.toInt - offset = d.toInt := by omega
    rw [distance, Int.toNat_of_nonneg hrange.1, hback, Int32.ofInt_toInt]
  · cases h

theorem fitsShort_toInt32 (v : Int16) : Operand.fitsShort v.toInt32 = true := by
  have hl := v.le_toInt
  have hu := v.toInt_lt
  rw [fitsShort_iff, Int16.toInt_toInt32]
  omega

theorem high_eq {low high : Int32} {n : Nat} (h : high.toInt - low.toInt + 1 = n) :
    low + .ofNat n - 1 = high := by
  have heq : low.toInt + n - 1 = high.toInt := by omega
  rw [highest_eq, heq, Int32.ofInt_toInt]

theorem highest_of_keys {low high : Int32} {n : Nat} (hn : n < 2147483648)
    (h : high.toInt - low.toInt + 1 = n) (hkeys : low.toInt + n < 2147483648) :
    highest low n = .ok high := by
  have hleast := high.le_toInt
  have heq : low.toInt + n - 1 = high.toInt := by omega
  refine (highest_ok hn).2 ⟨by omega, hkeys, ?_⟩
  rw [heq, Int32.ofInt_toInt]

theorem encodeBranch_near {d : Int16} {t : Nat} (hop : Opcode.isFarJump op = false)
    (h : targetOf offset d.toInt32 = .ok t) :
    encodeBranch .ok op offset t = .ok (op :: Bytes.ofInt16 d) := by
  refine Result.bind_ok.2 ⟨d.toInt32, congrArg Except.ok (distance_targetOf h), ?_⟩
  simp only [hop, Bool.false_eq_true, if_false, fitsShort_toInt32, if_true]
  rw [Int16.toInt16_toInt32]
  rfl

theorem encodeBranch_far {d : Int32} {t : Nat} (hop : Opcode.isFarJump op = true)
    (h : targetOf offset d = .ok t) :
    encodeBranch .ok op offset t = .ok (op :: Bytes.ofInt32 d) := by
  refine Result.bind_ok.2 ⟨d, congrArg Except.ok (distance_targetOf h), ?_⟩
  simp only [hop, if_true]
  rfl

theorem mapM_distanceTo {ds : List Int32} {ts : List Nat}
    (h : ds.mapM (targetOf offset) = .ok ts) : ts.mapM (distanceTo .ok offset) = .ok ds :=
  Result.mapM_ok.2 ((Result.mapM_ok.1 h).flip.imp fun _ _ hd =>
    congrArg Except.ok (distance_targetOf hd))

theorem mapM_caseDistance {ds : List (Int32 × Int32)} {cases : List (Int32 × Nat)}
    (h : (ds.mapM fun (key, d) => (targetOf offset d).map (key, ·)) = .ok cases) :
    (cases.mapM fun (key, t) => (distanceTo .ok offset t).map (key, ·)) = .ok ds := by
  refine Result.mapM_ok.2 ((Result.mapM_ok.1 h).flip.imp ?_)
  rintro ⟨key, t⟩ ⟨key', d⟩ hd
  obtain ⟨t', ht, heq⟩ := Result.map_ok.1 hd
  cases heq
  exact congrArg (fun d => Except.ok (key, d)) (distance_targetOf ht)

theorem flatMap_pairs : ∀ {ws : List Int32}, ws.length % 2 = 0 →
    (pairs ws).flatMap (fun (key, d) => Bytes.ofInt32 key ++ Bytes.ofInt32 d)
      = ws.flatMap Bytes.ofInt32
  | [], _ => rfl
  | [_], h => by simp at h
  | key :: d :: ws, h => by
      have hws : ws.length % 2 = 0 := by
        simp only [List.length_cons] at h
        omega
      simp only [pairs, List.flatMap_cons, flatMap_pairs hws, List.append_assoc]

theorem eq_padded {n : Nat} (hzero : ∀ b ∈ s.take n, b = 0) (hlen : n ≤ s.length) :
    s = List.replicate n 0 ++ s.drop n := by
  have htake : s.take n = List.replicate n 0 :=
    List.eq_replicate_iff.2 ⟨List.length_take_of_le hlen, hzero⟩
  rw [← htake, List.take_append_drop]

def IsWrittenAs (offset : Nat) (op : UInt8) (s r : Bytes) (i : Instruction) : Prop :=
  ∃ bytes, i.encode .ok offset = .ok bytes ∧ op :: s = bytes ++ r

theorem encode_tableSwitch {default low : Int32} {ds : List Int32} {t : Nat} {ts : List Nat}
    (hpadding : ∀ b ∈ s.take (switchPadding offset), b = 0)
    (hwords : tableWords offset (s.drop (switchPadding offset)) = .ok (default, low, ds, r))
    (ht : targetOf offset default = .ok t) (hts : ds.mapM (targetOf offset) = .ok ts)
    (hkeys : (⟨op, .tableSwitch t low ts⟩ : Instruction).KeysInRange) :
    IsWrittenAs offset op s r ⟨op, .tableSwitch t low ts⟩ := by
  obtain ⟨high, hs, hcount, hlt⟩ := tableWords_ok hwords
  have hlen := length_of_drop hs rfl
    (by simp only [List.length_append, length_flatMap_ofInt32, List.length_cons]; omega)
  have hds := length_mapM_ok hts
  rw [← hds] at hcount hlt
  have hhigh := highest_of_keys hlt hcount (hkeys (low, ts.length) rfl).2
  refine ⟨_, Result.map_ok.2 ⟨_, Result.bind_ok.2 ⟨high, hhigh, Result.bind_ok.2
    ⟨_, congrArg Except.ok (distance_targetOf ht),
      Result.bind_ok.2 ⟨ds, mapM_distanceTo hts, rfl⟩⟩⟩, rfl⟩, ?_⟩
  rw [eq_padded hpadding (by omega), hs]
  simp

theorem encode_lookupSwitch {default : Int32} {ws : List Int32} {t : Nat}
    {cases : List (Int32 × Nat)} (hpadding : ∀ b ∈ s.take (switchPadding offset), b = 0)
    (hwords : lookupWords offset (s.drop (switchPadding offset)) = .ok (default, ws, r))
    (ht : targetOf offset default = .ok t)
    (hcases : ((pairs ws).mapM fun (key, d) => (targetOf offset d).map (key, ·)) = .ok cases) :
    IsWrittenAs offset op s r ⟨op, .lookupSwitch t cases⟩ := by
  obtain ⟨count, hs, hcount⟩ := lookupWords_ok hwords
  have hlen := length_of_drop hs rfl
    (by simp only [List.length_append, length_flatMap_ofInt32, List.length_cons]; omega)
  have hpairs := length_mapM_ok hcases
  rw [length_pairs] at hpairs
  have hnumber : Int32.ofNat cases.length = count := by
    rw [← Int32.ofInt_eq_ofNat, show (cases.length : Int) = count.toInt by omega,
      Int32.ofInt_toInt]
  have hlength : Bytes.ofNat32 cases.length = Bytes.ofInt32 count := by
    rw [← hnumber]
    rfl
  refine ⟨_, Result.map_ok.2 ⟨_, Result.bind_ok.2 ⟨_, congrArg Except.ok (distance_targetOf ht),
    Result.bind_ok.2 ⟨pairs ws, mapM_caseDistance hcases, rfl⟩⟩, rfl⟩, ?_⟩
  rw [eq_padded hpadding (by omega), hs, hlength, flatMap_pairs (by omega)]
  simp

theorem encode_variable (h : decodeOperand .variable offset op s = .ok (i, r)) :
    IsWrittenAs offset op s r i := by
  rcases s with _ | ⟨a, s⟩ <;> cases h
  refine ⟨_, rfl, ?_⟩
  simp [not_isWide_variable]

theorem encode_increment (hf : Format.ofOpcode? op = some .increment)
    (h : decodeOperand .increment offset op s = .ok (i, r)) : IsWrittenAs offset op s r i := by
  rcases s with _ | ⟨a, _ | ⟨b, s⟩⟩ <;> cases h
  obtain rfl := (Format.increment_iff op).1 hf
  refine ⟨_, rfl, ?_⟩
  simp [not_isWide_increment]

theorem encode_shortConstant (hf : Format.ofOpcode? op = some .shortConstant)
    (h : decodeOperand .shortConstant offset op s = .ok (i, r)) : IsWrittenAs offset op s r i := by
  rcases s with _ | ⟨a, s⟩ <;> cases h
  obtain rfl := (Format.shortConstant_iff op).1 hf
  refine ⟨_, rfl, ?_⟩
  simp [toUInt16_le]

theorem encode_constant (hf : Format.ofOpcode? op = some .constant)
    (h : decodeOperand .constant offset op s = .ok (i, r)) : IsWrittenAs offset op s r i := by
  rcases s with _ | ⟨a, _ | ⟨b, s⟩⟩ <;> cases h
  refine ⟨_, rfl, ?_⟩
  simp [ne_ldc hf, Bytes.ofUInt16_word16]

theorem encode_branch (hf : Format.ofOpcode? op = some .branch)
    (h : decodeOperand .branch offset op s = .ok (i, r)) : IsWrittenAs offset op s r i := by
  rcases s with _ | ⟨a, _ | ⟨b, s⟩⟩
  · cases h
  · cases h
  · obtain ⟨t, ht, h⟩ := Result.bind_ok.1 h
    cases h
    refine ⟨_, encodeBranch_near (not_isFarJump hf) ht, ?_⟩
    rw [ofInt16_signed16]
    rfl

theorem encode_farBranch (hf : Format.ofOpcode? op = some .farBranch)
    (h : decodeOperand .farBranch offset op s = .ok (i, r)) : IsWrittenAs offset op s r i := by
  rcases s with _ | ⟨a, _ | ⟨b, _ | ⟨c, _ | ⟨d, s⟩⟩⟩⟩
  · cases h
  · cases h
  · cases h
  · cases h
  · obtain ⟨t, ht, h⟩ := Result.bind_ok.1 h
    cases h
    refine ⟨_, encodeBranch_far ((Format.farBranch_iff op).1 hf) ht, ?_⟩
    rw [ofInt32_signed32]
    rfl

theorem encode_decodeOperand {format : Format} (hf : Format.ofOpcode? op = some format)
    (hw : format ≠ .wide) (hc : IsCanonicalAt offset op s i) (hkeys : i.KeysInRange)
    (h : decodeOperand format offset op s = .ok (i, r)) : IsWrittenAs offset op s r i := by
  cases format with
  | «variable» => exact encode_variable h
  | increment => exact encode_increment hf h
  | shortConstant => exact encode_shortConstant hf h
  | constant => exact encode_constant hf h
  | branch => exact encode_branch hf h
  | farBranch => exact encode_farBranch hf h
  | wide => exact absurd rfl hw
  | tableSwitch =>
      obtain ⟨⟨default, low, ds, r'⟩, hwords, h⟩ := Result.bind_ok.1 h
      obtain ⟨t, ht, h⟩ := Result.bind_ok.1 h
      obtain ⟨ts, hts, h⟩ := Result.bind_ok.1 h
      cases h
      have hpadding := hc.padding (.inl ((Format.tableSwitch_iff op).1 hf))
      exact encode_tableSwitch hpadding hwords ht hts hkeys
  | lookupSwitch =>
      obtain ⟨⟨default, ws, r'⟩, hwords, h⟩ := Result.bind_ok.1 h
      obtain ⟨t, ht, h⟩ := Result.bind_ok.1 h
      obtain ⟨cases, hcases, h⟩ := Result.bind_ok.1 h
      cases h
      have hpadding := hc.padding (.inr ((Format.lookupSwitch_iff op).1 hf))
      exact encode_lookupSwitch hpadding hwords ht hcases
  | invokeInterface =>
      have hzero := hc.interface ((Format.invokeInterface_iff op).1 hf)
      rcases s with _ | ⟨a, _ | ⟨b, _ | ⟨c, _ | ⟨d, s⟩⟩⟩⟩ <;> cases h
      refine ⟨_, rfl, ?_⟩
      simp_all [Bytes.ofUInt16_word16]
  | invokeDynamic =>
      have hzero := hc.dynamic ((Format.invokeDynamic_iff op).1 hf)
      rcases s with _ | ⟨a, _ | ⟨b, _ | ⟨c, _ | ⟨d, s⟩⟩⟩⟩ <;> cases h
      refine ⟨_, rfl, ?_⟩
      simp_all [Bytes.ofUInt16_word16]
  | plain =>
      cases h
      exact ⟨_, rfl, rfl⟩
  | arrayType =>
      rcases s with _ | ⟨a, s⟩ <;> cases h
      exact ⟨_, rfl, rfl⟩
  | signedByte =>
      rcases s with _ | ⟨a, s⟩ <;> cases h
      refine ⟨_, rfl, ?_⟩
      rw [UInt8.toUInt8_toInt8]
      rfl
  | signedShort =>
      rcases s with _ | ⟨a, _ | ⟨b, s⟩⟩ <;> cases h
      refine ⟨_, rfl, ?_⟩
      rw [ofInt16_signed16]
      rfl
  | multiArray =>
      rcases s with _ | ⟨a, _ | ⟨b, _ | ⟨c, s⟩⟩⟩ <;> cases h
      refine ⟨_, rfl, ?_⟩
      simp [Bytes.ofUInt16_word16]

theorem encode_decodeWide (hc : IsCanonicalAt offset Opcode.wide s i)
    (h : decodeOperand .wide offset Opcode.wide s = .ok (i, r)) :
    IsWrittenAs offset Opcode.wide s r i := by
  obtain ⟨-, hwide⟩ := hc.wide rfl
  cases s with
  | nil => cases h
  | cons inner s =>
      unfold decodeOperand at h
      simp only at h
      split at h
      · rename_i hinc
        obtain rfl := beq_iff_eq.1 hinc
        split at h
        · cases h
          refine ⟨_, rfl, ?_⟩
          simp only [hwide, if_true, Bytes.ofUInt16_word16, ofInt16_signed16]
          rfl
        · cases h
      · split at h
        · cases h
          refine ⟨_, rfl, ?_⟩
          simp only [hwide, if_true, Bytes.ofUInt16_word16]
          rfl
        · cases h

theorem encode_decodeNext (hc : IsCanonicalAt offset op s i) (hkeys : i.KeysInRange)
    (h : decodeNext offset op s = .ok (i, r)) : IsWrittenAs offset op s r i := by
  unfold decodeNext at h
  split at h
  · rename_i format hf
    by_cases hw : format = .wide
    · subst hw
      obtain rfl := (Format.wide_iff op).1 hf
      exact encode_decodeWide hc h
    · exact encode_decodeOperand hf hw hc hkeys h
  · cases h

def IsCanonical (code : Bytes) : Prop :=
  ∃ is, decode code = .ok is ∧
    ∀ d ∈ is, ∀ op s, code.drop d.1 = op :: s → IsCanonicalAt d.1 op s d.2

variable {is : List (Nat × Instruction)}

theorem IsCanonical.of_decode {code : Bytes} (is : List (Nat × Instruction))
    (h : decode code = .ok is)
    (hc : ∀ d ∈ is, IsCanonicalAt d.1 (code.drop d.1).head! (code.drop d.1).tail d.2) :
    IsCanonical code := by
  refine ⟨is, h, fun d hd op s hdrop => ?_⟩
  have hd' := hc d hd
  rw [hdrop] at hd'
  exact hd'

theorem Decodes.encodes {before : Bytes} (h : Decodes offset s is)
    (hbefore : before.length = offset)
    (hc : ∀ d ∈ is, ∀ op t, (before ++ s).drop d.1 = op :: t → IsCanonicalAt d.1 op t d.2)
    (hkeys : ∀ d ∈ is, d.2.KeysInRange) :
    Encodes .ok offset (is.map (·.2)) s ∧ placedFrom offset (is.map (·.2)) = is := by
  induction h generalizing before with
  | nil => exact ⟨.nil, rfl⟩
  | @cons offset op s r i is hi _ ih =>
      obtain ⟨hfirst, hrest⟩ := List.forall_mem_cons.1 hc
      obtain ⟨hkey, hkeys⟩ := List.forall_mem_cons.1 hkeys
      have hcanonical : IsCanonicalAt offset op s i := hfirst op s (List.drop_left' hbefore)
      obtain ⟨bytes, hbytes, hs⟩ := encode_decodeNext hcanonical hkey hi
      have hlen := length_encode hbytes
      have hread := (decodeNext_ok hi).1
      have hsplit := congrArg List.length hs
      simp only [List.length_cons, List.length_append] at hsplit
      have hsame : readLength offset op i = i.encodedLength offset := by omega
      rw [hsame] at ih
      rw [hs] at hrest ⊢
      rw [← List.append_assoc] at hrest
      obtain ⟨hencodes, hplaced⟩ := ih (by rw [List.length_append, hbefore, hlen]) hrest hkeys
      exact ⟨.cons hbytes hencodes, by simp only [List.map_cons, placedFrom, hplaced]⟩

theorem Decodes.unique {js : List (Nat × Instruction)} (h : Decodes offset s is)
    (h' : Decodes offset s js) : is = js := by
  induction h generalizing js with
  | nil =>
      cases h'
      rfl
  | cons hi _ ih =>
      cases h' with
      | cons hj hs =>
          cases hi.symm.trans hj
          rw [ih hs]

theorem IsCanonical.encodes {code : Bytes} (h : IsCanonical code) (hd : Decodes 0 code is)
    (hkeys : ∀ d ∈ is, d.2.KeysInRange) :
    Encodes .ok 0 (is.map (·.2)) code ∧ placedFrom 0 (is.map (·.2)) = is := by
  obtain ⟨js, hjs, hc⟩ := h
  obtain rfl := hd.unique (decode_iff.1 hjs)
  have hstart : ([] : Bytes).length = 0 := rfl
  exact hd.encodes hstart hc hkeys

section Targets

variable {moved moved' : TargetMap} {f : Nat → Nat}

theorem distanceTo_map {t : Nat} (h : moved t = moved' (f t)) :
    distanceTo moved offset t = distanceTo moved' offset (f t) := by
  rw [distanceTo, distanceTo, h]

theorem mapM_distanceTo_map {ts : List Nat} (h : ∀ t ∈ ts, moved t = moved' (f t)) :
    ts.mapM (distanceTo moved offset) = (ts.map f).mapM (distanceTo moved' offset) := by
  induction ts with
  | nil => rfl
  | cons t ts ih =>
      obtain ⟨ht, hts⟩ := List.forall_mem_cons.1 h
      simp only [List.map_cons, List.mapM_cons, ih hts, distanceTo_map ht]

theorem mapM_caseDistance_map {cases : List (Int32 × Nat)}
    (h : ∀ c ∈ cases, moved c.2 = moved' (f c.2)) :
    (cases.mapM fun (key, t) => (distanceTo moved offset t).map (key, ·))
      = (cases.map fun (key, t) => (key, f t)).mapM
        fun (key, t) => (distanceTo moved' offset t).map (key, ·) := by
  induction cases with
  | nil => rfl
  | cons c cases ih =>
      obtain ⟨hc, hcs⟩ := List.forall_mem_cons.1 h
      simp only [List.map_cons, List.mapM_cons, ih hcs, distanceTo_map hc]

theorem encode_mapTargets (h : ∀ t ∈ i.targets, moved t = moved' (f t)) :
    i.encode moved offset = encode moved' offset ⟨i.opcode, i.operand.mapTargets f⟩ := by
  obtain ⟨opcode, operand⟩ := i
  cases operand with
  | branch target =>
      have htarget := h target (List.mem_singleton_self target)
      simp only [encode, Operand.mapTargets, encodeBranch, distanceTo_map htarget]
  | tableSwitch default low targets =>
      obtain ⟨hdefault, htargets⟩ := List.forall_mem_cons.1 h
      simp only [encode, Operand.mapTargets, encodeTable, mapM_distanceTo_map htargets,
        List.length_map, distanceTo_map hdefault]
  | lookupSwitch default cases =>
      obtain ⟨hdefault, htargets⟩ := List.forall_mem_cons.1 h
      have hcases : ∀ c ∈ cases, moved c.2 = moved' (f c.2) :=
        fun c hc => htargets c.2 (List.mem_map_of_mem hc)
      simp only [encode, Operand.mapTargets, encodeLookup, mapM_caseDistance_map hcases,
        List.length_map, distanceTo_map hdefault]
  | _ => rfl

theorem encodedLength_mapTargets (offset : Nat) (i : Instruction) (f : Nat → Nat) :
    encodedLength offset ⟨i.opcode, i.operand.mapTargets f⟩ = i.encodedLength offset := by
  obtain ⟨opcode, operand⟩ := i
  cases operand with
  | tableSwitch | lookupSwitch => simp only [encodedLength, Operand.mapTargets, List.length_map]
  | _ => rfl

variable {is : List Instruction}

theorem Encodes.mapTargets (h : Encodes moved offset is s)
    (hf : ∀ i ∈ is, ∀ t ∈ i.targets, moved t = moved' (f t)) :
    Encodes moved' offset (is.map fun i => ⟨i.opcode, i.operand.mapTargets f⟩) s := by
  induction h with
  | nil => exact .nil
  | @cons offset i is bytes s h _ ih =>
      obtain ⟨hi, his⟩ := List.forall_mem_cons.1 hf
      rw [encode_mapTargets hi] at h
      refine .cons h ?_
      rw [encodedLength_mapTargets]
      exact ih his

theorem placedFrom_mapTargets (offset : Nat) (is : List Instruction) (f : Nat → Nat) :
    placedFrom offset (is.map fun i => ⟨i.opcode, i.operand.mapTargets f⟩)
      = (placedFrom offset is).map fun d => (d.1, ⟨d.2.opcode, d.2.operand.mapTargets f⟩) := by
  induction is generalizing offset with
  | nil => rfl
  | cons i is ih => simp only [List.map_cons, placedFrom, encodedLength_mapTargets, ih]

theorem Encodes.congr (h : Encodes moved offset is s)
    (hf : ∀ i ∈ is, ∀ t ∈ i.targets, moved t = moved' t) : Encodes moved' offset is s := by
  have hid : Encodes moved' offset (is.map fun i => ⟨i.opcode, i.operand.mapTargets id⟩) s :=
    h.mapTargets hf
  simpa only [Operand.mapTargets_id, List.map_id'] using hid

end Targets

end Instruction

end BytecodeMutation
