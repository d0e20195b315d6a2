import BytecodeMutation.ClassFile.Parse
import BytecodeMutation.Proofs.Placing
import BytecodeMutation.Proofs.Slots

namespace BytecodeMutation

namespace Instruction

variable {offset : Nat} {s : Bytes} {is : List (Nat × Instruction)}

theorem Decodes.bounds (h : Decodes offset s is) :
    ∀ d ∈ is, offset ≤ d.1 ∧ d.1 < offset + s.length := by
  induction h with
  | nil => exact nofun
  | @cons offset op s r i is hi _ ih =>
      have hlen := (decodeNext_ok hi).1
      refine List.forall_mem_cons.2 ⟨⟨Nat.le_refl _, ?_⟩, fun d hd => ?_⟩
      · simp only [List.length_cons]
        omega
      · obtain ⟨hle, hlt⟩ := ih d hd
        simp only [List.length_cons]
        omega

theorem Decodes.ascends (h : Decodes offset s is) : (is.map (·.1)).Pairwise (· < ·) := by
  induction h with
  | nil => exact .nil
  | @cons offset op s r i is hi hs ih =>
      refine .cons (fun t ht => ?_) ih
      obtain ⟨d, hd, rfl⟩ := List.mem_map.1 ht
      have hle := (hs.bounds d hd).1
      have hpos : 0 < readLength offset op i := by
        unfold readLength
        split
        · split <;> omega
        · exact encodedLength_pos offset i
      show offset < d.1
      omega

theorem Decodes.legal (h : Decodes offset s is) : ∀ d ∈ is, d.2.IsLegalWide → d.2.Legal := by
  induction h with
  | nil => exact nofun
  | cons hi _ ih => exact List.forall_mem_cons.2 ⟨(decodeNext_ok hi).2, ih⟩

end Instruction

namespace Method

variable {p p' : Pool} {code : Bytes} {ss : List Site} {m : Method}

theorem sites_iff : sites p code = .ok ss ↔
    Instruction.Decodes 0 code (ss.map fun s => (s.offset, s.instruction)) ∧
      ∀ s ∈ ss, symbolOf p s.offset s.instruction = .ok s.symbol := by
  rw [← Instruction.decode_iff]
  constructor
  · intro h
    obtain ⟨is, his, hsites⟩ := Result.bind_ok.1 h
    have hall := Result.mapM_ok.1 hsites
    rw [his]
    clear h hsites his
    induction hall with
    | nil => exact ⟨rfl, nofun⟩
    | @cons d s is ss hd _ ih =>
        obtain ⟨offset, i⟩ := d
        obtain ⟨symbol, hsymbol, hs⟩ := Result.bind_ok.1 hd
        cases hs
        obtain ⟨hmap, hsymbols⟩ := ih
        exact ⟨by rw [Except.ok.inj hmap]; rfl, List.forall_mem_cons.2 ⟨hsymbol, hsymbols⟩⟩
  · rintro ⟨hdecode, hsymbols⟩
    refine Result.bind_ok.2 ⟨_, hdecode, ?_⟩
    rw [Result.mapM_ok, List.forall₂_map_left_iff, List.forall₂_same]
    exact fun s hs => Result.bind_ok.2 ⟨s.symbol, hsymbols s hs, rfl⟩

theorem symbolOf_within {offset : Nat} {i : Instruction} {symbol : Symbol} (hw : p.Within p')
    (h : symbolOf p offset i = .ok symbol) (offset' : Nat) :
    symbolOf p' offset' i = .ok symbol := by
  have hmember : ∀ {a a' : Activity} {index : UInt16} {f : MemberRef → Symbol},
      (attempt a (p.memberRef index)).map f = .ok symbol →
      (attempt a' (p'.memberRef index)).map f = .ok symbol := by
    intro a a' index f h
    obtain ⟨m, hm, rfl⟩ := Result.map_ok.1 h
    exact Result.map_ok.2 ⟨m, attempt_ok.2 (hw.memberRef (attempt_ok.1 hm)), rfl⟩
  obtain ⟨opcode, operand⟩ := i
  cases operand with
  | constant index =>
      refine Result.ite_ok hmember (Result.ite_ok hmember (Result.ite_ok hmember ?_)) h
      exact Result.ite_ok hmember fun h => h
  | invokeInterface index count => exact Result.ite_ok hmember (fun h => h) h
  | _ => exact h

theorem symbolOf_mapTargets (offset : Nat) (i : Instruction) (f : Nat → Nat) :
    symbolOf p offset ⟨i.opcode, i.operand.mapTargets f⟩ = symbolOf p offset i := by
  obtain ⟨opcode, operand⟩ := i
  cases operand <;> rfl

theorem handlerOf_within {h : RawHandler} {handler : Handler} (hw : p.Within p')
    (hh : handlerOf p h = .ok handler) : handlerOf p' h = .ok handler := by
  refine Result.ite_ok (fun hh => hh) (fun hh => ?_) hh
  obtain ⟨name, hname, hh⟩ := Result.bind_ok.1 hh
  obtain ⟨t, ht, rfl⟩ := Result.map_ok.1 hname
  have ht' := hw.className (attempt_ok.1 ht)
  exact Result.bind_ok.2 ⟨some t, Result.map_ok.2 ⟨t, attempt_ok.2 ht', rfl⟩, hh⟩

theorem handlerOf_ok {r : RawHandler} {g : Handler} (h : handlerOf p r = .ok g) :
    g.start = r.start.toNat ∧ g.stop = r.stop.toNat ∧ g.handler = r.handler.toNat ∧
      ∀ r' : RawHandler, r'.catchType = r.catchType → handlerOf p r' =
        .ok ⟨r'.start.toNat, r'.stop.toNat, r'.handler.toNat, g.catchType⟩ := by
  unfold handlerOf at h ⊢
  split at h
  · rename_i hcatch
    cases h
    refine ⟨rfl, rfl, rfl, fun r' hr' => ?_⟩
    rw [hr', if_pos hcatch]
    rfl
  · rename_i hcatch
    obtain ⟨name, hname, h⟩ := Result.bind_ok.1 h
    cases h
    refine ⟨rfl, rfl, rfl, fun r' hr' => ?_⟩
    rw [hr', if_neg hcatch]
    exact Result.bind_ok.2 ⟨name, hname, rfl⟩

def offsets (m : Method) : List Nat := m.code.map (·.offset)

theorem contains_starts {t : Nat} : m.starts.contains t = true ↔ t ∈ m.offsets := by
  rw [starts, offsets, Std.TreeSet.contains_ofList, List.contains_iff_mem]

theorem validate_iff : m.validate = .ok () ↔
    (∀ s ∈ m.code, ∀ t ∈ s.instruction.targets, t ∈ m.offsets) ∧
      ∀ h ∈ m.handlers, h.start ∈ m.offsets ∧ h.handler ∈ m.offsets ∧
        (h.stop = m.codeLength ∨ h.stop ∈ m.offsets) := by
  have hsite : ∀ s, checkBranches m.starts s = .ok () ↔
      ∀ t ∈ s.instruction.targets, t ∈ m.offsets := by
    intro s
    unfold checkBranches
    split
    · rename_i t ht
      have hnot := List.find?_some ht
      have hmem := List.mem_of_find?_eq_some ht
      simp only [Bool.not_eq_true', ← Bool.not_eq_true, contains_starts] at hnot
      exact ⟨nofun, fun h => absurd (h t hmem) hnot⟩
    · rename_i hnone
      simp only [List.find?_eq_none, Bool.not_eq_true', Bool.not_eq_false, contains_starts] at hnone
      exact ⟨fun _ => hnone, fun _ => rfl⟩
  have hhandler : ∀ h, checkHandler m.starts m.codeLength h = .ok () ↔ h.start ∈ m.offsets ∧
      h.handler ∈ m.offsets ∧ (h.stop = m.codeLength ∨ h.stop ∈ m.offsets) := by
    intro h
    unfold checkHandler
    split
    · rename_i hcond
      simp only [Bool.and_eq_true, Bool.or_eq_true, beq_iff_eq, contains_starts] at hcond
      exact ⟨fun _ => ⟨hcond.1.1, hcond.1.2, hcond.2⟩, fun _ => rfl⟩
    · rename_i hcond
      simp only [Bool.and_eq_true, Bool.or_eq_true, beq_iff_eq, contains_starts] at hcond
      exact ⟨nofun, fun h => absurd ⟨⟨h.1, h.2.1⟩, h.2.2⟩ hcond⟩
  unfold validate
  constructor
  · intro h
    obtain ⟨_, hsites, hhandlers⟩ := Result.bind_ok.1 h
    exact ⟨fun s hs => (hsite s).1 (Result.forM_ok.1 hsites s hs),
      fun h hh => (hhandler h).1 (Result.forM_ok.1 hhandlers h hh)⟩
  · rintro ⟨hsites, hhandlers⟩
    exact Result.bind_ok.2 ⟨(), Result.forM_ok.2 fun s hs => (hsite s).2 (hsites s hs),
      Result.forM_ok.2 fun h hh => (hhandler h).2 (hhandlers h hh)⟩

theorem sites_within (hw : p.Within p') (h : sites p code = .ok ss) : sites p' code = .ok ss := by
  obtain ⟨hdecodes, hsymbols⟩ := sites_iff.1 h
  exact sites_iff.2 ⟨hdecodes, fun s hs => symbolOf_within hw (hsymbols s hs) s.offset⟩

theorem handlers_within {hs : List RawHandler} {handlers : List Handler} (hw : p.Within p')
    (h : hs.mapM (handlerOf p) = .ok handlers) : hs.mapM (handlerOf p') = .ok handlers :=
  Result.mapM_ok.2 ((Result.mapM_ok.1 h).imp fun _ _ => handlerOf_within hw)

structure Reads (p : Pool) (code : Bytes) (handlers : List RawHandler) (m : Method) : Prop where
  sites : Method.sites p code = .ok m.code
  handlers : handlers.mapM (handlerOf p) = .ok m.handlers
  length : m.codeLength = code.length
  valid : m.validate = .ok ()

theorem Reads.within {handlers : List RawHandler} (h : m.Reads p code handlers)
    (hw : p.Within p') : m.Reads p' code handlers :=
  ⟨sites_within hw h.sites, handlers_within hw h.handlers, h.length, h.valid⟩

def IsRead (m : Method) : Prop := ∃ p code handlers, m.Reads p code handlers

namespace IsRead

variable {s s' : Site} {j k t : Nat}

theorem ascends (h : m.IsRead) : m.offsets.Pairwise (· < ·) := by
  obtain ⟨p, code, handlers, hreads⟩ := h
  have hascends := (sites_iff.1 hreads.sites).1.ascends
  rwa [List.map_map] at hascends

theorem nodup_offsets (h : m.IsRead) : m.offsets.Nodup :=
  h.ascends.imp fun hlt => Nat.ne_of_lt hlt

theorem offset_lt (h : m.IsRead) (ht : t ∈ m.offsets) : t < m.codeLength := by
  obtain ⟨p, code, handlers, hreads⟩ := h
  obtain ⟨s, hs, rfl⟩ := List.mem_map.1 ht
  have hlt := ((sites_iff.1 hreads.sites).1.bounds _ (List.mem_map_of_mem hs)).2
  rwa [Nat.zero_add, ← hreads.length] at hlt

theorem offset_lt_of_lt (h : m.IsRead) (hs : m.code[j]? = some s) (hs' : m.code[k]? = some s')
    (hlt : j < k) : s.offset < s'.offset := by
  have hget : ∀ {i : Nat} {s : Site}, m.code[i]? = some s → m.offsets[i]? = some s.offset :=
    fun hs => by rw [offsets, List.getElem?_map, hs, Option.map_some]
  obtain ⟨hj, hoffset⟩ := List.getElem?_eq_some_iff.1 (hget hs)
  obtain ⟨hk, hoffset'⟩ := List.getElem?_eq_some_iff.1 (hget hs')
  rw [← hoffset, ← hoffset']
  exact List.pairwise_iff_getElem.1 h.ascends j k hj hk hlt

theorem offset_le_iff (h : m.IsRead) (hs : m.code[j]? = some s) (hs' : m.code[k]? = some s') :
    s.offset ≤ s'.offset ↔ j ≤ k := by
  rcases Nat.lt_trichotomy j k with hlt | rfl | hlt
  · exact iff_of_true (Nat.le_of_lt (h.offset_lt_of_lt hs hs' hlt)) (Nat.le_of_lt hlt)
  · obtain rfl := Option.some.inj (hs.symm.trans hs')
    exact iff_of_true (Nat.le_refl _) (Nat.le_refl _)
  · exact iff_of_false (Nat.not_le.2 (h.offset_lt_of_lt hs' hs hlt)) (Nat.not_le.2 hlt)

theorem ordinal_inj (h : m.IsRead) (hs : m.code[j]? = some s) (hs' : m.code[k]? = some s')
    (heq : s.offset = s'.offset) : j = k :=
  Nat.le_antisymm ((h.offset_le_iff hs hs').1 (Nat.le_of_eq heq))
    ((h.offset_le_iff hs' hs).1 (Nat.le_of_eq heq.symm))

theorem legal (h : m.IsRead) (hs : s ∈ m.code) (hwide : s.instruction.IsLegalWide) :
    s.instruction.Legal := by
  obtain ⟨p, code, handlers, hreads⟩ := h
  exact (sites_iff.1 hreads.sites).1.legal _ (List.mem_map_of_mem hs) hwide

theorem targets (h : m.IsRead) (hs : s ∈ m.code) : ∀ t ∈ s.instruction.targets, t ∈ m.offsets := by
  obtain ⟨p, code, handlers, hreads⟩ := h
  exact (validate_iff.1 hreads.valid).1 s hs

end IsRead

structure IsOf (p : Pool) (index : Nat) (entry : MethodEntry) (access : UInt16) (m : Method) :
    Prop where
  name : p.utf8 entry.name = .ok m.name
  descriptor : p.utf8 entry.descriptor = .ok m.descriptor
  index : m.index = index
  access : m.access = access

variable {index : Nat} {entry : MethodEntry} {access : UInt16}

theorem ofEntry_some : ofEntry p index entry access = .ok (some m) ↔
    m.IsOf p index entry access ∧ ∃ code handlers attributes,
      entry.code? = some (code, handlers, attributes) ∧ m.Reads p code handlers ∧
      m.lines = linesOf attributes := by
  unfold ofEntry
  simp only [Result.bind_ok, attempt_ok]
  constructor
  · rintro ⟨name, hname, descriptor, hdescriptor, h⟩
    split at h
    · cases h
    · rename_i code handlers attributes hcode
      simp only [Result.bind_ok, attempt_ok] at h
      obtain ⟨ss, hss, hs, hhs, _, hvalid, h⟩ := h
      cases h
      exact ⟨⟨hname, hdescriptor, rfl, rfl⟩, code, handlers, attributes, hcode,
        ⟨hss, hhs, rfl, hvalid⟩, rfl⟩
  · obtain ⟨mindex, mname, mdescriptor, maccess, mlength, mcode, mhandlers, mlines⟩ := m
    rintro ⟨⟨hname, hdescriptor, hindex, haccess⟩, code, handlers, attributes, hcode,
      ⟨hss, hhs, hlength, hvalid⟩, hlines⟩
    obtain rfl := hindex
    obtain rfl := haccess
    obtain rfl := hlength
    obtain rfl := hlines
    refine ⟨mname, hname, mdescriptor, hdescriptor, ?_⟩
    simp only [hcode, Result.bind_ok, attempt_ok]
    exact ⟨mcode, hss, mhandlers, hhs, (), hvalid, rfl⟩

theorem ofEntry_none : ofEntry p index entry access = .ok none ↔
    (∃ name, p.utf8 entry.name = .ok name) ∧
      (∃ descriptor, p.utf8 entry.descriptor = .ok descriptor) ∧ entry.code? = none := by
  unfold ofEntry
  simp only [Result.bind_ok, attempt_ok]
  constructor
  · rintro ⟨name, hname, descriptor, hdescriptor, h⟩
    split at h
    · rename_i hcode
      exact ⟨⟨name, hname⟩, ⟨descriptor, hdescriptor⟩, hcode⟩
    · simp only [Result.bind_ok] at h
      obtain ⟨_, -, _, -, _, -, h⟩ := h
      cases h
  · rintro ⟨⟨name, hname⟩, ⟨descriptor, hdescriptor⟩, hcode⟩
    refine ⟨name, hname, descriptor, hdescriptor, ?_⟩
    simp only [hcode]
    rfl

theorem IsOf.within (h : m.IsOf p index entry access) (hw : p.Within p') :
    m.IsOf p' index entry access :=
  ⟨hw.utf8 h.name, hw.utf8 h.descriptor, h.index, h.access⟩

theorem ofEntry_within {o : Option Method} (hw : p.Within p')
    (h : ofEntry p index entry access = .ok o) : ofEntry p' index entry access = .ok o := by
  cases o with
  | none =>
      obtain ⟨⟨name, hname⟩, ⟨descriptor, hdescriptor⟩, hcode⟩ := ofEntry_none.1 h
      exact ofEntry_none.2 ⟨⟨name, hw.utf8 hname⟩, ⟨descriptor, hw.utf8 hdescriptor⟩, hcode⟩
  | some m =>
      obtain ⟨hm, code, handlers, attributes, hcode, hreads, hlines⟩ := ofEntry_some.1 h
      exact ofEntry_some.2 ⟨hm.within hw, code, handlers, attributes, hcode, hreads.within hw,
        hlines⟩

end Method

end BytecodeMutation
