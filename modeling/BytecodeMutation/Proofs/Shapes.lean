import BytecodeMutation.Proofs.Methods
import BytecodeMutation.Proofs.Writing

namespace BytecodeMutation

namespace Opcode

abbrev saload : UInt8 := 0x35
abbrev i2l : UInt8 := 0x85
abbrev dcmpg : UInt8 := 0x98

def span (first last : UInt8) : List UInt8 :=
  (List.range' first.toNat (last.toNat + 1 - first.toNat)).map .ofNat

def widened : List UInt8 := span iload aload ++ span istore astore ++ [ret, iinc]

end Opcode

namespace Format

open Opcode in
def opcodes : Format → List UInt8
  | plain => span nop dconst1 ++ span iload0 saload ++ span istore0 lxor ++ span i2l dcmpg ++
      span ireturn returnVoid ++ [arraylength, athrow, monitorenter, monitorexit]
  | signedByte => [bipush]
  | signedShort => [sipush]
  | arrayType => [newarray]
  | «variable» => span iload aload ++ span istore astore ++ [ret]
  | increment => [iinc]
  | shortConstant => [ldc]
  | constant => [ldcW, ldc2W] ++ span getstatic invokestatic ++ [new, anewarray, checkcast, instanceof]
  | branch => span ifeq jsr ++ [ifnull, ifnonnull]
  | farBranch => [gotoW, jsrW]
  | tableSwitch => [tableswitch]
  | lookupSwitch => [lookupswitch]
  | invokeInterface => [invokeinterface]
  | invokeDynamic => [invokedynamic]
  | multiArray => [multianewarray]
  | wide => [Opcode.wide]

-- Both directions are evaluated as functions to Bool: the instances that decide the statements
-- themselves go through every byte, and compare bytes rather than numbers.
theorem ofOpcode?_of_mem_opcodes {f : Format} {op : UInt8} (h : op ∈ f.opcodes) :
    ofOpcode? op = some f := by
  have hall : (f.opcodes.all fun op => ofOpcode? op == some f) = true := by
    cases f
    all_goals decide +kernel
  exact beq_iff_eq.1 (List.all_eq_true.1 hall op h)

theorem mem_opcodes_of_ofOpcode? {f : Format} {op : UInt8} (h : ofOpcode? op = some f) :
    op ∈ f.opcodes := by
  have hall : ((List.range 256).all fun n => (ofOpcode? (.ofNat n)).all fun f =>
      f.opcodes.any fun op => op.toNat.beq n) = true := by decide +kernel
  have hop := List.all_eq_true.1 hall op.toNat (List.mem_range.2 op.toNat_lt)
  rw [UInt8.ofNat_toNat, h] at hop
  obtain ⟨op', hop', heq⟩ := List.any_eq_true.1 hop
  exact UInt8.toNat_inj.1 (Nat.eq_of_beq_eq_true heq) ▸ hop'

theorem mem_opcodes_iff (f : Format) (op : UInt8) : op ∈ f.opcodes ↔ ofOpcode? op = some f :=
  ⟨ofOpcode?_of_mem_opcodes, mem_opcodes_of_ofOpcode?⟩

end Format

def Operand.IsOf : Operand → Format → Prop
  | absent, f => f = .plain
  | byte _, f => f = .signedByte
  | short _, f => f = .signedShort
  | arrayType _, f => f = .arrayType
  | «variable» _, f => f = .variable
  | increment .., f => f = .increment
  | constant index, f => f = .constant ∨ f = .shortConstant ∧ index ≤ 255
  | newConstant _, _ => False
  | branch _, f => f = .branch ∨ f = .farBranch
  | tableSwitch .., f => f = .tableSwitch
  | lookupSwitch .., f => f = .lookupSwitch
  | invokeInterface .., f => f = .invokeInterface
  | invokeDynamic _, f => f = .invokeDynamic
  | multiArray .., f => f = .multiArray

namespace Instruction

def IsShaped (i : Instruction) : Prop := ∃ f : Format, i.opcode ∈ f.opcodes ∧ i.operand.IsOf f

def IsMisread (code : Bytes) (d : Nat × Instruction) : Prop :=
  ∃ op a b rest, code.drop d.1 = Opcode.wide :: op :: a :: b :: rest ∧ op ∉ Opcode.widened ∧
    d.2 = ⟨op, .variable (Bytes.word16 a b)⟩

variable {offset : Nat} {op : UInt8} {s r : Bytes} {i : Instruction}
  {is : List (Nat × Instruction)}

theorem mem_widened_iff (op : UInt8) : op ∈ Opcode.widened ↔
    Format.ofOpcode? op = some .variable ∨ op = Opcode.iinc := by
  rw [← Format.mem_opcodes_iff]
  simp only [Opcode.widened, Format.opcodes, List.mem_append, List.mem_cons, List.not_mem_nil,
    or_false, or_assoc]

theorem Legal.isShaped (h : i.Legal) : i.IsShaped := by
  obtain ⟨op, operand⟩ := i
  have hmem : ∀ {f : Format}, Format.ofOpcode? op = some f → op ∈ f.opcodes :=
    (Format.mem_opcodes_iff _ op).2
  cases operand with
  | newConstant => exact h.elim
  | constant index =>
      rcases h with h | ⟨h, hindex⟩
      · exact ⟨_, hmem h, .inl rfl⟩
      · exact ⟨_, hmem h, .inr ⟨rfl, hindex⟩⟩
  | branch target =>
      rcases h with h | h
      · exact ⟨_, hmem h, .inl rfl⟩
      · exact ⟨_, hmem h, .inr rfl⟩
  | tableSwitch | lookupSwitch => exact ⟨_, hmem h.1, rfl⟩
  | _ => exact ⟨_, hmem h, rfl⟩

theorem IsShaped.isLegalWide (h : i.IsShaped) : i.IsLegalWide := by
  obtain ⟨f, hop, hoperand⟩ := h
  intro index hindex
  rw [hindex] at hoperand
  cases hoperand
  exact (Format.mem_opcodes_iff _ _).1 hop

theorem drop_readLength (h : decodeNext offset op s = .ok (i, r)) :
    (op :: s).drop (readLength offset op i) = r := by
  have hlength := (decodeNext_ok h).1
  have hsuffix : r <:+ op :: s := (decodeNext_suffix h).trans (List.suffix_cons op s)
  have hdrop := List.suffix_iff_eq_drop.1 hsuffix
  rw [List.length_cons, hlength, Nat.add_sub_cancel] at hdrop
  exact hdrop.symm

theorem Decodes.read (h : Decodes offset s is) : ∀ d ∈ is, ∃ op r r',
    s.drop (d.1 - offset) = op :: r ∧ decodeNext d.1 op r = .ok (d.2, r') := by
  induction h with
  | nil => exact nofun
  | @cons offset op s r i is hi hs ih =>
      refine List.forall_mem_cons.2 ⟨⟨op, s, r, ?_, hi⟩, fun d hd => ?_⟩
      · rw [Nat.sub_self, List.drop_zero]
      · obtain ⟨op', q, q', hdrop, hnext⟩ := ih d hd
        refine ⟨op', q, q', ?_, hnext⟩
        have hle := (hs.bounds d hd).1
        rw [← drop_readLength hi, List.drop_drop] at hdrop
        rw [← hdrop]
        congr 1
        omega

theorem decodeWide_cases (h : decodeOperand .wide offset op s = .ok (i, r)) :
    i.Legal ∨ ∃ inner a b, s = inner :: a :: b :: r ∧ inner ≠ Opcode.iinc ∧
      i = ⟨inner, .variable (Bytes.word16 a b)⟩ := by
  obtain ⟨-, hlegal⟩ := decodeWide_ok h
  cases s with
  | nil => cases h
  | cons inner s =>
      simp only [decodeOperand] at h
      split at h
      · split at h
        · cases h
          exact .inl (hlegal fun _ hindex => Operand.noConfusion hindex)
        · cases h
      · rename_i hinc
        split at h
        · cases h
          exact .inr ⟨inner, _, _, rfl, fun heq => hinc (beq_iff_eq.2 heq), rfl⟩
        · cases h

theorem legal_or_isMisread {code : Bytes} (h : Decodes 0 code is) {d : Nat × Instruction}
    (hd : d ∈ is) : d.2.Legal ∨ IsMisread code d := by
  obtain ⟨op, s, r, hdrop, hnext⟩ := h.read d hd
  rw [Nat.sub_zero] at hdrop
  unfold decodeNext at hnext
  split at hnext
  · rename_i f hf
    by_cases hw : f = .wide
    · subst hw
      obtain rfl := (Format.wide_iff op).1 hf
      rcases decodeWide_cases hnext with hlegal | ⟨inner, a, b, rfl, hinc, hi⟩
      · exact .inl hlegal
      · by_cases hvariable : Format.ofOpcode? inner = some .variable
        · refine .inl ?_
          rw [hi]
          exact hvariable
        · refine .inr ⟨inner, a, b, r, hdrop, ?_, hi⟩
          rw [mem_widened_iff]
          exact not_or.2 ⟨hvariable, hinc⟩
    · exact .inl (decodeOperand_legal hf hw hnext).2.1
  · cases hnext

theorem IsMisread.not_isShaped {code : Bytes} {d : Nat × Instruction} (h : IsMisread code d) :
    ¬ d.2.IsShaped := by
  obtain ⟨op, a, b, rest, -, hop, hi⟩ := h
  intro hshaped
  rw [hi] at hshaped
  exact hop ((mem_widened_iff op).2 (.inl (hshaped.isLegalWide _ rfl)))

def relocate? (is : List (Nat × Instruction)) (t : Nat) : Option Nat :=
  ((is.zip (placedFrom 0 (is.map (·.2)))).find? fun p => p.1.1 == t).map (·.2.1)

def relocate (is : List (Nat × Instruction)) (t : Nat) : Nat := (relocate? is t).getD t

def relocation (is : List (Nat × Instruction)) : TargetMap := fun t =>
  match relocate? is t with
  | some t' => .ok t'
  | none => .error (.notAnInstruction t)

theorem relocation_ok {t t' : Nat} (h : relocation is t = .ok t') :
    relocate is t = t' ∧ t' < endFrom 0 (is.map (·.2)) := by
  unfold relocation at h
  split at h
  · rename_i t'' hfound
    cases h
    refine ⟨by rw [relocate, hfound]; rfl, ?_⟩
    obtain ⟨p, hp, rfl⟩ := Option.map_eq_some_iff.1 hfound
    exact (placedFrom_lt (List.of_mem_zip (List.mem_of_find?_eq_some hp)).2).2
  · cases h

section

variable {moved : TargetMap} {f : Nat → Nat} {bytes : Bytes} {is : List Instruction}

theorem writeFrom_ok {written code : Bytes} {placed : List (Nat × Instruction)}
    (h : writeFrom moved written is = .ok (placed, code)) :
    placed = placedFrom written.length is ∧
      ∃ s, code = written ++ s ∧ Encodes moved written.length is s := by
  induction is generalizing written placed with
  | nil =>
      cases h
      exact ⟨rfl, [], (List.append_nil _).symm, .nil⟩
  | cons i is ih =>
      obtain ⟨bytes, hbytes, h⟩ := Result.bind_ok.1 h
      obtain ⟨⟨placed', code'⟩, hrest, h⟩ := Result.bind_ok.1 h
      cases h
      obtain ⟨rfl, s, rfl, hs⟩ := ih hrest
      rw [List.length_append, length_encode hbytes] at hs ⊢
      exact ⟨rfl, bytes ++ s, List.append_assoc _ _ _, .cons hbytes hs⟩

theorem write_ok {code : Bytes} {placed : List (Nat × Instruction)}
    (h : write moved is = .ok (placed, code)) :
    placed = placedFrom 0 is ∧ Encodes moved 0 is code := by
  obtain ⟨rfl, s, rfl, hs⟩ := writeFrom_ok h
  exact ⟨rfl, hs⟩

theorem exists_of_distanceTo {t : Nat} {d : Int32} (h : distanceTo moved offset t = .ok d) :
    ∃ t', moved t = .ok t' := by
  obtain ⟨t', ht', -⟩ := Result.map_ok.1 h
  exact ⟨t', ht'⟩

theorem exists_moved (h : i.encode moved offset = .ok bytes) :
    ∀ t ∈ i.targets, ∃ t', moved t = .ok t' := by
  obtain ⟨op, operand⟩ := i
  cases operand with
  | branch target =>
      obtain ⟨d, hd, -⟩ := Result.bind_ok.1 h
      exact List.forall_mem_singleton.2 (exists_of_distanceTo hd)
  | tableSwitch default low targets =>
      obtain ⟨s, hs, -⟩ := Result.map_ok.1 h
      obtain ⟨-, d, ds, -, hd, hds, -⟩ := encodeTable_ok hs
      refine List.forall_mem_cons.2 ⟨exists_of_distanceTo hd, fun t ht => ?_⟩
      obtain ⟨e, -, he⟩ := Result.exists_of_mem_left hds ht
      exact exists_of_distanceTo he
  | lookupSwitch default cases =>
      obtain ⟨s, hs, -⟩ := Result.map_ok.1 h
      obtain ⟨d, hd, hs⟩ := Result.bind_ok.1 hs
      obtain ⟨ds, hds, -⟩ := Result.bind_ok.1 hs
      refine List.forall_mem_cons.2 ⟨exists_of_distanceTo hd, List.forall_mem_map.2 fun c hc => ?_⟩
      obtain ⟨e, -, he⟩ := Result.exists_of_mem_left hds hc
      obtain ⟨e', he', -⟩ := Result.map_ok.1 he
      exact exists_of_distanceTo he'
  | _ => exact nofun

theorem Decodes.head {d : Nat × Instruction} {ds : List (Nat × Instruction)}
    (h : Decodes offset s (d :: ds)) : d.1 = offset := by
  cases h
  rfl

theorem Encodes.readLength_eq {i' : Instruction} {g : Nat × Instruction → Nat × Instruction}
    {r' : Bytes} (h : Encodes moved (offset + i.encodedLength offset) is s)
    (hlength : r.length + 1 = i.encodedLength offset)
    (hnext : decodeNext offset op (r ++ s) = .ok (i', r'))
    (hrest : Decodes (offset + readLength offset op i') r'
      ((placedFrom (offset + i.encodedLength offset) is).map g)) (hg : ∀ d, (g d).1 = d.1) :
    readLength offset op i' = i.encodedLength offset ∧ r' = s := by
  have hread := (decodeNext_ok hnext).1
  rw [List.length_append] at hread
  have heq : readLength offset op i' = i.encodedLength offset := by
    cases h with
    | nil =>
        cases hrest
        simp only [List.length_nil] at hread
        omega
    | cons hj _ =>
        have hhead := hrest.head
        rw [hg] at hhead
        exact Nat.add_left_cancel hhead.symm
  refine ⟨heq, ?_⟩
  have hle : r'.length = s.length := by omega
  exact (List.suffix_of_suffix_length_le (decodeNext_suffix hnext) (List.suffix_append r s)
    (Nat.le_of_eq hle)).eq_of_length hle

theorem isLegalWide_or_isWide {i' : Instruction} {r' : Bytes}
    (h : i.encode moved offset = .ok (op :: r))
    (hi' : i' = ⟨i.opcode, i.operand.mapTargets f⟩)
    (hnext : decodeNext offset op s = .ok (i', r'))
    (hlength : readLength offset op i' = i.encodedLength offset) :
    i.IsLegalWide ∨ isWide i.operand = true := by
  subst hi'
  by_cases hwide : isWide i.operand = true
  · exact .inr hwide
  refine .inl fun index hindex => ?_
  obtain ⟨opcode, operand⟩ := i
  obtain rfl : operand = .variable index := hindex
  simp only [encode, if_neg hwide] at h
  cases h
  unfold decodeNext at hnext
  split at hnext
  · rename_i format hf
    by_cases hw : format = .wide
    · subst hw
      obtain rfl := (Format.wide_iff op).1 hf
      simp only [encodedLength, if_neg hwide] at hlength
      cases hlength
    · exact (decodeOperand_legal hf hw hnext).2.1
  · cases hnext

theorem Encodes.reread (h : Encodes moved offset is s)
    (hd : Decodes offset s ((placedFrom offset is).map fun (offset, i) =>
      (offset, ⟨i.opcode, i.operand.mapTargets f⟩))) :
    ∀ i ∈ is, i.IsLegalWide ∨ isWide i.operand = true := by
  induction h with
  | nil => exact nofun
  | @cons offset i is bytes s h hs ih =>
      obtain ⟨op, r, rfl⟩ : ∃ op r, bytes = op :: r := by
        refine List.exists_cons_of_length_pos ?_
        rw [length_encode h]
        exact encodedLength_pos offset i
      rw [List.cons_append, placedFrom, List.map_cons] at hd
      cases hd with
      | cons hnext hrest =>
          obtain ⟨hlength, rfl⟩ := hs.readLength_eq (length_encode h) hnext hrest fun _ => rfl
          refine List.forall_mem_cons.2 ⟨isLegalWide_or_isWide h rfl hnext hlength, ih ?_⟩
          rw [hlength] at hrest
          exact hrest

theorem IsMisread.decodeNext_encode {code : Bytes} {d : Nat × Instruction} (h : IsMisread code d)
    (hwide : isWide d.2.operand = true) (hencode : d.2.encode moved offset = .ok bytes) :
    ∃ op s, bytes = op :: s ∧ ∀ rest,
      decodeNext offset op (s ++ rest) = .ok (⟨d.2.opcode, d.2.operand.mapTargets f⟩, rest) := by
  obtain ⟨op, a, b, -, -, hop, hi⟩ := h
  have hne : (op == Opcode.iinc) = false := by
    rw [Bool.eq_false_iff, ne_eq, beq_iff_eq]
    exact fun hinc => hop ((mem_widened_iff op).2 (.inr hinc))
  rw [hi] at hwide hencode ⊢
  simp only [Instruction.encode, hwide, if_true] at hencode
  cases hencode
  refine ⟨_, _, rfl, fun rest => ?_⟩
  rw [decodeNext_eq ((Format.wide_iff _).2 rfl)]
  simp only [Bytes.ofUInt16, List.cons_append, List.nil_append, decodeOperand, hne,
    Bool.false_eq_true, if_false, Bytes.word16_ofUInt16]
  rfl

end

/-- Every instruction that is read has the operands of its opcode, but for those read after a wide
prefix that may not stand before their opcode. Written one after another, with their jumps going to
where the targets stand then, instructions are read back as they are exactly if none of those has
an index that fits a byte. -/
theorem decode_shapes (code : Bytes) (is : List (Nat × Instruction)) (h : decode code = .ok is) :
    (∀ d ∈ is, ¬ d.2.IsShaped ↔ IsMisread code d) ∧
    ∀ placed bytes, write (relocation is) (is.map (·.2)) = .ok (placed, bytes) →
      bytes.length ≤ 2147483648 →
      (∀ d ∈ is, ∀ t ∈ d.2.targets, relocation is t = .ok (relocate is t)) ∧
      (decode bytes = .ok (placed.map fun (offset, i) =>
        (offset, ⟨i.opcode, i.operand.mapTargets (relocate is)⟩)) ↔
          ∀ d ∈ is, d.2.IsShaped ∨ isWide d.2.operand = true) := by
  rw [decode_iff] at h
  refine ⟨fun d hd => ⟨fun hnot => ?_, IsMisread.not_isShaped⟩, fun placed bytes hwrite hlt => ?_⟩
  · exact (legal_or_isMisread h hd).resolve_left fun hlegal => hnot hlegal.isShaped
  · obtain ⟨rfl, hencodes⟩ := write_ok hwrite
    have hlength := hencodes.length
    rw [Nat.zero_add] at hlength
    have hmoved : ∀ d ∈ placedFrom 0 (is.map (·.2)), ∀ t ∈ d.2.targets,
        relocation is t = .ok (relocate is t) ∧ ReachesFar d.1 (relocate is t) := by
      intro d hd t ht
      obtain ⟨bytes', hbytes⟩ := hencodes.exists_bytes d hd
      obtain ⟨t', ht'⟩ := exists_moved hbytes t ht
      obtain ⟨heq, hend⟩ := relocation_ok ht'
      have hstart := (placedFrom_lt hd).2
      rw [heq]
      exact ⟨ht', ReachesFar.of_lt (by omega) (by omega)⟩
    refine ⟨fun d hd t ht => ?_, fun hdecode d hd => ?_, fun hshaped => ?_⟩
    · have hmem : d.2 ∈ (placedFrom 0 (is.map (·.2))).map (·.2) := by
        rw [map_snd_placedFrom]
        exact List.mem_map_of_mem hd
      obtain ⟨d', hd', heq⟩ := List.mem_map.1 hmem
      exact (hmoved d' hd' t (heq ▸ ht)).1
    · rw [decode_iff] at hdecode
      refine (hencodes.reread hdecode d.2 (List.mem_map_of_mem hd)).imp_left fun hlegal => ?_
      exact (h.legal d hd hlegal).isShaped
    · refine decode_iff.2 (hencodes.decodes_of fun d hd bytes' hbytes => ?_)
      obtain ⟨d', hd', heq⟩ := List.mem_map.1 (snd_mem_of_placedFrom hd)
      rw [← heq] at hbytes ⊢
      rcases legal_or_isMisread h hd' with hlegal | hmisread
      · exact decodeNext_encode hlegal (heq ▸ hmoved d hd) hbytes
      · exact hmisread.decodeNext_encode ((hshaped d' hd').resolve_left hmisread.not_isShaped) hbytes

end Instruction

namespace Specimen

open Instruction

def widened : Bytes :=
  [0xc4, 0x15, 0, 5, 0xaa, 0, 0, 0, 0, 0, 0, 27, 0, 0, 0, 7, 0, 0, 0, 7, 0, 0, 0, 20,
    0xc4, 0, 1, 0x2c, 0xa7, 0xff, 0xe4, 0xb1]

def widenedRead : List (Nat × Instruction) :=
  [(0, ⟨Opcode.iload, .variable 5⟩), (4, ⟨Opcode.tableswitch, .tableSwitch 31 7 [24]⟩),
    (24, ⟨Opcode.nop, .variable 300⟩), (28, ⟨Opcode.goto, .branch 0⟩),
    (31, .plain Opcode.returnVoid)]

def narrowed : Bytes :=
  [0x15, 5, 0xaa, 0, 0, 0, 0, 25, 0, 0, 0, 7, 0, 0, 0, 7, 0, 0, 0, 18, 0xc4, 0, 1, 0x2c,
    0xa7, 0xff, 0xe8, 0xb1]

def narrowedRead : List (Nat × Instruction) :=
  [(0, ⟨Opcode.iload, .variable 5⟩), (2, ⟨Opcode.tableswitch, .tableSwitch 27 7 [20]⟩),
    (20, ⟨Opcode.nop, .variable 300⟩), (24, ⟨Opcode.goto, .branch 0⟩),
    (27, .plain Opcode.returnVoid)]

def prefixedNop : Instruction := ⟨Opcode.nop, .variable 5⟩

theorem shaped_widened : ∀ d ∈ widenedRead, d.2.IsShaped ∨ isWide d.2.operand = true := by
  simp only [widenedRead, List.forall_mem_cons]
  exact ⟨.inl (Legal.isShaped rfl), .inl (Legal.isShaped ⟨rfl, by decide⟩), .inr rfl,
    .inl (Legal.isShaped (.inl rfl)), .inl (Legal.isShaped rfl), List.forall_mem_nil _⟩

def prefixedFar : Nat × Instruction := (24, ⟨Opcode.nop, .variable 300⟩)

theorem misread_widened : IsMisread widened prefixedFar :=
  ⟨Opcode.nop, 1, 0x2c, [0xa7, 0xff, 0xe4, 0xb1], rfl, by decide, rfl⟩

end Specimen

open Specimen in
theorem Instruction.decode_shapes_widened :
    decode widened = .ok widenedRead ∧
    (∃ d ∈ widenedRead, ¬ d.2.IsShaped) ∧
    ∃ placed, write (relocation widenedRead) (widenedRead.map (·.2)) = .ok (placed, narrowed) ∧
      decode narrowed = .ok narrowedRead ∧
      narrowedRead = placed.map fun (offset, i) =>
        (offset, ⟨i.opcode, i.operand.mapTargets (relocate widenedRead)⟩) := by
  have hdecode : decode widened = .ok widenedRead := by decide +kernel
  obtain ⟨hshapes, hback⟩ := decode_shapes widened widenedRead hdecode
  have hwrite : write (relocation widenedRead) (widenedRead.map (·.2))
      = .ok (placedFrom 0 (widenedRead.map (·.2)), narrowed) := by decide +kernel
  have hplaced : narrowedRead = (placedFrom 0 (widenedRead.map (·.2))).map fun (offset, i) =>
      (offset, ⟨i.opcode, i.operand.mapTargets (relocate widenedRead)⟩) := by decide +kernel
  have hread := (hback _ narrowed hwrite (by decide)).2.2 shaped_widened
  have hmem : prefixedFar ∈ widenedRead := by decide
  refine ⟨hdecode, ⟨prefixedFar, hmem, (hshapes _ hmem).2 misread_widened⟩, _, hwrite, ?_, hplaced⟩
  rw [hplaced]
  exact hread

open Specimen in
theorem Instruction.decode_prefixedNop :
    decode [Opcode.wide, Opcode.nop, 0, 5] = .ok [(0, prefixedNop)] ∧ ¬ prefixedNop.IsShaped ∧
    write (relocation [(0, prefixedNop)]) [prefixedNop] = .ok ([(0, prefixedNop)], [0, 5]) ∧
    decode [0, 5] = .ok [(0, .plain Opcode.nop), (1, .plain 5)] := by
  refine ⟨by decide +kernel, ?_, by decide +kernel, by decide +kernel⟩
  exact fun h => absurd (h.isLegalWide 5 rfl) (by decide)

end BytecodeMutation
