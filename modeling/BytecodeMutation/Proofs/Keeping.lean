import BytecodeMutation.Proofs.Application
import BytecodeMutation.Proofs.Parsing
import BytecodeMutation.Proofs.Standing

namespace BytecodeMutation

namespace Assembly

/-- The code that the structure of a class gives for a method is also that of the method's Code
attribute in the division by lengths, which is the one that is replaced. -/
structure Agrees (data : Bytes) (m : Method) (l : ClassFile) (b : CodeBody) : Prop where
  file : ClassFile.read data = .ok l
  body : ∃ a, l.codeOf? m.index = some a ∧ CodeBody.read a.body = .ok b
  entry : ∃ s, ClassStructure.read data = .ok s ∧ ∃ e, s.methods[m.index]? = some e ∧
    (e.code?.map fun x => (x.1, x.2.1)) = some (b.code, b.handlers)

variable {data : Bytes} {c : Class} {l : ClassFile} {m : Method} {b : CodeBody}

theorem agrees_iff : Agrees data m l b ↔ ClassFile.read data = .ok l ∧
    (∃ a, l.codeOf? m.index = some a ∧ CodeBody.read a.body = .ok b) ∧
      ∃ s, ClassStructure.read data = .ok s ∧ ∃ e, s.methods[m.index]? = some e ∧
        (e.code?.map fun x => (x.1, x.2.1)) = some (b.code, b.handlers) :=
  ⟨fun h => ⟨h.file, h.body, h.entry⟩, fun ⟨h₁, h₂, h₃⟩ => ⟨h₁, h₂, h₃⟩⟩

instance : Decidable (Agrees data m l b) := decidable_of_iff _ agrees_iff.symm

theorem Agrees.exists_reads (h : Agrees data m l b) (hparse : Class.parse data = .ok c)
    (hm : m ∈ c.methods) : ∃ q, m.Reads q b.code b.handlers := by
  obtain ⟨s, hs, e, he, hcode⟩ := h.entry
  obtain ⟨s', l', hs', -, hreads⟩ := Class.parse_iff.1 hparse
  obtain rfl : s = s' := Except.ok.inj (hs.symm.trans hs')
  obtain ⟨e', access, he', hread⟩ := hreads.exists_entry hm
  obtain rfl : e = e' := Option.some.inj (he.symm.trans he')
  obtain ⟨-, code, handlers, ys, hcode', hmethod, -⟩ := Method.ofEntry_some.1 hread
  rw [hcode'] at hcode
  cases hcode
  exact ⟨s.pool, hmethod⟩

theorem steady_of_canonical {q : Pool} (hreads : m.Reads q b.code b.handlers)
    (hlength : b.code.length ≤ 65535) (hcanonical : Instruction.IsCanonical b.code)
    (hkeys : ∀ s ∈ m.code, s.instruction.KeysInRange)
    (htables : ∀ a ∈ b.attributes, a.IsAligned l m.IsBoundary) : Steady l q b m := by
  obtain ⟨hencodes, hplaced⟩ := hcanonical.encodes (Method.sites_iff.1 hreads.sites).1
    (List.forall_mem_map.2 hkeys)
  rw [List.map_map] at hencodes hplaced
  exact ⟨hreads, hlength, hencodes, hplaced, htables⟩

/-- Keeping all instructions of a canonical method whose tables name boundaries of its instructions
gives the class file back, where the code that is parsed is the code that is replaced and no sum
that leads to the highest key of a switch leaves its range. -/
theorem replaceCode_identity (name : String) (data : Bytes) (c : Class) (m : Method) (l : ClassFile)
    (b : CodeBody) (hparse : Class.parse data = .ok c) (hm : m ∈ c.methods)
    (hagrees : Agrees data m l b) (hlength : b.code.length ≤ 65535)
    (hcanonical : Instruction.IsCanonical b.code)
    (hkeys : ∀ s ∈ m.code, s.instruction.KeysInRange)
    (htables : ∀ a ∈ b.attributes, a.IsAligned l m.IsBoundary) :
    replaceCode name data m (keeping m.code.length) = .ok data := by
  obtain ⟨q, hreads⟩ := hagrees.exists_reads hparse hm
  obtain ⟨a, ha, hb⟩ := hagrees.body
  have hsteady := steady_of_canonical hreads hlength hcanonical hkeys htables
  exact hsteady.replaceCode_keeping hagrees.file ha hb name

end Assembly

namespace Specimen

def switchboardFile : Bytes :=
  [0xca, 0xfe, 0xba, 0xbe, 0, 0, 0, 0x32, 0, 18,
    1, 0, 4, 0x43, 0x6f, 0x64, 0x65,
    1, 0, 15, 0x4c, 0x69, 0x6e, 0x65, 0x4e, 0x75, 0x6d, 0x62, 0x65, 0x72, 0x54, 0x61, 0x62, 0x6c,
    0x65,
    1, 0, 13, 0x53, 0x74, 0x61, 0x63, 0x6b, 0x4d, 0x61, 0x70, 0x54, 0x61, 0x62, 0x6c, 0x65,
    1, 0, 1, 0x67, 1, 0, 7, 0x28, 0x4c, 0x49, 0x3b, 0x49, 0x29, 0x56, 1, 0, 1, 0x53, 7, 0, 6,
    1, 0, 1, 0x4f, 7, 0, 8, 1, 0, 1, 0x49, 7, 0, 10, 1, 0, 1, 0x6d, 1, 0, 3, 0x28, 0x29, 0x56,
    12, 0, 12, 0, 13, 11, 0, 11, 0, 14, 18, 0, 0, 0, 14,
    1, 0, 18, 0x4c, 0x6f, 0x63, 0x61, 0x6c, 0x56, 0x61, 0x72, 0x69, 0x61, 0x62, 0x6c, 0x65, 0x54,
    0x61, 0x62, 0x6c, 0x65,
    0, 0x21, 0, 7, 0, 9, 0, 0, 0, 0, 0, 1,
    0, 9, 0, 4, 0, 5, 0, 1, 0, 1, 0, 0, 0, 0x75, 0, 2, 1, 45,
    0, 0, 0, 64, 0xc4, 0x15, 1, 44, 0xc4, 0x84, 0, 1, 0, 200,
    0xaa, 0, 0, 0, 0, 53, 0, 0, 0, 0, 0, 0, 0, 1, 0, 0, 0, 22, 0, 0, 0, 42,
    0x1b, 0xab, 0, 0, 0, 0, 0, 19, 0, 0, 0, 1, 0, 0, 0, 5, 0, 0, 0, 30,
    0x2a, 0xb9, 0, 15, 1, 0, 0xba, 0, 16, 0, 0, 0xb1, 0, 0, 0, 3,
    0, 2, 0, 0, 0, 6, 0, 1, 0, 32, 0, 7,
    0, 17, 0, 0, 0, 12, 0, 1, 0, 0, 0, 64, 0, 12, 0, 10, 0, 1,
    0, 3, 0, 0, 0, 5, 0, 3, 32, 19, 10,
    0, 0]

def switchboard : Method :=
  { index := 0, name := "g", descriptor := "(LI;I)V", access := 9, codeLength := 64
    code := [⟨0, ⟨Opcode.iload, .variable 300⟩, .other⟩, ⟨4, ⟨Opcode.iinc, .increment 1 200⟩, .other⟩,
      ⟨10, ⟨Opcode.tableswitch, .tableSwitch 63 0 [32, 52]⟩, .other⟩, ⟨32, .plain 0x1b, .other⟩,
      ⟨33, ⟨Opcode.lookupswitch, .lookupSwitch 52 [(5, 63)]⟩, .other⟩, ⟨52, .plain 0x2a, .other⟩,
      ⟨53, ⟨Opcode.invokeinterface, .invokeInterface 15 1⟩, .call .interface ⟨"I", "m", "()V"⟩⟩,
      ⟨58, ⟨Opcode.invokedynamic, .invokeDynamic 16⟩, .other⟩,
      ⟨63, .plain Opcode.returnVoid, .other⟩]
    handlers := [], lines := [⟨32, 7⟩] }

def switchboards : Class := { owner with methods := [switchboard] }

theorem parse_switchboardFile : Class.parse switchboardFile = .ok switchboards := by
  decide +kernel

def switchboardBody : CodeBody :=
  { maxStack := 2, maxLocals := 301
    code := [0xc4, 0x15, 1, 44, 0xc4, 0x84, 0, 1, 0, 200,
      0xaa, 0, 0, 0, 0, 53, 0, 0, 0, 0, 0, 0, 0, 1, 0, 0, 0, 22, 0, 0, 0, 42,
      0x1b, 0xab, 0, 0, 0, 0, 0, 19, 0, 0, 0, 1, 0, 0, 0, 5, 0, 0, 0, 30,
      0x2a, 0xb9, 0, 15, 1, 0, 0xba, 0, 16, 0, 0, 0xb1]
    handlers := []
    attributes := [⟨2, [0, 1, 0, 32, 0, 7]⟩,
      ⟨17, [0, 1, 0, 0, 0, 64, 0, 12, 0, 10, 0, 1]⟩, ⟨3, [0, 3, 32, 19, 10]⟩] }

theorem agrees_switchboard : ∃ l, ClassFile.read switchboardFile = .ok l ∧
    Assembly.Agrees switchboardFile switchboard l switchboardBody ∧
      l.utf8? 2 = some "LineNumberTable" ∧ l.utf8? 17 = some "LocalVariableTable" ∧
        l.utf8? 3 = some "StackMapTable" := by decide +kernel

theorem canonical_switchboard : Instruction.IsCanonical switchboardBody.code :=
  .of_decode (switchboard.code.map fun s => (s.offset, s.instruction)) (by decide +kernel)
    (by decide +kernel)

theorem keysInRange_switchboard : ∀ s ∈ switchboard.code, s.instruction.KeysInRange := by
  decide

theorem aligned_switchboard {l : ClassFile} (hlines : l.utf8? 2 = some "LineNumberTable")
    (hranges : l.utf8? 17 = some "LocalVariableTable")
    (hframes : l.utf8? 3 = some "StackMapTable") :
    ∀ a ∈ switchboardBody.attributes, a.IsAligned l switchboard.IsBoundary := by
  refine List.forall_mem_cons.2 ⟨?_, List.forall_mem_cons.2 ⟨?_, List.forall_mem_singleton.2 ?_⟩⟩
  · refine ⟨fun _ => ⟨[⟨32, 7⟩], by decide, by decide,
      by decide⟩, ?_, ?_⟩
    · simp [ClassFile.named, hlines]
    · simp [ClassFile.named, hlines]
  · refine ⟨?_, fun _ => ⟨[⟨0, 64, 12, 10, 1⟩], by decide, by decide, ?_⟩, ?_⟩
    · simp [ClassFile.named, hranges]
    · decide
    · simp [ClassFile.named, hranges]
  · refine ⟨?_, ?_, fun _ => ⟨[⟨32, .same true⟩, ⟨52, .same true⟩, ⟨63, .same true⟩], by decide, ?_⟩⟩
    · simp [ClassFile.named, hframes]
    · simp [ClassFile.named, hframes]
    · decide

end Specimen

theorem Assembly.replaceCode_identity_method :
    replaceCode "S" Specimen.switchboardFile Specimen.switchboard (keeping 9)
      = .ok Specimen.switchboardFile := by
  obtain ⟨l, -, hagrees, hlines, hranges, hframes⟩ := Specimen.agrees_switchboard
  exact replaceCode_identity "S" Specimen.switchboardFile Specimen.switchboards Specimen.switchboard
    l Specimen.switchboardBody Specimen.parse_switchboardFile List.mem_cons_self hagrees (by decide)
    Specimen.canonical_switchboard Specimen.keysInRange_switchboard
    (Specimen.aligned_switchboard hlines hranges hframes)

namespace Specimen

/-- A class whose method has two attributes. The body of the first starts with a Code attribute in
full, which hides the second, a Code attribute with other code, from whoever goes by structure. -/
def shadowFile : Bytes :=
  [0xca, 0xfe, 0xba, 0xbe, 0, 0, 0, 0x32, 0, 0xa, 1, 0, 4, 0x43, 0x6f, 0x64, 0x65, 1, 0, 1,
    0x67, 1, 0, 3, 0x28, 0x29, 0x49, 1, 0, 1, 0x53, 7, 0, 4, 1, 0, 1, 0x4f, 7, 0, 6, 1, 0, 9,
    0x53, 0x79, 0x6e, 0x74, 0x68, 0x65, 0x74, 0x69, 0x63, 1, 0, 0xa, 0x45, 0x78, 0x63, 0x65,
    0x70, 0x74, 0x69, 0x6f, 0x6e, 0x73, 0, 0x21, 0, 5, 0, 7, 0, 0, 0, 0, 0, 1, 0, 9, 0, 2, 0,
    3, 0, 2, 0, 8, 0, 0, 0, 0x1c, 0, 1, 0, 0, 0, 0x2a, 0, 1, 0, 0, 0, 0, 0, 2, 3, 0xac, 0, 0,
    0, 1, 0, 9, 0, 0, 0, 0x16, 0, 0xa, 0, 1, 0, 0, 0, 0xe, 0, 1, 0, 0, 0, 0, 0, 2, 4, 0xac, 0,
    0, 0, 0, 0, 0]

theorem parse_shadowFile :
    Class.parse shadowFile = .ok { owner with methods := [hidden] } := by decide +kernel

end Specimen

/-- Keeping all instructions of a method whose Code attribute is hidden puts the code that is parsed
in place of the code that is there. -/
theorem Assembly.replaceCode_shadowed :
    Class.parse Specimen.shadowFile = .ok { Specimen.owner with methods := [Specimen.hidden] } ∧
      (∃ s, ClassStructure.read Specimen.shadowFile = .ok s ∧ ∃ e, s.methods[0]? = some e ∧
        (e.code?.map fun x => (x.1, x.2.1)) = some ([0x03, 0xac], [])) ∧
      (∃ l, ClassFile.read Specimen.shadowFile = .ok l ∧ ∃ a, l.codeOf? 0 = some a ∧
        CodeBody.read a.body = .ok ⟨1, 0, [0x04, 0xac], [], []⟩) ∧
      Instruction.IsCanonical [0x03, 0xac] ∧ Instruction.IsCanonical [0x04, 0xac] ∧
      ∃ out, replaceCode "S" Specimen.shadowFile Specimen.hidden (keeping 2) = .ok out ∧
        out ≠ Specimen.shadowFile := by
  have hread : Instruction.IsCanonical [0x03, 0xac] :=
    .of_decode [(0, .plain Opcode.iconst0), (1, .plain Opcode.ireturn)] (by decide +kernel)
      (by decide +kernel)
  have hthere : Instruction.IsCanonical [0x04, 0xac] :=
    .of_decode [(0, .plain 0x04), (1, .plain Opcode.ireturn)] (by decide +kernel)
      (by decide +kernel)
  exact ⟨Specimen.parse_shadowFile, by decide +kernel, by decide +kernel, hread, hthere,
    by decide +kernel⟩

end BytecodeMutation
