import BytecodeMutation.Proofs.Lines
import BytecodeMutation.Proofs.Listing
import BytecodeMutation.Proofs.Replacements
import BytecodeMutation.Proofs.Standing

namespace BytecodeMutation

def Operand.request? : Operand → Option NewConstant
  | .newConstant r => some r
  | _ => none

def StreamItem.replacement : StreamItem → List Instruction
  | .kept _ => []
  | .replaced _ is => is

namespace Assembly

variable {t t' : PoolTail} {i j : Nat} {is : List Instruction} {acc pieces : List Piece}
  {stream : List StreamItem}

def AsksNothing (stream : List StreamItem) : Prop :=
  ∀ item ∈ stream, ∀ i ∈ item.replacement, i.operand.request? = none

instance (stream : List StreamItem) : Decidable (AsksNothing stream) :=
  inferInstanceAs (Decidable (∀ item ∈ stream, ∀ i ∈ item.replacement, i.operand.request? = none))

theorem replacementPieces_asksNothing {origin : Nat} {first : Bool}
    (hask : ∀ i ∈ is, i.operand.request? = none)
    (h : replacementPieces t origin acc first is = .ok (pieces, t')) : t' = t := by
  induction is generalizing acc first with
  | nil =>
      cases h
      rfl
  | cons i is ih =>
      obtain ⟨hi, his⟩ := List.forall_mem_cons.1 hask
      obtain ⟨⟨j, t₁⟩, hj, hrest⟩ := Result.bind_ok.1 h
      obtain rfl : t₁ = t := by
        unfold PoolTail.resolve at hj
        split at hj
        · rename_i r hr
          rw [hr] at hi
          cases hi
        · cases hj
          rfl
      exact ih his hrest

theorem piecesFrom_asksNothing {code : Array Site} (hask : AsksNothing stream)
    (h : piecesFrom code t acc stream = .ok (pieces, t')) : t' = t := by
  induction stream generalizing acc with
  | nil =>
      cases h
      rfl
  | cons item items ih =>
      obtain ⟨hitem, hitems⟩ := List.forall_mem_cons.1 hask
      cases item with
      | kept ordinal =>
          unfold piecesFrom at h
          split at h
          · exact ih hitems h
          · cases h
      | replaced ordinal is =>
          unfold piecesFrom at h
          split at h
          · obtain ⟨⟨acc', t₁⟩, hacc, hrest⟩ := Result.bind_ok.1 h
            obtain rfl := replacementPieces_asksNothing hitem hacc
            exact ih hitems hrest
          · cases h

theorem setCode_comm (l : ClassFile) (hne : i ≠ j) (x y : Bytes) :
    setCode (setCode l i x) j y = setCode (setCode l j y) i x :=
  congrArg (fun methods => { l with methods }) (List.modify_modify_ne _ _ l.methods hne)

theorem codeOf?_setCode_of_ne (l : ClassFile) (hne : i ≠ j) (x : Bytes) :
    (setCode l i x).codeOf? j = l.codeOf? j := by
  have hmethod : (setCode l i x).methods[j]? = l.methods[j]? := by
    simp [setCode, hne]
  exact congrArg (Option.bind · _) hmethod

variable {l : ClassFile} {m : Method} {b b' : CodeBody} {data out : Bytes} {q : Pool} {d : Class}

structure Edits (l : ClassFile) (m : Method) (stream : List StreamItem) (b b' : CodeBody) :
    Prop where
  body : ∃ a, l.codeOf? m.index = some a ∧ CodeBody.read a.body = .ok b
  length : b.code.length = m.codeLength
  code : codeFor l b m stream = .ok (b', ⟨l.pool.count, [], [], []⟩)

theorem exists_edits (hl : ClassFile.read data = .ok l) (hask : AsksNothing stream)
    (h : assemble data m stream = .ok out) :
    ∃ b b', Edits l m stream b b' ∧ out = (setCode l m.index b'.write).write := by
  obtain ⟨l₀, hl₀, h⟩ := Result.bind_ok.1 h
  obtain rfl : l = l₀ := Except.ok.inj (hl.symm.trans hl₀)
  split at h
  · cases h
  · rename_i a ha
    obtain ⟨b, hb, h⟩ := Result.bind_ok.1 h
    split at h
    · cases h
    · rename_i hlength
      obtain ⟨⟨b', tail⟩, hcode, h⟩ := Result.bind_ok.1 h
      cases h
      obtain ⟨pieces, p, hr⟩ := codeFor_ok hcode
      -- without a request the tail stays as empty as it was, and so the pool as it is
      obtain rfl := piecesFrom_asksNothing hask hr.emits
      refine ⟨b, b', ⟨⟨a, ha, hb⟩, not_not.1 hlength, hcode⟩, ?_⟩
      rw [extend_nil]
      rfl

namespace Edits

variable (h : Edits l m stream b b')

include h

theorem assemble_eq (hl : ClassFile.read data = .ok l) :
    assemble data m stream = .ok (setCode l m.index b'.write).write := by
  obtain ⟨a, ha, hb⟩ := h.body
  simp only [assemble, hl, ha, hb, h.code, bind, Except.bind]
  rw [if_neg (not_not.2 h.length), extend_nil]
  rfl

theorem setCode (hne : i ≠ m.index) (x : Bytes) : Edits (setCode l i x) m stream b b' where
  body := by
    rw [codeOf?_setCode_of_ne l hne]
    exact h.body
  length := h.length
  code := h.code

theorem valid_setCode (hvalid : l.Valid) (hshort : b'.write.length < 4294967296) :
    (Assembly.setCode l m.index b'.write).Valid := by
  obtain ⟨a, ha, -⟩ := h.body
  obtain ⟨before, after, r, as, bs, hat⟩ := codeAt_of_codeOf? ha
  exact (hat.valid_iff hvalid hvalid.pool b'.write).2 hshort

theorem length_le_write : b'.write.length ≤ (Assembly.setCode l m.index b'.write).write.length := by
  obtain ⟨a, ha, -⟩ := h.body
  obtain ⟨before, after, r, as, bs, hat⟩ := codeAt_of_codeOf? ha
  exact hat.length_le_write b'.write l.pool

theorem exists_parse (hvalid : l.Valid) (hq : q.Serves l) (hexact : l.IsExact q)
    (hparse : Class.parse l.write = .ok d) (hm : m ∈ d.methods)
    (hwide : ∀ s ∈ m.code, s.instruction.IsLegalWide) (hs : Rewrites m.code stream)
    (hask : AsksNothing stream) (hshort : b'.write.length < 4294967296) :
    ∃ ms ms' m', d.methods = ms ++ m :: ms' ∧ m'.name = m.name ∧ m'.descriptor = m.descriptor ∧
      Class.parse (Assembly.setCode l m.index b'.write).write
        = .ok { d with methods := ms ++ m' :: ms' } := by
  obtain ⟨a, ha, hb⟩ := h.body
  obtain ⟨before, after, r, as, bs, hat⟩ := codeAt_of_codeOf? ha
  obtain ⟨pieces, p, hr⟩ := codeFor_ok h.code
  have hreads := hat.reads hvalid hq hexact hparse hm rfl hb
  -- no emitted instruction asks for a member
  have hnone : ∀ e ∈ stream.flatMap (emitted m.code), ∀ r,
      e.instruction.operand ≠ .newConstant r := by
    intro e he r
    rcases mem_emitted he with ⟨s, hs, heq⟩ | ⟨ordinal, is, hitem, hi⟩
    · rw [heq]
      exact Method.IsRead.settled ⟨q, b.code, b.handlers, hreads⟩ s hs r
    · intro hoperand
      have hnone := hask _ hitem _ hi
      rw [hoperand] at hnone
      cases hnone
  have ht : Transfers l b m stream b' ⟨l.pool.count, [], [], []⟩ pieces p q q :=
    ⟨hr, hs, hreads, hwide, fun _ _ hget => hget,
      fun e he _ _ hmember => absurd hmember (hnone e he _)⟩
  have hserves : q.Serves ({ Assembly.setCode l m.index b'.write with pool := l.pool } :
      ClassFile) := hq.congr rfl
  obtain ⟨ms, ms', m', hms, -, hname, hdescriptor, -, hparse'⟩ := hat.exists_parse hvalid hq hexact
    hparse hm rfl hb ht hserves hvalid.pool hshort
  exact ⟨ms, ms', m', hms, hname, hdescriptor, hparse'⟩

end Edits

end Assembly

namespace ClassTable

variable {t : ClassTable} {name className : String} {data : Bytes}

theorem source_of_get? (h : t.get? name = some data)
    (hclass : ClassName.internal className = ClassName.internal name) :
    t.source (ClassName.internal className) = .ok (some data) := by
  rw [hclass, source, get?, ClassName.internal_internal]
  exact congrArg _ h

theorem get?_insert : (t.insert name data).get? name = some data := by
  simp [get?, insert]

end ClassTable

namespace Engine

variable {name : String} {source : ClassSource} {data : Bytes} {c : Class} {l : ClassFile}
  {q : Pool} {id other : Identifier} {a : Application} {b b' : CodeBody} {made : Mutant}
  {m : Method} {ms ms' : List Method}

def Prepared.AsksNothing (p : Prepared) : Prop := Assembly.AsksNothing p.application.stream

instance (p : Prepared) : Decidable p.AsksNothing :=
  inferInstanceAs (Decidable (Assembly.AsksNothing p.application.stream))

def Apart (id other : Identifier) : Prop :=
  (id.location.methodName, id.location.methodDescriptor)
    ≠ (other.location.methodName, other.location.methodDescriptor)

instance (id other : Identifier) : Decidable (Apart id other) :=
  inferInstanceAs (Decidable (_ ≠ _))

theorem isAt_iff {loc : Location} : isAt loc m = true ↔
    (m.name, m.descriptor) = (loc.methodName, loc.methodDescriptor) := by
  simp [isAt]

theorem find?_replaced {m' : Method} {loc : Location} (hname : m'.name = m.name)
    (hdescriptor : m'.descriptor = m.descriptor) (hm : isAt loc m = false) :
    (ms ++ m' :: ms').find? (isAt loc) = (ms ++ m :: ms').find? (isAt loc) := by
  have hm' : isAt loc m' = false := by rw [← hm, isAt, isAt, hname, hdescriptor]
  rw [List.find?_append, List.find?_append, List.find?_cons_of_neg (by simp [hm']),
    List.find?_cons_of_neg (by simp [hm])]

/-- An identifier whose mutant needs no new constant, with what is applied and the code before and
after. -/
structure Makes (c : Class) (l : ClassFile) (id : Identifier) (a : Application) (b b' : CodeBody) :
    Prop where
  applies : applyTo (ClassName.internal id.location.className) c id = .ok a
  asks : Assembly.AsksNothing a.stream
  edits : Assembly.Edits l a.method a.stream b b'
  short : b'.write.length < 4294967296

theorem exists_makes
    (hread : source (ClassName.internal id.location.className) = .ok (some data))
    (hparse : Class.parse data = .ok c) (hl : ClassFile.read data = .ok l)
    (hask : ∀ p, prepare source id = .ok p → p.AsksNothing)
    (hmade : mutant source id = .ok made) (hsize : made.bytes.length < 4294967296) :
    ∃ a b b', Makes c l id a b b' ∧
      made = ⟨a.details, (Assembly.setCode l a.method.index b'.write).write⟩ := by
  obtain ⟨details, bytes⟩ := made
  obtain ⟨a, ha, hout, rfl⟩ := (mutant_ok hread hparse).1 hmade
  have hasks : Assembly.AsksNothing a.stream :=
    hask ⟨data, c, a⟩ ((prepare_ok hread).2 ⟨rfl, hparse, ha⟩)
  obtain ⟨b, b', hedits, rfl⟩ := Assembly.exists_edits hl hasks (Assembly.replaceCode_ok hout)
  have hle := hedits.length_le_write
  exact ⟨a, b, b', ⟨ha, hasks, hedits, Nat.lt_of_le_of_lt hle hsize⟩, rfl⟩

theorem isAt_of_applyTo (h : applyTo name c id = .ok a) : isAt id.location a.method = true :=
  List.find?_some (applyTo_ok.1 h).1

theorem mem_of_applyTo (h : applyTo name c id = .ok a) : a.method ∈ c.methods :=
  List.mem_of_find?_eq_some (applyTo_ok.1 h).1

theorem applyTo_replaced {m' : Method} (hms : c.methods = ms ++ m :: ms') (hname : m'.name = m.name)
    (hdescriptor : m'.descriptor = m.descriptor) (hm : isAt id.location m = false)
    (h : applyTo name c id = .ok a) :
    applyTo name { c with methods := ms ++ m' :: ms' } id = .ok a := by
  obtain ⟨hfind, happlied⟩ := applyTo_ok.1 h
  refine applyTo_ok.2 ⟨?_, happlied⟩
  rw [find?_replaced hname hdescriptor hm, ← hms]
  exact hfind

theorem isAt_apart (hid : isAt id.location m = true) (hapart : Apart id other) :
    isAt other.location m = false := by
  rw [← Bool.not_eq_true, isAt_iff, isAt_iff.1 hid]
  exact hapart

theorem index_ne_of_apart {data : Bytes} {a' : Application} {name' : String}
    (hparse : Class.parse data = .ok c) (h : applyTo name c id = .ok a)
    (h' : applyTo name' c other = .ok a') (hapart : Apart id other) :
    a.method.index ≠ a'.method.index := by
  intro hindex
  obtain ⟨hname, hdescriptor⟩ :=
    Class.names_of_index hparse (mem_of_applyTo h) (mem_of_applyTo h') hindex
  have hid := isAt_iff.1 (isAt_of_applyTo h)
  have hother := isAt_iff.1 (isAt_of_applyTo h')
  rw [hname, hdescriptor, hother] at hid
  exact hapart hid.symm

theorem Makes.mutant_again {t : ClassTable} {a' : Application} {d d' : CodeBody}
    (h : Makes c l id a b b') (h' : Makes c l other a' d d') (hparse : Class.parse l.write = .ok c)
    (hvalid : l.Valid) (hq : q.Serves l) (hexact : l.IsExact q)
    (hwide : ∀ m ∈ c.methods, ∀ s ∈ m.code, s.instruction.IsLegalWide) (hapart : Apart id other)
    (hclass : ClassName.internal other.location.className = ClassName.internal c.name) :
    mutant (t.insert c.name (Assembly.setCode l a.method.index b'.write).write).source other
      = .ok ⟨a'.details, (Assembly.setCode (Assembly.setCode l a.method.index b'.write)
          a'.method.index d'.write).write⟩ := by
  have hmem := mem_of_applyTo h.applies
  obtain ⟨-, o, st, -, hvisit, -⟩ := applyTo_ok.1 h.applies
  have hs := Scan.rewrites_visit hvisit (Class.isRead_of_mem hparse hmem) (hwide _ hmem)
  obtain ⟨ms, ms', m', hms, hname, hdescriptor, hparse'⟩ :=
    h.edits.exists_parse hvalid hq hexact hparse hmem (hwide _ hmem) hs h.asks h.short
  have happly := applyTo_replaced hms hname hdescriptor
    (isAt_apart (isAt_of_applyTo h.applies) hapart) h'.applies
  have hfile := ClassFile.read_iff.2 ⟨h.edits.valid_setCode hvalid h.short, rfl⟩
  have hedits := h'.edits.setCode (index_ne_of_apart hparse h.applies h'.applies hapart) b'.write
  refine (mutant_ok (ClassTable.source_of_get? ClassTable.get?_insert hclass) hparse').2
    ⟨a', happly, ?_, rfl⟩
  rw [Assembly.replaceCode, hedits.assemble_eq hfile]

/-- Mutations of different methods that need no new constants can be made in either order, where the
structure of the class and the division by lengths agree on the strings of the pool and on the end
of every attribute. The length of a Code attribute takes four bytes, so the mutants must be under
four gigabytes. -/
theorem mutants_commute (t : ClassTable) (data : Bytes) (c : Class) (l : ClassFile) (q : Pool)
    (first second : Identifier) (made made' : Mutant) (hstored : t.get? c.name = some data)
    (hparse : Class.parse data = .ok c) (hl : ClassFile.read data = .ok l) (hq : q.Serves l)
    (hexact : l.IsExact q) (hwide : ∀ m ∈ c.methods, ∀ s ∈ m.code, s.instruction.IsLegalWide)
    (hclass : ClassName.internal first.location.className = ClassName.internal c.name)
    (hclass' : ClassName.internal second.location.className = ClassName.internal c.name)
    (hapart : Apart first second)
    (hask : ∀ p, prepare t.source first = .ok p → p.AsksNothing)
    (hask' : ∀ p, prepare t.source second = .ok p → p.AsksNothing)
    (hmade : mutant t.source first = .ok made) (hmade' : mutant t.source second = .ok made')
    (hsize : made.bytes.length < 4294967296) (hsize' : made'.bytes.length < 4294967296) :
    ∃ out, mutant (t.insert c.name made.bytes).source second = .ok ⟨made'.details, out⟩ ∧
      mutant (t.insert c.name made'.bytes).source first = .ok ⟨made.details, out⟩ := by
  have hread : t.source (ClassName.internal first.location.className) = .ok (some data) :=
    ClassTable.source_of_get? hstored hclass
  have hread' : t.source (ClassName.internal second.location.className) = .ok (some data) :=
    ClassTable.source_of_get? hstored hclass'
  obtain ⟨hvalid, rfl⟩ := ClassFile.read_iff.1 hl
  obtain ⟨a, b, b', h, rfl⟩ := exists_makes hread hparse hl hask hmade hsize
  obtain ⟨a', d, d', h', rfl⟩ := exists_makes hread' hparse hl hask' hmade' hsize'
  refine ⟨_, h.mutant_again h' hparse hvalid hq hexact hwide hapart hclass', ?_⟩
  rw [Assembly.setCode_comm l (index_ne_of_apart hparse h.applies h'.applies hapart)]
  exact h'.mutant_again h hparse hvalid hq hexact hwide (Ne.symm hapart) hclass

end Engine

namespace Specimen

def twinTable : ClassTable := ClassTable.insert {} "S" twinFile

def squaringReturn : Identifier := ⟨⟨"S", "f", "(I)I"⟩, [5], "jmutate.operators.RETURN_VALS"⟩

def returningReturn : Identifier := ⟨⟨"S", "g", "(I)I"⟩, [1], "jmutate.operators.RETURN_VALS"⟩

theorem wide_twins : ∀ m ∈ twins.methods, ∀ s ∈ m.code, s.instruction.IsLegalWide := by
  refine List.forall_mem_cons.2 ⟨wide_squaring, List.forall_mem_singleton.2 ?_⟩
  simp [returning, Instruction.IsLegalWide, Instruction.plain]

theorem prepare_twins (id : Identifier) (h : id = squaringReturn ∨ id = returningReturn) :
    ∃ p, Engine.prepare twinTable.source id = .ok p ∧ p.AsksNothing := by
  rcases h with rfl | rfl <;> decide +kernel

theorem mutant_twins (id : Identifier) (h : id = squaringReturn ∨ id = returningReturn) :
    ∃ made, Engine.mutant twinTable.source id = .ok made ∧ made.bytes.length < 400 := by
  rcases h with rfl | rfl <;> decide +kernel

end Specimen

theorem Engine.mutants_commute_twins : ∃ made made' out,
    mutant Specimen.twinTable.source Specimen.squaringReturn = .ok made ∧
      mutant Specimen.twinTable.source Specimen.returningReturn = .ok made' ∧
      mutant (Specimen.twinTable.insert "S" made.bytes).source Specimen.returningReturn
        = .ok ⟨made'.details, out⟩ ∧
      mutant (Specimen.twinTable.insert "S" made'.bytes).source Specimen.squaringReturn
        = .ok ⟨made.details, out⟩ := by
  obtain ⟨l, q, hl, hq, hexact⟩ := Specimen.exact_twinFile
  obtain ⟨made, hmade, hsize⟩ := Specimen.mutant_twins _ (.inl rfl)
  obtain ⟨made', hmade', hsize'⟩ := Specimen.mutant_twins _ (.inr rfl)
  have hask : ∀ {id : Identifier}, id = Specimen.squaringReturn ∨ id = Specimen.returningReturn →
      ∀ p, prepare Specimen.twinTable.source id = .ok p → p.AsksNothing := by
    intro id h p hp
    obtain ⟨p', hp', hask⟩ := Specimen.prepare_twins id h
    obtain rfl := Except.ok.inj (hp.symm.trans hp')
    exact hask
  obtain ⟨out, h, h'⟩ := mutants_commute Specimen.twinTable Specimen.twinFile Specimen.twins l q
    Specimen.squaringReturn Specimen.returningReturn made made' (by decide +kernel)
    Specimen.parse_twinFile hl hq.serves hexact Specimen.wide_twins rfl rfl
    (by decide) (hask (.inl rfl)) (hask (.inr rfl)) hmade hmade' (by omega) (by omega)
  exact ⟨made, made', out, hmade, hmade', h, h'⟩

namespace Specimen

def shadowsFile : Bytes :=
  [0xca, 0xfe, 0xba, 0xbe, 0, 0, 0, 0x32, 0, 0xb, 1, 0, 4, 0x43, 0x6f, 0x64, 0x65, 1, 0, 1,
    0x67, 1, 0, 3, 0x28, 0x29, 0x49, 1, 0, 1, 0x53, 7, 0, 4, 1, 0, 1, 0x4f, 7, 0, 6, 1, 0, 9,
    0x53, 0x79, 0x6e, 0x74, 0x68, 0x65, 0x74, 0x69, 0x63, 1, 0, 0xa, 0x45, 0x78, 0x63, 0x65,
    0x70, 0x74, 0x69, 0x6f, 0x6e, 0x73, 1, 0, 1, 0x68, 0, 0x21, 0, 5, 0, 7, 0, 0, 0, 0, 0, 2,
    0, 9, 0, 2, 0, 3, 0, 2, 0, 8, 0, 0, 0, 0x1c, 0, 1, 0, 0, 0, 0x2a, 0, 1, 0, 0, 0, 0, 0, 2,
    3, 0xac, 0, 0, 0, 1, 0, 9, 0, 0, 0, 0x16, 0, 0xa, 0, 1, 0, 0, 0, 0xe, 0, 1, 0, 0, 0, 0, 0,
    2, 4, 0xac, 0, 0, 0, 0,
    0, 9, 0, 0xa, 0, 3, 0, 1, 0, 1, 0, 0, 0, 0xe, 0, 1, 0, 0, 0, 0, 0, 2, 3, 0xac, 0, 0, 0, 0,
    0, 0]

def shadows : Class := { owner with methods := [hidden, { hidden with index := 1, name := "h" }] }

def shadowTable : ClassTable := ClassTable.insert {} "S" shadowsFile

def plainReturn : Identifier := ⟨⟨"S", "h", "()I"⟩, [1], "jmutate.operators.RETURN_VALS"⟩

theorem wide_shadows : ∀ m ∈ shadows.methods, ∀ s ∈ m.code, s.instruction.IsLegalWide := by
  simp [shadows, hidden, Instruction.IsLegalWide, Instruction.plain]

end Specimen

/-- The mutant of a method whose Code attribute is hidden takes no mutation of another method, but
the mutant of the other method takes that of the first one. -/
theorem Engine.mutants_disagree :
    Specimen.shadowTable.get? Specimen.shadows.name = some Specimen.shadowsFile ∧
      Class.parse Specimen.shadowsFile = .ok Specimen.shadows ∧
      (Specimen.shadows.methods.map fun m => (m.name, m.descriptor)).Nodup ∧
      (∀ m ∈ Specimen.shadows.methods, ∀ s ∈ m.code, s.instruction.IsLegalWide) ∧
      Apart Specimen.hiddenReturn Specimen.plainReturn ∧
      (∃ p, prepare Specimen.shadowTable.source Specimen.hiddenReturn = .ok p ∧ p.AsksNothing) ∧
      (∃ p, prepare Specimen.shadowTable.source Specimen.plainReturn = .ok p ∧ p.AsksNothing) ∧
      (∃ made, mutant Specimen.shadowTable.source Specimen.hiddenReturn = .ok made ∧
        mutant (Specimen.shadowTable.insert "S" made.bytes).source Specimen.plainReturn
          = .error (.invalidClass "S" (.during .parseClassFile (.unknownAttribute "h")))) ∧
      ∃ made, mutant Specimen.shadowTable.source Specimen.plainReturn = .ok made ∧
        ∃ made', mutant (Specimen.shadowTable.insert "S" made.bytes).source Specimen.hiddenReturn
          = .ok made' ∧ made'.bytes.length = 190 :=
  ⟨by decide +kernel, by decide +kernel, by decide, Specimen.wide_shadows, by decide,
    by decide +kernel, by decide +kernel, by decide +kernel, by decide +kernel⟩

end BytecodeMutation
