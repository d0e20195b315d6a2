import BytecodeMutation.Engine
import BytecodeMutation.Proofs.Spanning
import BytecodeMutation.Proofs.Visit

namespace BytecodeMutation

namespace Engine

structure Prepared where
  data : Bytes
  owner : Class
  application : Application

def prepare (source : ClassSource) (id : Identifier) : Except EngineError Prepared := do
  let name := ClassName.internal id.location.className
  match ← read source name with
  | none => throw (.classNotFound name)
  | some data =>
      let c ← parse name data
      return ⟨data, c, ← applyTo name c id⟩

def Prepared.assemble (p : Prepared) : Except EngineError Mutant :=
  (Assembly.replaceCode p.owner.name p.data p.application.method p.application.stream).map
    (Mutant.mk p.application.details)

theorem mutant_eq_prepare (source : ClassSource) (id : Identifier) :
    mutant source id = prepare source id >>= Prepared.assemble := by
  simp only [mutant, prepare, bind_assoc]
  refine bind_congr fun found => ?_
  cases found with
  | none => rfl
  | some data =>
      simp only [bind_assoc, pure_bind]
      refine bind_congr fun c => bind_congr fun a => ?_
      simp only [Prepared.assemble]
      cases Assembly.replaceCode c.name data a.method a.stream <;> rfl

variable {source : ClassSource} {id : Identifier} {data : Bytes} {c : Class} {m : Method}
  {o : Operator}

theorem prepare_ok {p : Prepared}
    (hread : source (ClassName.internal id.location.className) = .ok (some data)) :
    prepare source id = .ok p ↔ p.data = data ∧ Class.parse data = .ok p.owner ∧
      applyTo (ClassName.internal id.location.className) p.owner id = .ok p.application := by
  simp only [prepare, read, hread, Except.mapError]
  rw [Result.bind_ok]
  simp only [Except.ok.injEq, exists_eq_left', parse, Result.bind_ok, Result.mapError_ok,
    Result.pure_ok]
  constructor
  · rintro ⟨c, hc, a, ha, rfl⟩
    exact ⟨rfl, hc, ha⟩
  · rintro ⟨rfl, hc, ha⟩
    exact ⟨_, hc, _, ha, rfl⟩

theorem mutant_ok {made : Mutant}
    (hread : source (ClassName.internal id.location.className) = .ok (some data))
    (hparse : Class.parse data = .ok c) : mutant source id = .ok made ↔
      ∃ a, applyTo (ClassName.internal id.location.className) c id = .ok a ∧
        Assembly.replaceCode c.name data a.method a.stream = .ok made.bytes ∧
        made.details = a.details := by
  rw [mutant_eq_prepare, Result.bind_ok]
  constructor
  · rintro ⟨⟨data', c', a⟩, hp, hmade⟩
    obtain ⟨rfl, hc, ha⟩ := (prepare_ok hread).1 hp
    obtain rfl := Except.ok.inj (hparse.symm.trans hc)
    obtain ⟨bytes, hbytes, rfl⟩ := Result.map_ok.1 hmade
    exact ⟨a, ha, hbytes, rfl⟩
  · rintro ⟨a, ha, hbytes, hdetails⟩
    refine ⟨⟨data, c, a⟩, (prepare_ok hread).2 ⟨rfl, hparse, ha⟩, ?_⟩
    exact Result.map_ok.2 ⟨made.bytes, hbytes, by rw [← hdetails]⟩

theorem applyTo_ok {name : String} {a : Application} : applyTo name c id = .ok a ↔
    c.methods.find? (isAt id.location) = some a.method ∧
      ∃ o st, Operator.ofId? id.operator = some o ∧
        Scan.visit c a.method (.ofMethod a.method) [o] (some id) = .ok (st, a.stream) ∧
        st.isApplied = true ∧ appliedDetails? id st.mutations.toList = some a.details := by
  constructor
  · intro h
    unfold applyTo at h
    split at h
    · cases h
    · rename_i m hm
      split at h
      · cases h
      · rename_i o ho
        split at h
        · cases h
        · rename_i st stream hv
          split at h
          · cases h
          · rename_i happlied
            split at h
            · rename_i details hdetails
              cases h
              exact ⟨hm, o, st, ho, hv, by simpa using happlied, hdetails⟩
            · cases h
  · rintro ⟨hm, o, st, ho, hv, happlied, hdetails⟩
    simp only [applyTo, hm, ho, hv, happlied, Bool.not_true, Bool.false_eq_true, if_false, hdetails]

/-- An identifier names a method, and an operator that proposes a replacement at each index. -/
structure Fits (c : Class) (id : Identifier) (m : Method) (o : Operator) : Prop where
  method : c.methods.find? (isAt id.location) = some m
  operator : Operator.ofId? id.operator = some o
  succeeds : ∀ s ∈ m.code, o.Succeeds (c.header m) s
  proposes : ∀ i ∈ id.indexes, ∃ s p,
    m.code[i]? = some s ∧ o.propose (c.header m) s = .ok (some p)

structure Replaces (h : MethodHeader) (o : Operator) (code : List Site) (indexes : List Nat)
    (stream : List StreamItem) : Prop where
  length : stream.length = code.length
  replaced : ∀ i ∈ indexes, ∃ s p, code[i]? = some s ∧ o.propose h s = .ok (some p) ∧
    stream[i]? = some (.replaced i (Scan.orNop p.replacement))
  kept : ∀ i < code.length, i ∉ indexes → stream[i]? = some (.kept i)

theorem location_of_isAt (hown : c.name = id.location.className)
    (hm : c.methods.find? (isAt id.location) = some m) : id.location = (c.header m).location := by
  have h := List.find?_some hm
  simp only [isAt, Bool.and_eq_true, beq_iff_eq] at h
  simp only [Class.header, MethodHeader.location, hown, h.1, h.2]

theorem id_of_ofId? {s : String} (h : Operator.ofId? s = some o) : s = o.id := by
  have := List.find?_some h
  simpa using (beq_iff_eq.1 this).symm

theorem isApplied_iff {st : ScanState} (ht : st.target = some id)
    (ha : ∀ i, i ∈ st.applied ↔ i ∈ id.indexes ∧
      ∃ s, m.code[i]? = some s ∧ (o.proposal? (c.header m) s).isSome) :
    st.isApplied = true ↔ ∀ i ∈ id.indexes, ∃ s p,
      m.code[i]? = some s ∧ o.proposal? (c.header m) s = some p := by
  simp only [ScanState.isApplied, ht, Option.any_some, List.all_eq_true, List.contains_iff_mem, ha,
    Option.isSome_iff_exists]
  refine forall₂_congr fun i hi => ?_
  simp only [hi, true_and]
  exact exists_congr fun s => exists_and_left.symm

theorem proposal?_eq_some {h : MethodHeader} {s : Site} {p : Proposal} :
    o.proposal? h s = some p ↔ o.propose h s = .ok (some p) :=
  ⟨Operator.propose_of_proposal?, Operator.proposal?_of_propose⟩

def appliedStream (c : Class) (m : Method) (o : Operator) (indexes : List Nat) : List StreamItem :=
  m.code.zipIdx.map fun (s, i) => Scan.itemAt c m o indexes s i

theorem replaces_appliedStream {indexes : List Nat}
    (hp : ∀ i ∈ indexes, ∃ s p,
      m.code[i]? = some s ∧ o.propose (c.header m) s = .ok (some p)) :
    Replaces (c.header m) o m.code indexes (appliedStream c m o indexes) where
  length := by simp [appliedStream]
  replaced := by
    intro i hi
    obtain ⟨s, p, hs, hsp⟩ := hp i hi
    refine ⟨s, p, hs, hsp, ?_⟩
    simp [appliedStream, List.getElem?_zipIdx, hs, Scan.itemAt, proposal?_eq_some.2 hsp, hi]
  kept := by
    intro i hlt hi
    obtain ⟨s, hs⟩ : ∃ s, m.code[i]? = some s := ⟨_, List.getElem?_eq_getElem hlt⟩
    simp only [appliedStream, List.getElem?_map, List.getElem?_zipIdx, hs, Option.map_some,
      Nat.zero_add, Scan.itemAt, hi, if_false]
    cases o.proposal? (c.header m) s <;> rfl

theorem appliedDetails?_found {s : Site} {p : Proposal} (hs : m.code[id.firstOrdinal]? = some s)
    (hp : o.proposal? (c.header m) s = some p) :
    appliedDetails? id (Scan.found c m (.ofMethod m) [o]) = some
      { Scan.detailsAt c m (.ofMethod m) o id.firstOrdinal p with
        id, inFinallyBlock := 1 < id.indexes.length } := by
  simp [appliedDetails?, Scan.find?_found hs hp]

theorem applyTo_of_fits (name : String) (hown : c.name = id.location.className)
    (hne : id.indexes ≠ []) (hf : Fits c id m o) :
    ∃ s p, m.code[id.firstOrdinal]? = some s ∧ o.propose (c.header m) s = .ok (some p) ∧
      applyTo name c id = .ok ⟨m, { Scan.detailsAt c m (.ofMethod m) o id.firstOrdinal p with
        id, inFinallyBlock := 1 < id.indexes.length }, appliedStream c m o id.indexes⟩ := by
  have hloc := location_of_isAt hown hf.method
  have hop := id_of_ofId? hf.operator
  obtain ⟨s, p, hs, hp⟩ := hf.proposes _ (Identifier.firstOrdinal_mem hne)
  obtain ⟨st, items, hv⟩ := @Scan.visit_total c m (.ofMethod m) (some id) [o] fun s hs =>
    List.forall_mem_singleton.2 (hf.succeeds s hs)
  obtain ⟨-, ht, hm, hi, ha⟩ := Scan.visit_target hloc hop hv
  have happlied : st.isApplied = true := by
    refine (isApplied_iff ht ha).2 fun i hi => ?_
    obtain ⟨s, p, hs, hp⟩ := hf.proposes i hi
    exact ⟨s, p, hs, proposal?_eq_some.2 hp⟩
  refine ⟨s, p, hs, hp, ?_⟩
  simp only [applyTo, hf.method, hf.operator, hv, happlied, Bool.not_true, Bool.false_eq_true,
    if_false, hm, appliedDetails?_found hs (proposal?_eq_some.2 hp), hi, appliedStream]

theorem fits_of_applyTo {name : String} {a : Application} (hown : c.name = id.location.className)
    (h : applyTo name c id = .ok a) : ∃ o, Fits c id a.method o := by
  obtain ⟨hm, o, st, ho, hv, happlied, -⟩ := applyTo_ok.1 h
  obtain ⟨hs, ht, -, -, ha⟩ := Scan.visit_target (location_of_isAt hown hm) (id_of_ofId? ho) hv
  refine ⟨o, hm, ho, hs, fun i hi => ?_⟩
  obtain ⟨s, p, hs, hp⟩ := (isApplied_iff ht ha).1 happlied i hi
  exact ⟨s, p, hs, proposal?_eq_some.1 hp⟩

def Misfits (c : Class) (id : Identifier) : Prop :=
  c.methods.find? (isAt id.location) = none ∨ Operator.ofId? id.operator = none ∨
    ∃ m o, c.methods.find? (isAt id.location) = some m ∧ Operator.ofId? id.operator = some o ∧
      (∀ s ∈ m.code, o.Succeeds (c.header m) s) ∧
      ¬ ∀ i ∈ id.indexes, ∃ s p, m.code[i]? = some s ∧ o.propose (c.header m) s = .ok (some p)

theorem applyTo_of_misfits (name : String) (hown : c.name = id.location.className)
    (h : Misfits c id) : ∃ r, applyTo name c id = .error (.notApplicable name r) := by
  rcases h with hm | ho | ⟨m, o, hm, ho, hs, hp⟩
  · exact ⟨.noMethod id.location, by simp only [applyTo, hm]⟩
  · cases hm : c.methods.find? (isAt id.location) with
    | none => exact ⟨.noMethod id.location, by simp only [applyTo, hm]⟩
    | some m => exact ⟨.unknownOperator id.operator, by simp only [applyTo, hm, ho]⟩
  · obtain ⟨st, items, hv⟩ := @Scan.visit_total c m (.ofMethod m) (some id) [o] fun s hmem =>
      List.forall_mem_singleton.2 (hs s hmem)
    obtain ⟨-, ht, -, -, ha⟩ := Scan.visit_target (location_of_isAt hown hm) (id_of_ofId? ho) hv
    have happlied : st.isApplied = false := by
      rw [Bool.eq_false_iff]
      intro h
      refine hp fun i hi => ?_
      obtain ⟨s, p, hs, hp⟩ := (isApplied_iff ht ha).1 h i hi
      exact ⟨s, p, hs, proposal?_eq_some.1 hp⟩
    exact ⟨.unmatched id, by simp only [applyTo, hm, ho, hv, happlied, Bool.not_false, if_true]⟩

/-- The engine comes to assemble a mutant exactly for the identifiers that fit the class. -/
theorem prepare_iff_fits (source : ClassSource) (id : Identifier) (data : Bytes)
    (hread : source (ClassName.internal id.location.className) = .ok (some data))
    (hindexes : id.indexes ≠ [])
    (hown : ∀ c, Class.parse data = .ok c → c.name = id.location.className) :
    mutant source id = prepare source id >>= Prepared.assemble ∧
    ((∃ p, prepare source id = .ok p) ↔ ∃ c m o, Class.parse data = .ok c ∧ Fits c id m o) ∧
    (∀ p, prepare source id = .ok p → p.data = data ∧ Class.parse data = .ok p.owner ∧
      ∃ o, Fits p.owner id p.application.method o ∧
        Replaces (p.owner.header p.application.method) o p.application.method.code id.indexes
          p.application.stream) ∧
    ∀ c, Class.parse data = .ok c → Misfits c id → ∃ r,
      mutant source id = .error (.notApplicable (ClassName.internal id.location.className) r) := by
  refine ⟨mutant_eq_prepare source id, ⟨?_, ?_⟩, ?_, ?_⟩
  · rintro ⟨p, hp⟩
    obtain ⟨-, hc, ha⟩ := (prepare_ok hread).1 hp
    obtain ⟨o, hf⟩ := fits_of_applyTo (hown _ hc) ha
    exact ⟨_, _, o, hc, hf⟩
  · rintro ⟨c, m, o, hc, hf⟩
    obtain ⟨s, p, -, -, ha⟩ := applyTo_of_fits (ClassName.internal id.location.className)
      (hown c hc) hindexes hf
    exact ⟨⟨data, c, _⟩, (prepare_ok hread).2 ⟨rfl, hc, ha⟩⟩
  · intro p hp
    obtain ⟨hd, hc, ha⟩ := (prepare_ok hread).1 hp
    obtain ⟨o, hf⟩ := fits_of_applyTo (hown _ hc) ha
    obtain ⟨s, q, -, -, ha'⟩ := applyTo_of_fits (ClassName.internal id.location.className)
      (hown _ hc) hindexes hf
    have hstream := congrArg Application.stream (Except.ok.inj (ha.symm.trans ha'))
    refine ⟨hd, hc, o, hf, ?_⟩
    rw [hstream]
    exact replaces_appliedStream hf.proposes
  · intro c hc hm
    obtain ⟨r, hr⟩ := applyTo_of_misfits (ClassName.internal id.location.className) (hown c hc) hm
    refine ⟨r, ?_⟩
    simp [mutant, read, parse, hread, hc, hr, Except.mapError, bind, Except.bind]

end Engine

namespace Specimen

def classFile : Bytes :=
  [0xca, 0xfe, 0xba, 0xbe, 0, 0, 0, 0x32, 0, 10,
    1, 0, 4, 0x43, 0x6f, 0x64, 0x65,
    1, 0, 15, 0x4c, 0x69, 0x6e, 0x65, 0x4e, 0x75, 0x6d, 0x62, 0x65, 0x72, 0x54, 0x61, 0x62, 0x6c,
    0x65,
    1, 0, 13, 0x53, 0x74, 0x61, 0x63, 0x6b, 0x4d, 0x61, 0x70, 0x54, 0x61, 0x62, 0x6c, 0x65,
    1, 0, 1, 0x67, 1, 0, 5, 0x28, 0x49, 0x49, 0x29, 0x49, 1, 0, 1, 0x53, 7, 0, 6, 1, 0, 1, 0x4f,
    7, 0, 8,
    0, 0x21, 0, 7, 0, 9, 0, 0, 0, 0, 0, 1,
    0, 9, 0, 4, 0, 5, 0, 1, 0, 1, 0, 0, 0, 0x2b, 0, 2, 0, 2,
    0, 0, 0, 10, 0x1a, 0x99, 0, 7, 0x1a, 0x1b, 0x68, 0xac, 0x03, 0xac, 0, 0, 0, 2,
    0, 2, 0, 0, 0, 6, 0, 1, 0, 0, 0, 7,
    0, 3, 0, 0, 0, 3, 0, 1, 8,
    0, 0]

def method : Method :=
  { index := 0, name := "g", descriptor := "(II)I", access := 9, codeLength := 10
    code := [⟨0, .plain 0x1a, .other⟩, ⟨1, ⟨Opcode.ifeq, .branch 8⟩, .other⟩,
      ⟨4, .plain 0x1a, .other⟩, ⟨5, .plain 0x1b, .other⟩, ⟨6, .plain Opcode.imul, .other⟩,
      ⟨7, .plain Opcode.ireturn, .other⟩, ⟨8, .plain Opcode.iconst0, .other⟩,
      ⟨9, .plain Opcode.ireturn, .other⟩]
    handlers := [], lines := [⟨0, 7⟩] }

def owner : Class :=
  { name := "S", interfaces := [], access := 33, sourceFile := none, annotations := [],
    methods := [method] }

theorem parse_classFile : Class.parse classFile = .ok owner := by decide +kernel

def returns : Identifier := ⟨⟨"S", "g", "(II)I"⟩, [7, 5, 7], "jmutate.operators.RETURN_VALS"⟩

theorem propose_returns (offset : Nat) (symbol : Symbol) :
    Operator.returnVals.propose (owner.header method) ⟨offset, .plain Opcode.ireturn, symbol⟩
      = .ok (Return.change Opcode.ireturn) := by
  have h : (owner.header method).isVoid = false := by decide +kernel
  simp [Operator.propose, h, Site.opcode, Instruction.plain]

theorem fits_returns : Engine.Fits owner returns method .returnVals where
  method := by decide +kernel
  operator := by decide
  succeeds := fun s _ => ⟨_, rfl⟩
  proposes := by
    intro i hi
    simp only [returns, List.mem_cons, List.not_mem_nil, or_false] at hi
    rcases hi with rfl | rfl | rfl
    · exact ⟨_, _, rfl, propose_returns 9 .other⟩
    · exact ⟨_, _, rfl, propose_returns 7 .other⟩
    · exact ⟨_, _, rfl, propose_returns 9 .other⟩

end Specimen

theorem Engine.prepare_returns :
    Specimen.returns.indexes ≠ [] ∧ Class.parse Specimen.classFile = .ok Specimen.owner ∧
      ∃ p, Engine.prepare (fun _ => .ok (some Specimen.classFile)) Specimen.returns = .ok p := by
  have hindexes : Specimen.returns.indexes ≠ [] := by decide
  have hown : ∀ c, Class.parse Specimen.classFile = .ok c →
      c.name = Specimen.returns.location.className := by
    intro c hc
    rw [Specimen.parse_classFile] at hc
    cases hc
    rfl
  obtain ⟨-, hiff, -⟩ := Engine.prepare_iff_fits (fun _ => .ok (some Specimen.classFile))
    Specimen.returns Specimen.classFile rfl hindexes hown
  exact ⟨hindexes, Specimen.parse_classFile,
    hiff.2 ⟨_, _, _, Specimen.parse_classFile, Specimen.fits_returns⟩⟩

end BytecodeMutation
