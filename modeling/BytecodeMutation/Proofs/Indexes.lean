import BytecodeMutation.Proofs.Application

namespace BytecodeMutation

def ReplacesAt (stream : List StreamItem) (i : Nat) : Prop :=
  ∃ is, StreamItem.replaced i is ∈ stream

theorem replacesAt_cons {item : StreamItem} {stream : List StreamItem} {i : Nat} :
    ReplacesAt (item :: stream) i ↔ (∃ is, item = .replaced i is) ∨ ReplacesAt stream i := by
  simp only [ReplacesAt, List.mem_cons, exists_or, eq_comm]

theorem not_replacesAt_nil (i : Nat) : ¬ ReplacesAt [] i := nofun

namespace Scan

variable {c : Class} {m : Method} {b : Blocks} {h : MethodHeader} {os : List Operator} {s : Site}
  {st st' : ScanState} {item : StreamItem} {t : Identifier}

theorem mem_indexes_of_wants {operator : String} (ht : st.target = some t)
    (hw : st.wants (st.identifier operator) = true) : st.ordinal ∈ t.indexes := by
  simp only [ScanState.wants, ht, Option.any_some, Identifier.covers, Bool.and_eq_true,
    List.contains_iff_mem] at hw
  exact hw.1.2

theorem visitSite_applied (ht : st.target = some t)
    (hv : visitSite h s st os = .ok (st', item)) :
    st'.target = some t ∧ (item = .kept st.ordinal ∧ st'.applied = st.applied ∨
      ∃ is, item = .replaced st.ordinal is ∧ st'.applied = st.ordinal :: st.applied ∧
        st.ordinal ∈ t.indexes) := by
  induction os generalizing st with
  | nil =>
      cases hv
      exact ⟨ht, .inl ⟨rfl, rfl⟩⟩
  | cons o os ih =>
      unfold visitSite at hv
      split at hv
      · cases hv
      · exact ih ht hv
      · rename_i p hp
        simp only at hv
        split at hv
        · rename_i hwants
          cases hv
          have hregistered :
              (st.register (st.identifier o.id) p.description o.name).target = some t := ht
          have hmem := mem_indexes_of_wants hregistered hwants
          exact ⟨ht, .inr ⟨_, rfl, rfl, hmem⟩⟩
        · exact @ih (st.register (st.identifier o.id) p.description o.name) ht hv

theorem visitFrom_applied {sites : List Site} {k : Nat} {emitted out : Array StreamItem}
    (ht : st.target = some t) (hv : visitFrom h os st emitted k sites = .ok (st', out)) :
    ∃ items, out.toList = emitted.toList ++ items ∧ st'.target = some t ∧
      (∀ i, i ∈ st'.applied ↔ i ∈ st.applied ∨ ReplacesAt items i) ∧
      ∀ i, ReplacesAt items i → i ∈ t.indexes := by
  induction sites generalizing st emitted k with
  | nil =>
      cases hv
      exact ⟨[], by simp, ht, by simp [not_replacesAt_nil], by simp [not_replacesAt_nil]⟩
  | cons s rest ih =>
      simp only [visitFrom] at hv
      split at hv
      · rename_i st₁ item hs
        have hadvanced : (st.advance k s.offset).target = some t := ht
        obtain ⟨ht₁, hsite⟩ := visitSite_applied hadvanced hs
        obtain ⟨items, hout, ht', happlied, hindexes⟩ := ih ht₁ hv
        refine ⟨item :: items, by simp [hout], ht', fun i => ?_, fun i hi => ?_⟩
        · rw [happlied, replacesAt_cons]
          rcases hsite with ⟨rfl, heq⟩ | ⟨is, rfl, heq, -⟩
          · simp [heq, ScanState.advance]
          · simp only [heq, ScanState.advance, List.mem_cons, StreamItem.replaced.injEq,
              exists_and_left, exists_eq', and_true]
            tauto
        · rcases replacesAt_cons.1 hi with ⟨js, rfl⟩ | hi
          · rcases hsite with ⟨heq, -⟩ | ⟨is, heq, -, hmem⟩
            · cases heq
            · cases heq
              exact hmem
          · exact hindexes i hi
      · cases hv

theorem visit_applied {stream : List StreamItem} (hv : visit c m b os (some t) = .ok (st, stream)) :
    (st.isApplied = true ↔ ∀ i ∈ t.indexes, ReplacesAt stream i) ∧
      ∀ i, ReplacesAt stream i → i ∈ t.indexes := by
  obtain ⟨emitted, hf, rfl⟩ := visit_ok.1 hv
  obtain ⟨items, hout, ht, happlied, hindexes⟩ := visitFrom_applied (t := t) rfl hf
  rw [List.nil_append] at hout
  rw [hout]
  refine ⟨?_, hindexes⟩
  simp only [ScanState.isApplied, ht, Option.any_some, List.all_eq_true, List.contains_iff_mem,
    happlied, start, List.not_mem_nil, false_or]

end Scan

namespace Engine

variable {name : String} {c : Class} {m : Method} {o : Operator} {id : Identifier}

theorem exists_data {source : ClassSource} {p : Prepared} (h : prepare source id = .ok p) :
    ∃ data, source (ClassName.internal id.location.className) = .ok (some data) := by
  obtain ⟨found, hfound, h⟩ := Result.bind_ok.1 h
  cases found with
  | none => cases h
  | some data => exact ⟨data, Result.mapError_ok.1 hfound⟩

theorem replacesAt_of_applyTo {a : Application} (h : applyTo name c id = .ok a) (i : Nat) :
    ReplacesAt a.stream i ↔ i ∈ id.indexes := by
  obtain ⟨-, o, st, -, hv, hall, -⟩ := applyTo_ok.1 h
  obtain ⟨happlied, hindexes⟩ := Scan.visit_applied hv
  exact ⟨hindexes i, happlied.1 hall i⟩

theorem applyTo_of_unmatched {st : ScanState} {stream : List StreamItem}
    (hm : c.methods.find? (isAt id.location) = some m) (ho : Operator.ofId? id.operator = some o)
    (hv : Scan.visit c m (.ofMethod m) [o] (some id) = .ok (st, stream)) {i : Nat}
    (hi : i ∈ id.indexes) (hkept : ¬ ReplacesAt stream i) :
    applyTo name c id = .error (.notApplicable name (.unmatched id)) := by
  have happlied : st.isApplied = false := by
    rw [Bool.eq_false_iff]
    intro happlied
    exact hkept ((Scan.visit_applied hv).1.1 happlied i hi)
  simp only [applyTo, hm, ho, hv, happlied, Bool.not_false, if_true]

/-- What the engine assembles replaces the instructions at the indexes and no others, so it replaces
one at least exactly if there are indexes. An index at which nothing is replaced makes the
identifier inapplicable. -/
theorem prepare_replaces (source : ClassSource) (id : Identifier) :
    mutant source id = prepare source id >>= Prepared.assemble ∧
    (∀ p, prepare source id = .ok p →
      (∀ i, ReplacesAt p.application.stream i ↔ i ∈ id.indexes) ∧
      ((∃ i, ReplacesAt p.application.stream i) ↔ id.indexes ≠ [])) ∧
    ∀ data c m o st stream, source (ClassName.internal id.location.className) = .ok (some data) →
      Class.parse data = .ok c → c.methods.find? (isAt id.location) = some m →
      Operator.ofId? id.operator = some o →
      Scan.visit c m (.ofMethod m) [o] (some id) = .ok (st, stream) →
      (∃ i ∈ id.indexes, ¬ ReplacesAt stream i) → mutant source id =
        .error (.notApplicable (ClassName.internal id.location.className) (.unmatched id)) := by
  refine ⟨mutant_eq_prepare source id, ?_, ?_⟩
  · intro p hp
    obtain ⟨data, hread⟩ := exists_data hp
    obtain ⟨-, -, ha⟩ := (prepare_ok hread).1 hp
    have hat := replacesAt_of_applyTo ha
    refine ⟨hat, ?_⟩
    simp only [hat]
    exact ⟨fun ⟨i, hi⟩ => List.ne_nil_of_mem hi, List.exists_mem_of_ne_nil _⟩
  · rintro data c m o st stream hread hparse hm ho hv ⟨i, hi, hkept⟩
    have ha : applyTo (ClassName.internal id.location.className) c id = .error (.notApplicable
        (ClassName.internal id.location.className) (.unmatched id)) :=
      applyTo_of_unmatched hm ho hv hi hkept
    simp [mutant, read, parse, hread, hparse, ha, Except.mapError, bind, Except.bind]

end Engine

theorem Engine.prepare_replaces_returns : ∃ p,
    Engine.prepare (fun _ => .ok (some Specimen.classFile)) Specimen.returns = .ok p ∧
      ∃ i, ReplacesAt p.application.stream i := by
  have hprepared : ∃ p, Engine.prepare (fun _ => .ok (some Specimen.classFile)) Specimen.returns
      = .ok p ∧ p.application.method = Specimen.method := by decide +kernel
  have hindexes : Specimen.returns.indexes ≠ [] := by decide
  obtain ⟨p, hp, -⟩ := hprepared
  obtain ⟨-, hreplaces, -⟩ :=
    Engine.prepare_replaces (fun _ => .ok (some Specimen.classFile)) Specimen.returns
  exact ⟨p, hp, (hreplaces p hp).2.2 hindexes⟩

namespace Specimen

def zeroFile : Bytes :=
  [0xca, 0xfe, 0xba, 0xbe, 0, 0, 0, 0x32, 0, 8,
    1, 0, 4, 0x43, 0x6f, 0x64, 0x65, 1, 0, 1, 0x67, 1, 0, 3, 0x28, 0x29, 0x49,
    1, 0, 1, 0x53, 7, 0, 4, 1, 0, 1, 0x4f, 7, 0, 6,
    0, 0x21, 0, 5, 0, 7, 0, 0, 0, 0, 0, 1,
    0, 9, 0, 2, 0, 3, 0, 1, 0, 1, 0, 0, 0, 0x0e, 0, 1, 0, 0,
    0, 0, 0, 2, 0x03, 0xac, 0, 0, 0, 0,
    0, 0]

def unindexed : Identifier := ⟨⟨"S", "g", "()I"⟩, [], "jmutate.operators.INLINE_CONSTS"⟩

end Specimen

theorem Engine.mutant_unindexed :
    (∃ p, Engine.prepare (fun _ => .ok (some Specimen.zeroFile)) Specimen.unindexed = .ok p ∧
      p.application.stream = [.kept 0, .kept 1]) ∧
      ∃ mutation, Engine.mutant (fun _ => .ok (some Specimen.zeroFile)) Specimen.unindexed
        = .ok mutation ∧ mutation.bytes = Specimen.zeroFile :=
  ⟨by decide +kernel, by decide +kernel⟩

end BytecodeMutation
