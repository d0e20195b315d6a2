import BytecodeMutation.Proofs.Copies
import BytecodeMutation.Proofs.Filtering

namespace BytecodeMutation

namespace Filter

def FollowsMerge (kinds : List FilterKind) (k : FilterKind) : Prop :=
  [.inlinedFinally, k].Sublist kinds

instance (kinds : List FilterKind) (k : FilterKind) : Decidable (FollowsMerge kinds k) :=
  inferInstanceAs (Decidable (List.Sublist _ _))

variable {f : FilterRules} {c : Class} {m : Method} {b : Blocks} {os : List Operator}
  {kinds before after : List FilterKind} {k : FilterKind} {d e : Details} {ds : List Details}

theorem merge_cases (h : kinds.Nodup) : .inlinedFinally ∉ kinds ∨ ∃ before after,
    kinds = before ++ .inlinedFinally :: after ∧ .inlinedFinally ∉ before ∧
      .inlinedFinally ∉ after := by
  by_cases hm : .inlinedFinally ∈ kinds
  · obtain ⟨before, after, rfl⟩ := List.append_of_mem hm
    obtain ⟨hnot, -⟩ := List.nodup_cons.1 (List.nodup_middle.1 h)
    rw [List.mem_append, not_or] at hnot
    exact .inr ⟨before, after, rfl, hnot⟩
  · exact .inl hm

theorem followsMerge_of_mem (hk : k ∈ after) :
    FollowsMerge (before ++ .inlinedFinally :: after) k :=
  (List.Sublist.cons_cons _ (List.singleton_sublist.2 hk)).trans (List.sublist_append_right _ _)

theorem mem_before (hk : k ∈ before ++ .inlinedFinally :: after)
    (hfollows : ¬ FollowsMerge (before ++ .inlinedFinally :: after) k) :
    k ∈ before ∨ k = .inlinedFinally := by
  rcases List.mem_append.1 hk with hk | hk
  · exact .inl hk
  · rcases List.mem_cons.1 hk with hk | hk
    · exact .inr hk
    · exact absurd (followsMerge_of_mem hk) hfollows

theorem all_keeps_iff : (kinds.all fun k => keeps f c m k d) = true ↔ ∀ k ∈ kinds,
    dropsMethod f c m k = false ∧ suppresses c m k d.firstOrdinal = false := by
  simp only [List.all_eq_true, keeps_iff]

theorem indexes_of_mem_found (hd : d ∈ Scan.found c m b os) : d.id.indexes = [d.firstOrdinal] := by
  obtain ⟨i, s, o, p, -, -, -, rfl⟩ := Scan.mem_found.1 hd
  rfl

theorem avoids_of_filtered (hd : d ∈ (Scan.found c m b os).filter fun d =>
    kinds.all fun k => keeps f c m k d) {i : Nat} (hi : i ∈ d.id.indexes) (hk : k ∈ kinds) :
    suppresses c m k i = false := by
  rw [List.mem_filter, all_keeps_iff] at hd
  obtain ⟨hfound, hkeeps⟩ := hd
  rw [indexes_of_mem_found hfound, List.mem_singleton] at hi
  rw [hi]
  exact (hkeeps k hk).2

/-- What is kept avoids the code that filters suppress; of the filters after a merge of copies this
holds for the first instruction only. -/
theorem avoids_of_mem_applyAll (hkinds : kinds.Nodup)
    (he : e ∈ applyAll f c m b kinds (Scan.found c m b os)) :
    (∀ k ∈ kinds, suppresses c m k e.firstOrdinal = false) ∧
      ∀ k ∈ kinds, ¬ FollowsMerge kinds k → ∀ i ∈ e.id.indexes, suppresses c m k i = false := by
  rcases merge_cases hkinds with hm | ⟨before, after, rfl, hb, ha⟩
  · rw [applyAll_eq_filter hm] at he
    exact ⟨fun k hk => ((all_keeps_iff.1 (List.mem_filter.1 he).2) k hk).2,
      fun k hk _ i hi => avoids_of_filtered he hi hk⟩
  · rw [applyAll_merge hb ha, List.mem_filter, all_keeps_iff] at he
    obtain ⟨he, hafter⟩ := he
    -- a merge keeps its first instruction, so the filters after it see the one that those before
    -- it have seen; its other instructions they do not look at
    refine ⟨fun k hk => ?_, fun k hk hfollows i hi => ?_⟩
    · obtain ⟨d, hd, hfirst⟩ :=
        InlinedFinally.firstOrdinal_of_apply (Scan.listing_found.sublist List.filter_sublist) he
      rcases List.mem_append.1 hk with hk | hk
      · rw [hfirst]
        exact ((all_keeps_iff.1 (List.mem_filter.1 hd).2) k hk).2
      · rcases List.mem_cons.1 hk with rfl | hk
        · rfl
        · exact (hafter k hk).2
    · obtain ⟨d, hd, hi⟩ := InlinedFinally.index_of_apply he hi
      rcases mem_before hk hfollows with hk | rfl
      · exact avoids_of_filtered hd hi hk
      · rfl

theorem covered_applyAll (hkinds : kinds.Nodup) (hd : d ∈ Scan.found c m b os)
    (hkeeps : ∀ k ∈ kinds,
      dropsMethod f c m k = false ∧ suppresses c m k d.firstOrdinal = false)
    (hcopies : ∀ k, FollowsMerge kinds k → ∀ x ∈ Scan.found c m b os,
      InlinedFinally.areCopies d x = true → suppresses c m k x.firstOrdinal = false) :
    ∃ e ∈ applyAll f c m b kinds (Scan.found c m b os), e.mutator = d.mutator ∧
      e.id.operator = d.id.operator ∧ d.firstOrdinal ∈ e.id.indexes := by
  have hfirst : d.firstOrdinal ∈ d.id.indexes := by
    rw [indexes_of_mem_found hd]
    exact List.mem_cons_self
  rcases merge_cases hkinds with hm | ⟨before, after, rfl, hb, ha⟩
  · refine ⟨d, ?_, rfl, rfl, hfirst⟩
    rw [applyAll_eq_filter hm]
    exact List.mem_filter.2 ⟨hd, all_keeps_iff.2 hkeeps⟩
  · have hreached : d ∈ (Scan.found c m b os).filter fun d => before.all fun k => keeps f c m k d :=
      List.mem_filter.2
        ⟨hd, all_keeps_iff.2 fun k hk => hkeeps k (List.mem_append_left _ hk)⟩
    obtain ⟨e, he, hmutator, hoperator, hindexes, x, hx, hcopy, hxfirst⟩ :=
      InlinedFinally.covered_apply (Scan.listing_found.sublist List.filter_sublist) hreached
    refine ⟨e, ?_, hmutator, hoperator, hindexes _ hfirst⟩
    rw [applyAll_merge hb ha]
    refine List.mem_filter.2 ⟨he, all_keeps_iff.2 fun k hk => ?_⟩
    have hk' : k ∈ before ++ .inlinedFinally :: after :=
      List.mem_append_right _ (List.mem_cons_of_mem _ hk)
    refine ⟨(hkeeps k hk').1, ?_⟩
    rw [hxfirst]
    -- the filters after the merge look at the copy that the mutation was merged into
    rcases hcopy with rfl | hcopy
    · exact (hkeeps k hk').2
    · exact hcopies k (followsMerge_of_mem hk) x (List.mem_filter.1 hx).1 hcopy

/-- With filters in any order, what is kept of a scan starts outside of all suppressed code and
lies outside of what the filters before a merge of copies suppress; and an instruction outside of
suppressed code stays covered, unless it has a copy in code that a filter after the merge
suppresses, or the whole method is dropped. -/
theorem keeps_outside_generated (cfg : Config) (s : Settings) (c : Class) (m : Method)
    (ds : List Details) (hresolve : cfg.resolve = .ok s)
    (hscan : Engine.scan s.operators c m = .ok ds) :
    (∀ e ∈ applyAll s.filterRules c m (.ofMethod m) s.filters ds,
      (∀ k ∈ s.filters, suppresses c m k e.firstOrdinal = false) ∧
      ∀ k ∈ s.filters, ¬ FollowsMerge s.filters k →
        ∀ i ∈ e.id.indexes, suppresses c m k i = false) ∧
    ∀ d ∈ ds, d.id.indexes = [d.firstOrdinal] ∧
      ((∀ k ∈ s.filters, suppresses c m k d.firstOrdinal = false) →
        (∀ k ∈ s.filters, dropsMethod s.filterRules c m k = false) →
        (∀ k, FollowsMerge s.filters k → ∀ x ∈ ds,
          InlinedFinally.areCopies d x = true → suppresses c m k x.firstOrdinal = false) →
        ∃ e ∈ applyAll s.filterRules c m (.ofMethod m) s.filters ds,
          e.mutator = d.mutator ∧ e.id.operator = d.id.operator ∧
            d.firstOrdinal ∈ e.id.indexes) := by
  have hfilters := Config.nodup_filters hresolve
  obtain ⟨-, rfl⟩ := Engine.scan_ok.1 hscan
  refine ⟨fun e he => avoids_of_mem_applyAll hfilters he, fun d hd => ?_⟩
  refine ⟨indexes_of_mem_found hd, fun hsuppressed hdrops hcopies => ?_⟩
  exact covered_applyAll hfilters hd (fun k hk => ⟨hdrops k hk, hsuppressed k hk⟩) hcopies

end Filter

namespace Specimen

def guardFile : Bytes :=
  [0xca, 0xfe, 0xba, 0xbe, 0, 0, 0, 0x32, 0, 0xd, 1, 0, 4, 0x43, 0x6f, 0x64, 0x65, 1, 0, 0xf,
    0x4c, 0x69, 0x6e, 0x65, 0x4e, 0x75, 0x6d, 0x62, 0x65, 0x72, 0x54, 0x61, 0x62, 0x6c, 0x65, 1,
    0, 1, 0x67, 1, 0, 3, 0x28, 0x29, 0x56, 1, 0, 1, 0x53, 7, 0, 5, 1, 0, 1, 0x4f, 7, 0, 7, 1, 0,
    0x13, 0x24, 0x61, 0x73, 0x73, 0x65, 0x72, 0x74, 0x69, 0x6f, 0x6e, 0x73, 0x44, 0x69, 0x73,
    0x61, 0x62, 0x6c, 0x65, 0x64, 1, 0, 1, 0x5a, 0xc, 0, 9, 0, 0xa, 9, 0, 6, 0, 0xb, 0, 0x21, 0,
    6, 0, 8, 0, 0, 0, 0, 0, 1, 0, 9, 0, 3, 0, 4, 0, 1, 0, 1, 0, 0, 0, 0x2b, 0, 2, 0, 2, 0, 0, 0,
    0xb, 0x68, 0xb2, 0, 0xc, 0x9a, 0, 5, 0x68, 0x74, 0x74, 0xb1, 0, 1, 0, 0, 0, 0xb, 0, 0, 0, 0,
    0, 1, 0, 2, 0, 0, 0, 6, 0, 1, 0, 0, 0, 7, 0, 0]

def guardMethod : Method :=
  { index := 0, name := "g", descriptor := "()V", access := 9, codeLength := 11
    code := [⟨0, .plain Opcode.imul, .other⟩,
      ⟨1, ⟨Opcode.getstatic, .constant 12⟩, .field ⟨"S", "$assertionsDisabled", "Z"⟩⟩,
      ⟨4, ⟨Opcode.ifne, .branch 9⟩, .other⟩, ⟨7, .plain Opcode.imul, .other⟩,
      ⟨8, .plain Opcode.ineg, .other⟩, ⟨9, .plain Opcode.ineg, .other⟩,
      ⟨10, .plain Opcode.returnVoid, .other⟩]
    handlers := [⟨0, 11, 0, none⟩], lines := [⟨0, 7⟩] }

def guarded : Class := { owner with methods := [guardMethod] }

theorem parse_guardFile : Class.parse guardFile = .ok guarded := by decide +kernel

def guardConfig (filters : List String) : Config :=
  { mutators := ["MATH", "INVERT_NEGS"], excludedClassAnnotations := [], filters,
    groovyInterfaces := [], groovyClassPatterns := [], syntheticMethodAllowlist := [] }

def guardSettings (filters : List FilterKind) : Settings :=
  { operators := [.math, .invertNegs], excludedMethods := [], excludedClassAnnotations := [],
    filters, filterRules := ⟨[], [], []⟩ }

def guardDetails (ordinal block : Nat) (o : Operator) (description : String) : Details :=
  { id := .single ⟨"S", "g", "()V"⟩ ordinal o.id, description, line := some 7, block,
    mutator := o.name, filename := none }

def guardFound : List Details :=
  [guardDetails 0 0 .math "Replaced integer multiplication with division",
    guardDetails 3 1 .math "Replaced integer multiplication with division",
    guardDetails 4 1 .invertNegs "removed negation",
    guardDetails 5 2 .invertNegs "removed negation"]

theorem scan_guarded :
    Engine.scan [.math, .invertNegs] guarded guardMethod = .ok guardFound := by decide +kernel

def guardMerged : List Details :=
  [{ guardFound[0] with
      id := ⟨⟨"S", "g", "()V"⟩, [0, 3], Operator.math.id⟩, inFinallyBlock := true },
    { guardFound[2] with
      id := ⟨⟨"S", "g", "()V"⟩, [4, 5], Operator.invertNegs.id⟩, inFinallyBlock := true }]

open InlinedFinally in
theorem apply_guardFound :
    apply guardMethod (.ofMethod guardMethod) guardFound = guardMerged := by
  have hregions : regions guardMethod = [⟨0, 6⟩] := by decide +kernel
  have hblocks : Blocks.ofMethod guardMethod = ⟨#[0, 0, 0, 1, 1, 2, 2]⟩ := by decide +kernel
  have hcollapse : collapse [⟨0, 6⟩] ⟨#[0, 0, 0, 1, 1, 2, 2]⟩ guardFound
      = [merge guardFound[0] (copies guardFound guardFound[0]),
        merge guardFound[2] (copies guardFound guardFound[2])] := rfl
  have hfirst : (copies guardFound guardFound[0]).flatMap (·.id.indexes) = [0, 3] := rfl
  have hsecond : (copies guardFound guardFound[2]).flatMap (·.id.indexes) = [4, 5] := rfl
  simp only [apply, hregions, hblocks, hcollapse, merge, hfirst, hsecond]
  rw [Identifier.spanning_of_ascending _ (by decide),
    Identifier.spanning_of_ascending _ (by decide)]
  rfl

end Specimen

open Specimen in
theorem Filter.keeps_outside_assert :
    (∀ e ∈ applyAll ⟨[], [], []⟩ guarded guardMethod (.ofMethod guardMethod)
        [.assert, .inlinedFinally] guardFound, 3 ∉ e.id.indexes) ∧
      ∃ e ∈ applyAll ⟨[], [], []⟩ guarded guardMethod (.ofMethod guardMethod)
        [.assert, .inlinedFinally] guardFound, e.mutator = "INVERT_NEGS" ∧ 5 ∈ e.id.indexes := by
  obtain ⟨havoids, hcovers⟩ := keeps_outside_generated
    (guardConfig ["ASSERT", "INLINED_FINALLY"]) (guardSettings [.assert, .inlinedFinally]) guarded
    guardMethod guardFound rfl scan_guarded
  refine ⟨fun e he h => ?_, ?_⟩
  · have hassert := (havoids e he).2 .assert (by decide) (by decide) 3 h
    exact absurd hassert (by decide +kernel)
  · obtain ⟨e, he, hname, -, hi⟩ := (hcovers guardFound[3] (by decide)).2 (by decide +kernel)
      (by decide +kernel) fun k hk => absurd hk (by cases k <;> decide)
    exact ⟨e, he, hname, hi⟩

open Specimen in
/-- When the copies are merged first, a mutation of an assert is kept with a copy outside of it, and
another mutation is lost with its copy in the assert. -/
theorem Filter.keeps_assert :
    (guardConfig ["INLINED_FINALLY", "ASSERT"]).resolve
        = .ok (guardSettings [.inlinedFinally, .assert]) ∧
      Class.parse guardFile = .ok guarded ∧ guarded.methods = [guardMethod] ∧
      Engine.scan (guardSettings [.inlinedFinally, .assert]).operators guarded guardMethod
        = .ok guardFound ∧
      (∃ e ∈ applyAll ⟨[], [], []⟩ guarded guardMethod (.ofMethod guardMethod)
        [.inlinedFinally, .assert] guardFound,
          3 ∈ e.id.indexes ∧ suppresses guarded guardMethod .assert 3 = true) ∧
      ∃ d ∈ guardFound, d.id.indexes = [5] ∧
        (∀ k ∈ [FilterKind.inlinedFinally, .assert],
          suppresses guarded guardMethod k 5 = false ∧
            dropsMethod ⟨[], [], []⟩ guarded guardMethod k = false) ∧
        ∀ e ∈ applyAll ⟨[], [], []⟩ guarded guardMethod (.ofMethod guardMethod)
          [.inlinedFinally, .assert] guardFound, ¬ (e.mutator = d.mutator ∧ 5 ∈ e.id.indexes) := by
  have hkept : applyAll ⟨[], [], []⟩ guarded guardMethod (.ofMethod guardMethod)
      [.inlinedFinally, .assert] guardFound = dropRanges (Assertions.ranges guardMethod)
        (InlinedFinally.apply guardMethod (.ofMethod guardMethod) guardFound) := rfl
  refine ⟨rfl, parse_guardFile, rfl, scan_guarded, ?_⟩
  rw [hkept, apply_guardFound]
  decide +kernel

end BytecodeMutation
