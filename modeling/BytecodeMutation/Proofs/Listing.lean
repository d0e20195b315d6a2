import Mathlib.Data.List.Nodup
import BytecodeMutation.Proofs.Application
import BytecodeMutation.Proofs.Filtering

namespace BytecodeMutation

theorem Text.replaceChar_of_not_mem {a b : Char} {text : String} (h : a ∉ text.toList) :
    replaceChar a b text = text := by
  have hm : text.toList.map (fun c => if c == a then b else c) = text.toList := by
    conv => rhs; rw [← List.map_id text.toList]
    refine List.map_congr_left fun c hc => if_neg ?_
    simp only [beq_iff_eq]
    rintro rfl
    exact h hc
  rw [replaceChar, ← String.toList_inj, String.toList_map, hm]

namespace ClassName

theorem not_mem_internal (name : String) : '.' ∉ (internal name).toList := by
  simp only [internal, Text.replaceChar, String.toList_map, List.mem_map, not_exists, not_and]
  intro c _ h
  split at h
  · exact absurd h (by decide)
  · rename_i hc
    exact hc (beq_iff_eq.2 h)

theorem internal_of_not_mem {name : String} (h : '.' ∉ name.toList) : internal name = name := by
  have hs : name.endsWith ".class" = false := by
    rw [Bool.eq_false_iff, ne_eq, String.endsWith_eq_endsWith_toSlice,
      String.Slice.endsWith_string_iff, String.copy_toSlice]
    intro hs
    exact h (hs.subset (by simp))
  rw [internal, withoutSuffix, hs, if_neg Bool.false_ne_true, Text.replaceChar_of_not_mem h]

theorem internal_internal (name : String) : internal (internal name) = internal name :=
  internal_of_not_mem (not_mem_internal name)

end ClassName

namespace Operator

theorem ofId?_id (o : Operator) : ofId? o.id = some o := by
  have h : ∀ o ∈ all, ofId? o.id = some o := by decide
  exact h o (mem_all o)

theorem name_injective {a b : Operator} (h : a.name = b.name) : a = b := by
  have hall : ∀ a ∈ all, ∀ b ∈ all, a.name = b.name → a = b := by decide
  exact hall a (mem_all a) b (mem_all b) h

end Operator

/-- A mutation whose operator proposes a replacement at each of its instructions, described as at
the first. -/
structure Listed (c : Class) (m : Method) (b : Blocks) (o : Operator) (d : Details) : Prop where
  ascending : d.id.indexes.Pairwise (· < ·)
  nonempty : d.id.indexes ≠ []
  proposes : ∀ i ∈ d.id.indexes, ∃ s p,
    m.code[i]? = some s ∧ o.proposal? (c.header m) s = some p
  details : ∀ s p, m.code[d.firstOrdinal]? = some s → o.proposal? (c.header m) s = some p →
    d = { Scan.detailsAt c m b o d.firstOrdinal p with
      id := ⟨(c.header m).location, d.id.indexes, o.id⟩
      inFinallyBlock := 1 < d.id.indexes.length }

structure Listing (c : Class) (m : Method) (b : Blocks) (os : List Operator)
    (ds : List Details) : Prop where
  listed : ∀ d ∈ ds, ∃ o ∈ os, Listed c m b o d
  ordered : ds.Pairwise fun d e => d.firstOrdinal ≤ e.firstOrdinal

variable {c : Class} {m : Method} {b : Blocks} {os : List Operator} {ds : List Details}

theorem Listed.first {o : Operator} {d : Details} (h : Listed c m b o d) :
    ∃ s p, m.code[d.firstOrdinal]? = some s ∧ o.proposal? (c.header m) s = some p ∧
      d = { Scan.detailsAt c m b o d.firstOrdinal p with
        id := ⟨(c.header m).location, d.id.indexes, o.id⟩
        inFinallyBlock := 1 < d.id.indexes.length } := by
  obtain ⟨s, p, hs, hp⟩ := h.proposes _ (Identifier.firstOrdinal_mem h.nonempty)
  exact ⟨s, p, hs, hp, h.details s p hs hp⟩

theorem Listed.mutator {o : Operator} {d : Details} (h : Listed c m b o d) :
    d.mutator = o.name := by
  obtain ⟨s, p, -, -, hd⟩ := h.first
  rw [hd]
  rfl

theorem Listed.id {o : Operator} {d : Details} (h : Listed c m b o d) :
    d.id = ⟨(c.header m).location, d.id.indexes, o.id⟩ := by
  obtain ⟨s, p, -, -, hd⟩ := h.first
  conv => lhs; rw [hd]

theorem Listing.sublist {es : List Details} (h : Listing c m b os ds) (hs : es.Sublist ds) :
    Listing c m b os es :=
  ⟨fun d hd => h.listed d (hs.subset hd), h.ordered.sublist hs⟩

namespace Scan

theorem listed_detailsAt {o : Operator} {i : Nat} {s : Site} {p : Proposal}
    (hs : m.code[i]? = some s) (hp : o.proposal? (c.header m) s = some p) :
    Listed c m b o (detailsAt c m b o i p) where
  ascending := List.pairwise_singleton _ i
  nonempty := List.cons_ne_nil i []
  proposes := by
    intro j hj
    obtain rfl : j = i := by simpa [detailsAt, Identifier.single] using hj
    exact ⟨s, p, hs, hp⟩
  details := by
    intro s' p' hs' hp'
    obtain rfl : s = s' := Option.some.inj (hs.symm.trans hs')
    obtain rfl : p = p' := Option.some.inj (hp.symm.trans hp')
    rfl

theorem pairwise_snd_zipIdx {α : Type} (xs : List α) :
    xs.zipIdx.Pairwise fun x y => x.2 < y.2 := by
  have h := List.pairwise_lt_range' (s := 0) (n := xs.length)
  rw [← List.zipIdx_map_snd] at h
  exact List.pairwise_map.1 h

theorem firstOrdinal_of_mem_foundAt {s : Site} {i : Nat} {d : Details}
    (h : d ∈ foundAt c m b os s i) : d.firstOrdinal = i := by
  obtain ⟨o, -, ho⟩ := List.mem_filterMap.1 h
  obtain ⟨p, -, rfl⟩ := Option.map_eq_some_iff.1 ho
  rfl

theorem listing_found : Listing c m b os (found c m b os) where
  listed := by
    intro d hd
    obtain ⟨i, s, o, p, hs, ho, hp, rfl⟩ := mem_found.1 hd
    exact ⟨o, ho, listed_detailsAt hs hp⟩
  ordered := by
    refine List.pairwise_flatMap.2 ⟨?_, ?_⟩
    · rintro ⟨s, i⟩ -
      refine List.pairwise_of_forall_mem_list fun d hd e he => ?_
      exact Nat.le_of_eq
        ((firstOrdinal_of_mem_foundAt hd).trans (firstOrdinal_of_mem_foundAt he).symm)
    · refine (pairwise_snd_zipIdx m.code).imp ?_
      rintro ⟨s, i⟩ ⟨s', j⟩ hij d hd e he
      rw [firstOrdinal_of_mem_foundAt hd, firstOrdinal_of_mem_foundAt he]
      exact Nat.le_of_lt hij

end Scan

namespace InlinedFinally

theorem areCopies_iff {d e : Details} : areCopies d e = true ↔
    (∃ n, d.line = some n) ∧ d.line = e.line ∧ d.mutator = e.mutator
      ∧ d.description = e.description := by
  simp [areCopies, Option.isSome_iff_exists, and_assoc]

theorem mem_copies {d e : Details} : e ∈ copies ds d ↔ e ∈ ds ∧ areCopies d e = true :=
  List.mem_filter

theorem self_mem_copies {d e : Details} (hd : d ∈ ds) (he : e ∈ copies ds d) : d ∈ copies ds d := by
  obtain ⟨hline, -⟩ := areCopies_iff.1 (mem_copies.1 he).2
  exact mem_copies.2 ⟨hd, areCopies_iff.2 ⟨hline, rfl, rfl, rfl⟩⟩

theorem operator_of_areCopies {d e : Details} {o o' : Operator} (hd : Listed c m b o d)
    (he : Listed c m b o' e) (h : areCopies d e = true) : o = o' := by
  apply Operator.name_injective
  rw [← hd.mutator, ← he.mutator, (areCopies_iff.1 h).2.2.1]

theorem one_lt_length {is : List Nat} {i j : Nat} (hi : i ∈ is) (hj : j ∈ is) (h : i ≠ j) :
    1 < is.length := by
  match is, hi, hj with
  | [k], hi, hj => exact absurd ((List.mem_singleton.1 hi).trans (List.mem_singleton.1 hj).symm) h
  | _ :: _ :: is, _, _ => simp

theorem listed_merge {d : Details} {o : Operator} (h : Listing c m b os ds) (hd : d ∈ ds)
    (ho : Listed c m b o d) (hspan : spansBlocks b d (copies ds d) = true)
    (hfirst : ∀ e ∈ copies ds d, d.firstOrdinal ≤ e.firstOrdinal) :
    Listed c m b o (merge d (copies ds d)) ∧
      (merge d (copies ds d)).firstOrdinal = d.firstOrdinal := by
  obtain ⟨e, he, hblock⟩ := List.any_eq_true.1 hspan
  have hne : e.firstOrdinal ≠ d.firstOrdinal := by
    intro heq
    simp [heq] at hblock
  have hdc : d ∈ copies ds d := self_mem_copies hd he
  have hcopy : ∀ e ∈ copies ds d, Listed c m b o e := by
    intro e he
    obtain ⟨o', -, ho'⟩ := h.listed e (mem_copies.1 he).1
    rwa [operator_of_areCopies ho ho' (mem_copies.1 he).2]
  have hmem : ∀ e ∈ copies ds d,
      e.firstOrdinal ∈ (copies ds d).flatMap (fun e => e.id.indexes) := fun e he =>
    List.mem_flatMap.2 ⟨e, he, Identifier.firstOrdinal_mem (hcopy e he).nonempty⟩
  have hle : ∀ i ∈ (copies ds d).flatMap (fun e => e.id.indexes), d.firstOrdinal ≤ i := by
    intro i hi
    obtain ⟨e, he, hi⟩ := List.mem_flatMap.1 hi
    exact Nat.le_trans (hfirst e he) (Identifier.firstOrdinal_le (hcopy e he).ascending hi)
  have hf : (merge d (copies ds d)).firstOrdinal = d.firstOrdinal :=
    Identifier.firstOrdinal_spanning (hmem d hdc) hle
  have hlen : 1 < (merge d (copies ds d)).id.indexes.length :=
    one_lt_length (Identifier.mem_spanning.2 (hmem d hdc)) (Identifier.mem_spanning.2 (hmem e he))
      hne.symm
  refine ⟨⟨Identifier.pairwise_spanning _ _, ?_, ?_, ?_⟩, hf⟩
  · exact List.ne_nil_of_mem (Identifier.mem_spanning.2 (hmem d hdc))
  · intro i hi
    obtain ⟨e, he, hi⟩ := List.mem_flatMap.1 (Identifier.mem_spanning.1 hi)
    exact (hcopy e he).proposes i hi
  · intro s p hs hp
    rw [hf] at hs ⊢
    have hdetails := ho.details s p hs hp
    simp only [hlen, decide_true]
    rw [merge, hdetails]
    rfl

variable {regions : List OrdinalRange} {d e : Details} {i : Nat}

def leftAt? (regions : List OrdinalRange) (b : Blocks) (ds : List Details) (d : Details) (i : Nat) :
    Option Details :=
  if isMerged regions b d (copies ds d) then
    if ds.findIdx? (areCopies d) == some i then some (merge d (copies ds d)) else none
  else some d

theorem collapse_eq_filterMap :
    collapse regions b ds = ds.zipIdx.filterMap fun (d, i) => leftAt? regions b ds d i := rfl

theorem leftAt?_cases (h : leftAt? regions b ds d i = some e) : e = d ∨
    isMerged regions b d (copies ds d) = true ∧ ds.findIdx? (areCopies d) = some i ∧
      e = merge d (copies ds d) := by
  unfold leftAt? at h
  split at h
  · rename_i hm
    split at h
    · rename_i hfirst
      cases h
      exact .inr ⟨hm, beq_iff_eq.1 hfirst, rfl⟩
    · cases h
  · cases h
    exact .inl rfl

theorem listed_leftAt? (hi : ds[i]? = some d) (h : Listing c m b os ds)
    (he : leftAt? regions b ds d i = some e) :
    (∃ o ∈ os, Listed c m b o e) ∧ e.firstOrdinal = d.firstOrdinal := by
  have hd : d ∈ ds := List.mem_of_getElem? hi
  obtain ⟨o, hos, ho⟩ := h.listed d hd
  rcases leftAt?_cases he with rfl | ⟨hm, hfirst, rfl⟩
  · exact ⟨⟨o, hos, ho⟩, rfl⟩
  · have hspan : spansBlocks b d (copies ds d) = true := by
      simp only [isMerged, Bool.and_eq_true] at hm
      exact hm.1
    obtain ⟨hlt, -, hbefore⟩ := List.findIdx?_eq_some_iff_getElem.1 hfirst
    have hdi : ds[i] = d := by simpa [List.getElem?_eq_getElem hlt] using hi
    obtain ⟨hl, hf⟩ := listed_merge h hd ho hspan fun e he => by
      obtain ⟨j, hj, rfl⟩ := List.mem_iff_getElem.1 (mem_copies.1 he).1
      rcases Nat.lt_trichotomy j i with hji | rfl | hij
      · exact absurd (mem_copies.1 he).2 (hbefore j hji)
      · exact Nat.le_of_eq (congrArg Details.firstOrdinal hdi.symm)
      · rw [← hdi]
        exact List.pairwise_iff_getElem.1 h.ordered i j hlt hj hij
    exact ⟨⟨o, hos, hl⟩, hf⟩

theorem mutator_of_leftAt? (h : leftAt? regions b ds d i = some e) : e.mutator = d.mutator := by
  rcases leftAt?_cases h with rfl | ⟨-, -, rfl⟩ <;> rfl

theorem pairwise_collapse {R : Details → Details → Prop} (regions : List OrdinalRange)
    (h : Listing c m b os ds) (hds : ds.Pairwise R)
    (hR : ∀ d e d' e', R d e → d'.firstOrdinal = d.firstOrdinal → d'.mutator = d.mutator →
      e'.firstOrdinal = e.firstOrdinal → e'.mutator = e.mutator → R d' e') :
    (collapse regions b ds).Pairwise R := by
  have hzip : ds.zipIdx.Pairwise fun x y => R x.1 y.1 := by
    rw [← List.zipIdx_map_fst 0 ds, List.pairwise_map] at hds
    exact hds
  refine List.pairwise_filterMap.2 (hzip.imp_of_mem ?_)
  rintro ⟨d, i⟩ ⟨d', j⟩ hd hd' hr e he e' he'
  exact hR d d' e e' hr
    (listed_leftAt? (List.mem_zipIdx_iff_getElem?.1 hd) h he).2 (mutator_of_leftAt? he)
    (listed_leftAt? (List.mem_zipIdx_iff_getElem?.1 hd') h he').2 (mutator_of_leftAt? he')

theorem listing_collapse (regions : List OrdinalRange) (h : Listing c m b os ds) :
    Listing c m b os (collapse regions b ds) where
  listed := by
    intro e he
    obtain ⟨⟨d, i⟩, hdi, he⟩ := List.mem_filterMap.1 he
    exact (listed_leftAt? (List.mem_zipIdx_iff_getElem?.1 hdi) h he).1
  ordered := pairwise_collapse regions h h.ordered fun _ _ _ _ hle hd _ he _ => by rwa [hd, he]

end InlinedFinally

namespace Filter

theorem listing_apply (f : FilterRules) (kind : FilterKind) (h : Listing c m b os ds) :
    Listing c m b os (apply f c m b kind ds) := by
  by_cases hkind : kind = .inlinedFinally
  · subst hkind
    simp only [apply, InlinedFinally.apply]
    split
    · exact h
    · exact InlinedFinally.listing_collapse _ h
  · rw [apply_eq_filter hkind]
    exact h.sublist List.filter_sublist

theorem listing_applyAll (f : FilterRules) (kinds : List FilterKind) (h : Listing c m b os ds) :
    Listing c m b os (applyAll f c m b kinds ds) := by
  induction kinds generalizing ds with
  | nil => exact h
  | cons kind kinds ih => exact ih (listing_apply f kind h)

end Filter

namespace Engine

theorem scan_ok : scan os c m = .ok ds ↔
    (∀ site ∈ m.code, ∀ o ∈ os, o.Succeeds (c.header m) site) ∧
      ds = Scan.found c m (.ofMethod m) os := by
  constructor
  · intro h
    obtain ⟨⟨st, items⟩, hv, rfl⟩ := Result.map_ok.1 h
    exact Scan.visit_scan hv
  · rintro ⟨hs, rfl⟩
    obtain ⟨st, items, hv⟩ := @Scan.visit_total c m (.ofMethod m) none os hs
    exact Result.map_ok.2 ⟨_, hv, (Scan.visit_scan hv).2⟩

theorem findInMethod_ok {s : Settings} : findInMethod s c m = .ok ds ↔
    (s.skipsMethod m.name = true ∧ ds = []) ∨ (s.skipsMethod m.name = false ∧
      (∀ site ∈ m.code, ∀ o ∈ s.operators, o.Succeeds (c.header m) site) ∧
      ds = Filter.applyAll s.filterRules c m (.ofMethod m) s.filters
        (Scan.found c m (.ofMethod m) s.operators)) := by
  unfold findInMethod
  cases s.skipsMethod m.name with
  | true => simp [eq_comm]
  | false =>
      simp only [Bool.false_eq_true, if_false, false_and, false_or, true_and, Result.map_ok, scan_ok]
      constructor
      · rintro ⟨found, ⟨hs, rfl⟩, rfl⟩
        exact ⟨hs, rfl⟩
      · rintro ⟨hs, rfl⟩
        exact ⟨_, ⟨hs, rfl⟩, rfl⟩

theorem findInClass_ok {s : Settings} : findInClass s c = .ok ds ↔
    (s.skipsAnnotated c.annotations = true ∧ ds = []) ∨
      (s.skipsAnnotated c.annotations = false ∧
        ∃ dss, c.methods.mapM (findInMethod s c) = .ok dss ∧ ds = dss.flatten) := by
  unfold findInClass
  cases s.skipsAnnotated c.annotations with
  | true => simp [eq_comm]
  | false =>
      simp only [Bool.false_eq_true, if_false, false_and, false_or, true_and, Result.map_ok]
      exact exists_congr fun dss => and_congr_right fun _ => eq_comm

theorem find_ok {source : ClassSource} {s : Settings} {name : String} :
    find source s name = .ok ds ↔
      (source (ClassName.internal name) = .ok none ∧ ds = []) ∨
        ∃ data c, source (ClassName.internal name) = .ok (some data) ∧
          Class.parse data = .ok c ∧ findInClass s c = .ok ds := by
  unfold find
  simp only [Result.bind_ok, read, Result.mapError_ok]
  constructor
  · rintro ⟨_ | data, hread, h⟩
    · exact .inl ⟨hread, (Result.pure_ok.1 h).symm⟩
    · obtain ⟨c, hparse, h⟩ := Result.bind_ok.1 h
      exact .inr ⟨data, c, hread, Result.mapError_ok.1 hparse, h⟩
  · rintro (⟨hread, rfl⟩ | ⟨data, c, hread, hparse, h⟩)
    · exact ⟨none, hread, rfl⟩
    · exact ⟨some data, hread, Result.bind_ok.2 ⟨c, Result.mapError_ok.2 hparse, h⟩⟩

theorem findInMethod_listed {s : Settings} (h : findInMethod s c m = .ok ds) {d : Details}
    (hd : d ∈ ds) : ∃ o ∈ s.operators, Listed c m (.ofMethod m) o d ∧
      ∀ site ∈ m.code, o.Succeeds (c.header m) site := by
  rcases findInMethod_ok.1 h with ⟨-, rfl⟩ | ⟨-, hs, rfl⟩
  · cases hd
  · obtain ⟨o, ho, hl⟩ :=
      (Filter.listing_applyAll s.filterRules s.filters Scan.listing_found).listed d hd
    exact ⟨o, ho, hl, fun site hsite => hs site hsite o ho⟩

theorem findInClass_listed {s : Settings} (h : findInClass s c = .ok ds) {d : Details}
    (hd : d ∈ ds) : ∃ m ∈ c.methods, ∃ o ∈ s.operators, Listed c m (.ofMethod m) o d ∧
      ∀ site ∈ m.code, o.Succeeds (c.header m) site := by
  rcases findInClass_ok.1 h with ⟨-, rfl⟩ | ⟨-, dss, hdss, rfl⟩
  · cases hd
  · obtain ⟨ds', hds', hd⟩ := List.mem_flatten.1 hd
    obtain ⟨m, hm, hf⟩ := Result.exists_of_mem_mapM hdss hds'
    obtain ⟨o, ho, hl, hs⟩ := findInMethod_listed hf hd
    exact ⟨m, hm, o, ho, hl, hs⟩

theorem find?_isAt (hdistinct : (c.methods.map fun m => (m.name, m.descriptor)).Nodup)
    (hm : m ∈ c.methods) : c.methods.find? (isAt (c.header m).location) = some m := by
  have hself : isAt (c.header m).location m = true := by
    simp [isAt, Class.header, MethodHeader.location]
  obtain ⟨m', hm'⟩ := Option.isSome_iff_exists.1 (List.find?_isSome.2 ⟨m, hm, hself⟩)
  have hsame : (m'.name, m'.descriptor) = (m.name, m.descriptor) := by
    have h := List.find?_some hm'
    simp only [isAt, Bool.and_eq_true, beq_iff_eq] at h
    exact Prod.ext h.1 h.2
  rw [hm', List.inj_on_of_nodup_map hdistinct (List.mem_of_find?_eq_some hm') hm hsame]

theorem fits_of_listed {o : Operator} {d : Details}
    (hdistinct : (c.methods.map fun m => (m.name, m.descriptor)).Nodup) (hm : m ∈ c.methods)
    (hl : Listed c m b o d) (hs : ∀ site ∈ m.code, o.Succeeds (c.header m) site) :
    Fits c d.id m o where
  method := by
    rw [hl.id]
    exact find?_isAt hdistinct hm
  operator := by
    rw [hl.id]
    exact Operator.ofId?_id o
  succeeds := hs
  proposes := by
    intro i hi
    obtain ⟨s, p, hs, hp⟩ := hl.proposes i hi
    exact ⟨s, p, hs, proposal?_eq_some.1 hp⟩

theorem ofFault_eq (name : String) (fault : Fault) :
    EngineError.ofFault name fault = .invalidClass name fault ∨
      EngineError.ofFault name fault = .overflow := by
  cases fault with
  | overflow => exact .inr rfl
  | _ => exact .inl rfl

theorem replaceCode_error {name : String} {data : Bytes} {stream : List StreamItem}
    {e : EngineError} (h : Assembly.replaceCode name data m stream = .error e) :
    (∃ l, e = .notApplicable name (.limit l)) ∨ (∃ fault, e = .invalidClass name fault) ∨
      e = .overflow := by
  unfold Assembly.replaceCode at h
  split at h
  · cases h
  · rename_i l _
    cases h
    exact .inl ⟨l, rfl⟩
  · rename_i fault _ _
    cases h
    exact .inr ((ofFault_eq name fault).imp_left fun he => ⟨fault, he⟩)

/-- Whatever is found in a stored class is applied as it was found, unless the assembly fails. -/
theorem mutant_of_mem_find (t : ClassTable) (s : Settings) (data : Bytes) (c : Class)
    (className : String) (ds : List Details) (d : Details) (hstored : t.get? c.name = some data)
    (hparse : Class.parse data = .ok c)
    (hdistinct : (c.methods.map fun m => (m.name, m.descriptor)).Nodup)
    (hname : ClassName.internal className = ClassName.internal c.name)
    (hfind : find t.source s className = .ok ds) (hd : d ∈ ds) :
    ∃ m ∈ c.methods, ∃ o ∈ s.operators, ∃ stream,
      Replaces (c.header m) o m.code d.id.indexes stream ∧
      mutant t.source d.id = (Assembly.replaceCode c.name data m stream).map (Mutant.mk d) ∧
      ∀ e, mutant t.source d.id = .error e →
        (∃ l, e = .notApplicable c.name (.limit l)) ∨ (∃ fault, e = .invalidClass c.name fault) ∨
          e = .overflow := by
  have hread : t.source (ClassName.internal c.name) = .ok (some data) := by
    simp only [ClassTable.source, ClassTable.get?, ClassName.internal_internal]
    exact congrArg _ hstored
  have hfound : findInClass s c = .ok ds := by
    simpa [find, read, parse, hname, hread, hparse, Except.mapError, bind, Except.bind] using hfind
  obtain ⟨m, hm, o, ho, hl, hs⟩ := findInClass_listed hfound hd
  have hf := fits_of_listed hdistinct hm hl hs
  have hown : c.name = d.id.location.className := by rw [hl.id]; rfl
  obtain ⟨site, p, hsite, hp, happly⟩ :=
    applyTo_of_fits (ClassName.internal d.id.location.className) hown hl.nonempty hf
  have hdetails : { Scan.detailsAt c m (.ofMethod m) o d.id.firstOrdinal p with
      id := d.id, inFinallyBlock := 1 < d.id.indexes.length } = d := by
    have hdet := hl.details site p hsite (proposal?_eq_some.2 hp)
    conv => rhs; rw [hdet]
    rw [hl.id]
    rfl
  rw [hdetails] at happly
  have hmutant : mutant t.source d.id = (Assembly.replaceCode c.name data m
      (appliedStream c m o d.id.indexes)).map (Mutant.mk d) := by
    have hprep := (prepare_ok (p := ⟨data, c, _⟩) (hown ▸ hread)).2 ⟨rfl, hparse, happly⟩
    rw [mutant_eq_prepare, hprep]
    rfl
  refine ⟨m, hm, o, ho, _, replaces_appliedStream hf.proposes, hmutant, fun e he => ?_⟩
  rw [hmutant] at he
  cases hr : Assembly.replaceCode c.name data m (appliedStream c m o d.id.indexes) with
  | ok bytes =>
      rw [hr] at he
      cases he
  | error e' =>
      rw [hr] at he
      cases he
      exact replaceCode_error hr

end Engine

namespace Specimen

def table : ClassTable := ClassTable.insert {} owner.name classFile

def settings : Settings :=
  { operators := [.math], excludedMethods := [], excludedClassAnnotations := [],
    filters := [.inlinedFinally], filterRules := ⟨[], [], []⟩ }

def multiplication : Details :=
  { id := ⟨⟨"S", "g", "(II)I"⟩, [4], "jmutate.operators.MATH"⟩
    description := "Replaced integer multiplication with division"
    line := some 7, block := 1, mutator := "MATH", filename := none }

theorem find_multiplication :
    Engine.find table.source settings "S.class" = .ok [multiplication] := by decide +kernel

end Specimen

theorem Engine.mutant_multiplication : ∃ m ∈ Specimen.owner.methods, ∃ stream,
    Engine.mutant Specimen.table.source Specimen.multiplication.id
      = (Assembly.replaceCode "S" Specimen.classFile m stream).map
        (Mutant.mk Specimen.multiplication) := by
  obtain ⟨m, hm, o, -, stream, -, h, -⟩ := Engine.mutant_of_mem_find Specimen.table
    Specimen.settings Specimen.classFile Specimen.owner "S.class" [Specimen.multiplication]
    Specimen.multiplication (by decide +kernel) Specimen.parse_classFile (by decide)
    (by decide +kernel) Specimen.find_multiplication List.mem_cons_self
  exact ⟨m, hm, stream, h⟩

end BytecodeMutation
