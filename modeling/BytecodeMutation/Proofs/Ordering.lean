import BytecodeMutation.Proofs.Independence

namespace BytecodeMutation

structure Position where
  method : Nat
  ordinal : Nat
  operator : Nat
  deriving DecidableEq, Repr

namespace Position

def Before (p q : Position) : Prop :=
  p.method < q.method ∨ p.method = q.method ∧
    (p.ordinal < q.ordinal ∨ p.ordinal = q.ordinal ∧ p.operator < q.operator)

theorem not_before_self (p : Position) : ¬ p.Before p := by
  simp [Before]

end Position

/-- A mutation is what an operator found in a method, at instructions that this method has, and its
position is that of the first of them. -/
structure StandsAt (s : Settings) (c : Class) (m : Method) (o : Operator) (p : Position)
    (d : Details) : Prop where
  method : c.methods[p.method]? = some m
  operator : s.operators[p.operator]? = some o
  found : ∃ ds, Engine.findInMethod s c m = .ok ds ∧ d ∈ ds
  id : d.id = ⟨(c.header m).location, d.id.indexes, o.id⟩
  first : d.id.indexes.head? = some p.ordinal
  ascending : d.id.indexes.Pairwise (· < ·)
  within : ∀ i ∈ d.id.indexes, i < m.code.length

variable {s : Settings} {c : Class} {m : Method} {b : Blocks} {o : Operator} {os : List Operator}
  {d e : Details} {ds : List Details}

theorem StandsAt.position_eq {m' : Method} {o' : Operator} {p q : Position}
    (hmethods : (c.methods.map fun m => (m.name, m.descriptor)).Nodup) (hos : s.operators.Nodup)
    (hd : StandsAt s c m o p d) (he : StandsAt s c m' o' q e) (hid : d.id = e.id) : p = q := by
  have hlocation : (c.header m).location = (c.header m').location := by
    have h := congrArg Identifier.location hid
    rwa [hd.id, he.id] at h
  have hname : (m.name, m.descriptor) = (m'.name, m'.descriptor) :=
    congrArg (fun l : Location => (l.methodName, l.methodDescriptor)) hlocation
  have hoperator : o = o' := by
    have h := congrArg Identifier.operator hid
    rw [hd.id, he.id] at h
    have hof := congrArg Operator.ofId? h
    rwa [Operator.ofId?_id, Operator.ofId?_id, Option.some_inj] at hof
  have hfirst : some p.ordinal = some q.ordinal := by
    rw [← hd.first, ← he.first, hid]
  obtain ⟨hp, hpm⟩ := List.getElem?_eq_some_iff.1 hd.method
  obtain ⟨hq, hqm⟩ := List.getElem?_eq_some_iff.1 he.method
  have hpos : p.method = q.method := by
    have hlength : (c.methods.map fun m => (m.name, m.descriptor)).length = c.methods.length :=
      List.length_map _
    refine (@List.Nodup.getElem_inj_iff _ _ hmethods _ (hlength ▸ hp) _ (hlength ▸ hq)).1 ?_
    simp only [List.getElem_map, hpm, hqm, hname]
  obtain ⟨hp, hpo⟩ := List.getElem?_eq_some_iff.1 hd.operator
  obtain ⟨hq, hqo⟩ := List.getElem?_eq_some_iff.1 he.operator
  have hrank : p.operator = q.operator :=
    (@List.Nodup.getElem_inj_iff _ _ hos _ hp _ hq).1 (hpo.trans (hoperator.trans hqo.symm))
  obtain ⟨pm, po, pr⟩ := p
  obtain ⟨qm, qo, qr⟩ := q
  obtain rfl : pm = qm := hpos
  obtain rfl : pr = qr := hrank
  obtain rfl : po = qo := Option.some.inj hfirst
  rfl

namespace Details

def rank (os : List Operator) (d : Details) : Nat := (os.map Operator.name).idxOf d.mutator

def Precedes (os : List Operator) (d e : Details) : Prop :=
  d.firstOrdinal < e.firstOrdinal ∨ d.firstOrdinal = e.firstOrdinal ∧ d.rank os < e.rank os

theorem rank_eq (hos : os.Nodup) {k : Nat} (hk : os[k]? = some o) (hd : d.mutator = o.name) :
    d.rank os = k := by
  obtain ⟨hlt, rfl⟩ := List.getElem?_eq_some_iff.1 hk
  have hnames : (os.map Operator.name).Nodup := hos.map fun _ _ h => Operator.name_injective h
  have hlength : k < (os.map Operator.name).length := by simpa using hlt
  have hrank := hnames.idxOf_getElem k hlength
  rwa [List.getElem_map, ← hd] at hrank

theorem Precedes.congr {d' e' : Details} (h : d.Precedes os e)
    (hd : d'.firstOrdinal = d.firstOrdinal) (hdm : d'.mutator = d.mutator)
    (he : e'.firstOrdinal = e.firstOrdinal) (hem : e'.mutator = e.mutator) : d'.Precedes os e' := by
  simpa only [Precedes, rank, hd, hdm, he, hem] using h

end Details

namespace Scan

theorem pairwise_foundAt (hos : os.Nodup) (site : Site) (i : Nat) :
    (foundAt c m b os site i).Pairwise fun d e => d.rank os < e.rank os := by
  refine List.pairwise_filterMap.2 (List.pairwise_iff_getElem.2 ?_)
  intro j k hj hk hjk d hd e he
  obtain ⟨p, -, rfl⟩ := Option.map_eq_some_iff.1 hd
  obtain ⟨q, -, rfl⟩ := Option.map_eq_some_iff.1 he
  rw [Details.rank_eq hos (List.getElem?_eq_getElem hj) rfl,
    Details.rank_eq hos (List.getElem?_eq_getElem hk) rfl]
  exact hjk

theorem pairwise_found (hos : os.Nodup) : (found c m b os).Pairwise (Details.Precedes os) := by
  refine List.pairwise_flatMap.2 ⟨?_, ?_⟩
  · rintro ⟨site, i⟩ -
    refine (pairwise_foundAt hos site i).imp_of_mem fun hd he hlt => .inr ⟨?_, hlt⟩
    exact (firstOrdinal_of_mem_foundAt hd).trans (firstOrdinal_of_mem_foundAt he).symm
  · refine (pairwise_snd_zipIdx m.code).imp ?_
    rintro ⟨site, i⟩ ⟨site', j⟩ hij d hd e he
    refine .inl ?_
    rwa [firstOrdinal_of_mem_foundAt hd, firstOrdinal_of_mem_foundAt he]

end Scan

namespace Filter

theorem pairwise_apply (f : FilterRules) (kind : FilterKind) (h : Listing c m b os ds)
    (hds : ds.Pairwise (Details.Precedes os)) :
    (apply f c m b kind ds).Pairwise (Details.Precedes os) := by
  by_cases hkind : kind = .inlinedFinally
  · subst hkind
    simp only [apply, InlinedFinally.apply]
    split
    · exact hds
    · exact InlinedFinally.pairwise_collapse _ h hds fun _ _ _ _ hprecedes => hprecedes.congr
  · rw [apply_eq_filter hkind]
    exact hds.sublist List.filter_sublist

theorem pairwise_applyAll (f : FilterRules) (kinds : List FilterKind) (h : Listing c m b os ds)
    (hds : ds.Pairwise (Details.Precedes os)) :
    (applyAll f c m b kinds ds).Pairwise (Details.Precedes os) := by
  induction kinds generalizing ds with
  | nil => exact hds
  | cons kind kinds ih => exact ih (listing_apply f kind h) (pairwise_apply f kind h hds)

end Filter

namespace Engine

theorem pairwise_findInMethod (hos : s.operators.Nodup) (h : findInMethod s c m = .ok ds) :
    ds.Pairwise (Details.Precedes s.operators) := by
  rcases findInMethod_ok.1 h with ⟨-, rfl⟩ | ⟨-, -, rfl⟩
  · exact List.Pairwise.nil
  · exact Filter.pairwise_applyAll _ _ Scan.listing_found (Scan.pairwise_found hos)

def positionOf (s : Settings) (position : Nat) (d : Details) : Position :=
  ⟨position, d.firstOrdinal, d.rank s.operators⟩

theorem standsAt_positionOf {j : Nat} (hos : s.operators.Nodup) (hm : c.methods[j]? = some m)
    (h : findInMethod s c m = .ok ds) (hd : d ∈ ds) :
    ∃ o, StandsAt s c m o (positionOf s j d) d := by
  obtain ⟨o, ho, hl, -⟩ := findInMethod_listed h hd
  obtain ⟨k, hk⟩ := List.getElem?_of_mem ho
  refine ⟨o, ⟨hm, ?_, ⟨ds, h, hd⟩, hl.id, ?_, hl.ascending, ?_⟩⟩
  · change s.operators[d.rank s.operators]? = some o
    rw [Details.rank_eq hos hk hl.mutator, hk]
  · obtain ⟨i, is, his⟩ := List.exists_cons_of_ne_nil hl.nonempty
    simp [positionOf, Details.firstOrdinal, Identifier.firstOrdinal, his]
  · intro i hi
    obtain ⟨site, _, hsite, -⟩ := hl.proposes i hi
    exact (List.getElem?_eq_some_iff.1 hsite).1

def positioned (s : Settings) (dss : List (List Details)) : List (Position × Details) :=
  dss.zipIdx.flatMap fun (ds, j) => ds.map fun d => (positionOf s j d, d)

theorem map_snd_positioned (s : Settings) (dss : List (List Details)) :
    (positioned s dss).map Prod.snd = dss.flatten := by
  have h : ∀ x : List Details × Nat,
      (x.1.map fun d => (positionOf s x.2 d, d)).map Prod.snd = x.1 := by
    intro x
    rw [List.map_map]
    exact List.map_id x.1
  conv => rhs; rw [← List.zipIdx_map_fst 0 dss]
  rw [positioned, List.map_flatMap, List.flatMap_def]
  exact congrArg List.flatten (List.map_congr_left fun x _ => h x)

variable {dss : List (List Details)}

theorem pairwise_positioned (h : ∀ ds ∈ dss, ds.Pairwise (Details.Precedes s.operators)) :
    (positioned s dss).Pairwise fun x y => x.1.Before y.1 := by
  refine List.pairwise_flatMap.2 ⟨?_, ?_⟩
  · rintro ⟨ds, j⟩ hds
    refine List.pairwise_map.2 ((h ds (List.fst_mem_of_mem_zipIdx hds)).imp fun hprecedes => ?_)
    exact .inr ⟨rfl, hprecedes⟩
  · refine (Scan.pairwise_snd_zipIdx dss).imp ?_
    rintro ⟨ds, i⟩ ⟨ds', j⟩ hij x hx y hy
    obtain ⟨d, -, rfl⟩ := List.mem_map.1 hx
    obtain ⟨e, -, rfl⟩ := List.mem_map.1 hy
    exact .inl hij

theorem standsAt_of_mem_positioned (hos : s.operators.Nodup)
    (h : c.methods.mapM (findInMethod s c) = .ok dss) {x : Position × Details}
    (hx : x ∈ positioned s dss) : ∃ m o, StandsAt s c m o x.1 x.2 := by
  obtain ⟨⟨ds, j⟩, hds, hx⟩ := List.mem_flatMap.1 hx
  obtain ⟨d, hd, rfl⟩ := List.mem_map.1 hx
  obtain ⟨hj, hget⟩ := List.getElem?_eq_some_iff.1 (List.mem_zipIdx_iff_getElem?.1 hds)
  obtain ⟨hlength, hall⟩ := List.forall₂_iff_get.1 (Result.mapM_ok.1 h)
  have hm := hall j (hlength ▸ hj) hj
  simp only [List.get_eq_getElem, hget] at hm
  obtain ⟨o, ho⟩ := standsAt_positionOf hos (List.getElem?_eq_getElem (hlength ▸ hj)) hm hd
  exact ⟨_, o, ho⟩

theorem findInClass_ordered (hos : s.operators.Nodup) (h : findInClass s c = .ok ds) :
    ∃ positions, List.Forall₂ (fun p d => ∃ m o, StandsAt s c m o p d) positions ds ∧
      positions.Pairwise Position.Before := by
  rcases findInClass_ok.1 h with ⟨-, rfl⟩ | ⟨-, dss, hdss, rfl⟩
  · exact ⟨[], .nil, .nil⟩
  · refine ⟨(positioned s dss).map Prod.fst, ?_, List.pairwise_map.2 (pairwise_positioned ?_)⟩
    · rw [← map_snd_positioned s dss, List.forall₂_map_left_iff, List.forall₂_map_right_iff,
        List.forall₂_same]
      exact fun x hx => standsAt_of_mem_positioned hos hdss hx
    · intro ds hds
      obtain ⟨m, -, hm⟩ := Result.exists_of_mem_mapM hdss hds
      exact pairwise_findInMethod hos hm

theorem nodup_ids {positions : List Position} (hos : s.operators.Nodup)
    (hmethods : (c.methods.map fun m => (m.name, m.descriptor)).Nodup)
    (hpositions : List.Forall₂ (fun p d => ∃ m o, StandsAt s c m o p d) positions ds)
    (hordered : positions.Pairwise Position.Before) : (ds.map (·.id)).Nodup := by
  induction hpositions with
  | nil => exact List.nodup_nil
  | @cons p d positions ds hd hds ih =>
      obtain ⟨hfirst, hrest⟩ := List.pairwise_cons.1 hordered
      -- one identifier stands at one position, which is not before itself
      refine List.nodup_cons.2 ⟨fun hmem => ?_, ih hrest⟩
      obtain ⟨e, he, hid⟩ := List.mem_map.1 hmem
      obtain ⟨q, hq, m', o', he⟩ := Result.exists_left_of_mem hds he
      obtain ⟨m, o, hd⟩ := hd
      have hpq : p = q := hd.position_eq hmethods hos he hid.symm
      exact Position.not_before_self p (hpq ▸ hfirst q hq)

/-- What is found in a class is in strict order by method, first instruction and operator; and when
methods differ in name or descriptor, all identifiers differ. -/
theorem find_ordered (source : ClassSource) (cfg : Config) (s : Settings) (className : String)
    (data : Bytes) (c : Class) (ds : List Details) (hresolve : cfg.resolve = .ok s)
    (hread : source (ClassName.internal className) = .ok (some data))
    (hparse : Class.parse data = .ok c) (hfind : find source s className = .ok ds) :
    (∃ positions, List.Forall₂ (fun p d => ∃ m o, StandsAt s c m o p d) positions ds ∧
      positions.Pairwise Position.Before) ∧
    ((c.methods.map fun m => (m.name, m.descriptor)).Nodup → (ds.map (·.id)).Nodup) := by
  have hclass : findInClass s c = .ok ds := by
    rcases find_ok.1 hfind with ⟨hnone, -⟩ | ⟨data', c', hread', hparse', hclass⟩
    · rw [hread] at hnone
      cases hnone
    · cases hread.symm.trans hread'
      cases hparse.symm.trans hparse'
      exact hclass
  have hos := Config.nodup_operators hresolve
  obtain ⟨positions, hpositions, hordered⟩ := findInClass_ordered hos hclass
  exact ⟨⟨positions, hpositions, hordered⟩,
    fun hmethods => nodup_ids hos hmethods hpositions hordered⟩

end Engine

open Specimen in
theorem Engine.find_ordered_guarded :
    (∃ positions, List.Forall₂
      (fun p d => ∃ m o, StandsAt (guardSettings [.inlinedFinally]) guarded m o p d) positions
      guardMerged ∧ positions.Pairwise Position.Before) ∧ (guardMerged.map (·.id)).Nodup := by
  obtain ⟨hpositions, hids⟩ := Engine.find_ordered guardTable.source
    (guardConfig ["INLINED_FINALLY"]) (guardSettings [.inlinedFinally]) "S" guardFile guarded
    guardMerged rfl (by decide +kernel) parse_guardFile find_merged
  exact ⟨hpositions, hids (by decide)⟩

end BytecodeMutation
