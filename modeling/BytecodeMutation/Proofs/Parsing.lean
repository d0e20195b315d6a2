import BytecodeMutation.Proofs.Methods
import BytecodeMutation.Proofs.Structures

namespace BytecodeMutation

namespace ClassFile

variable {l l' : ClassFile} {p p' : Pool} {name : String} {a : RawAttribute}

theorem named_within (hp : p.Serves l) (hp' : p'.Serves l') (hw : p.Within p')
    (hname : IsPlain name) (ha : a.IsExact p) : l'.named name a = l.named name a := by
  obtain ⟨x, s, hs, -⟩ := ha
  rw [Bool.eq_iff_iff, hp'.named hname, hp.named hname, hs, hw.utf8 hs]

theorem sourceFileSlot_within (hp : p.Serves l) (hp' : p'.Serves l') (hw : p.Within p')
    (hsame : l'.attributes = l.attributes) (hexact : ∀ a ∈ l.attributes, a.IsExact p) :
    l'.sourceFileSlot = l.sourceFileSlot := by
  have hfind : l.attributes.find? (l'.named "SourceFile") =
      l.attributes.find? (l.named "SourceFile") := by
    rw [← List.head?_filter, ← List.head?_filter]
    refine congrArg List.head? (List.filter_congr fun a ha => ?_)
    exact named_within hp hp' hw (by decide) (hexact a ha)
  rw [sourceFileSlot, sourceFileSlot, hsame, hfind]

theorem annotationTypes_within (hp : p.Serves l) (hp' : p'.Serves l') (hw : p.Within p')
    (hsame : l'.attributes = l.attributes) (hexact : ∀ a ∈ l.attributes, a.IsExact p) :
    l'.annotationTypes = l.annotationTypes := by
  have hfilter : l.attributes.filter l'.isAnnotations = l.attributes.filter l.isAnnotations := by
    refine List.filter_congr fun a ha => ?_
    rw [isAnnotations, isAnnotations, named_within hp hp' hw (by decide) (hexact a ha),
      named_within hp hp' hw (by decide) (hexact a ha)]
  rw [annotationTypes, annotationTypes, hsame, hfilter]

end ClassFile

namespace Class

variable {s s' : ClassStructure} {l l' : ClassFile} {c : Class} {p p' : Pool} {data : Bytes}
  {ms : List Method} {m : Method} {os : List (Option Method)} {k : Nat}
  {ds es : List (MethodEntry × RawMember)} {d : MethodEntry × RawMember}

def methodsFrom (p : Pool) (k : Nat) (ds : List (MethodEntry × RawMember)) :
    Except Fault (List (Option Method)) :=
  (ds.zipIdx k).mapM fun ((entry, raw), index) => Method.ofEntry p index entry raw.access

theorem methodsOf_ok : methodsOf s l = .ok ms ↔
    ∃ os, methodsFrom s.pool 0 (s.methods.zip l.methods) = .ok os ∧ os.filterMap id = ms := by
  unfold methodsOf
  rw [Result.bind_ok]
  exact exists_congr fun os => and_congr_right fun _ => Result.pure_ok

theorem methodsFrom_within (hw : p.Within p') (h : methodsFrom p k ds = .ok os) :
    methodsFrom p' k ds = .ok os :=
  Result.mapM_ok.2 ((Result.mapM_ok.1 h).imp fun _ _ => Method.ofEntry_within hw)

theorem methodsFrom_append : methodsFrom p k (ds ++ d :: es) = .ok os ↔ ∃ os₁ o os₂,
    methodsFrom p k ds = .ok os₁ ∧ Method.ofEntry p (k + ds.length) d.1 d.2.access = .ok o ∧
      methodsFrom p (k + ds.length + 1) es = .ok os₂ ∧ os = os₁ ++ o :: os₂ := by
  unfold methodsFrom
  rw [List.zipIdx_append, List.zipIdx_cons, List.mapM_append]
  simp only [List.mapM_cons, Result.bind_ok, Result.pure_ok]
  constructor
  · rintro ⟨os₁, h₁, _, ⟨o, ho, os₂, h₂, rfl⟩, rfl⟩
    exact ⟨os₁, o, os₂, h₁, ho, h₂, rfl⟩
  · rintro ⟨os₁, o, os₂, h₁, ho, h₂, rfl⟩
    exact ⟨os₁, h₁, _, ⟨o, ho, os₂, h₂, rfl⟩, rfl⟩

theorem methodsOf_append {entries entries' : List MethodEntry} {raws raws' : List RawMember}
    {e : MethodEntry} {r : RawMember} (hs : s.methods = entries ++ e :: entries')
    (hl : l.methods = raws ++ r :: raws') (hlen : entries.length = raws.length) :
    methodsOf s l = .ok ms ↔ ∃ os₁ o os₂,
      methodsFrom s.pool 0 (entries.zip raws) = .ok os₁ ∧
        Method.ofEntry s.pool raws.length e r.access = .ok o ∧
        methodsFrom s.pool (raws.length + 1) (entries'.zip raws') = .ok os₂ ∧
        (os₁ ++ o :: os₂).filterMap id = ms := by
  have hzip : (entries.zip raws).length = raws.length := by
    rw [List.length_zip, hlen, Nat.min_self]
  rw [methodsOf_ok, hs, hl, List.zip_append hlen, List.zip_cons_cons]
  simp only [methodsFrom_append, hzip, Nat.zero_add]
  constructor
  · rintro ⟨_, ⟨os₁, o, os₂, h₁, ho, h₂, rfl⟩, hms⟩
    exact ⟨os₁, o, os₂, h₁, ho, h₂, hms⟩
  · rintro ⟨os₁, o, os₂, h₁, ho, h₂, hms⟩
    exact ⟨_, ⟨os₁, o, os₂, h₁, ho, h₂, rfl⟩, hms⟩

theorem index_of_mem (h : methodsFrom p k ds = .ok os) (hm : some m ∈ os) :
    k ≤ m.index ∧ m.index < k + ds.length := by
  obtain ⟨⟨⟨entry, raw⟩, index⟩, hmem, hread⟩ := Result.exists_of_mem_mapM h hm
  obtain ⟨hle, hlt, -⟩ := List.mem_zipIdx hmem
  rw [(Method.ofEntry_some.1 hread).1.index]
  exact ⟨hle, hlt⟩

theorem eq_of_index {os₁ os₂ : List (Option Method)} {o : Option Method}
    (h₁ : methodsFrom p 0 ds = .ok os₁) (h₂ : methodsFrom p (k + 1) es = .ok os₂)
    (hlen : ds.length ≤ k) (hm : m ∈ (os₁ ++ o :: os₂).filterMap id) (hindex : m.index = k) :
    o = some m := by
  obtain ⟨_, hmem, rfl⟩ := List.mem_filterMap.1 hm
  rcases List.mem_append.1 hmem with hmem | hmem
  · have hlt := (index_of_mem h₁ hmem).2
    omega
  rcases List.mem_cons.1 hmem with hmem | hmem
  · exact hmem.symm
  · have hle := (index_of_mem h₂ hmem).1
    omega

structure Reads (s : ClassStructure) (l : ClassFile) (c : Class) : Prop where
  name : s.pool.className s.thisClass = .ok c.name
  interfaces : List.Forall₂ (fun i t => s.pool.className i = .ok t) s.interfaces c.interfaces
  access : c.access = l.access
  sourceFile : ∃ slot : Option UInt16, l.sourceFileSlot = .ok slot ∧
    slot.mapM s.pool.utf8 = .ok c.sourceFile
  annotations : ∃ types, l.annotationTypes = .ok types ∧ List.Forall₂ (fun i t => ∃ descriptor,
    s.pool.utf8 i = .ok descriptor ∧ annotationName descriptor = t) types c.annotations
  count : l.methods.length = s.methods.length
  methods : methodsOf s l = .ok c.methods

theorem parse_iff : parse data = .ok c ↔
    ∃ s l, ClassStructure.read data = .ok s ∧ ClassFile.read data = .ok l ∧ c.Reads s l := by
  unfold parse
  simp only [Result.bind_ok, attempt_ok]
  constructor
  · rintro ⟨s, hs, l, hl, name, hname, interfaces, hinterfaces, slot, hslot, sourceFile,
      hsourceFile, types, htypes, annotations, hannotations, h⟩
    split at h
    · cases h
    · rename_i hcount
      simp only [Result.bind_ok] at h
      obtain ⟨methods, hmethods, h⟩ := h
      cases h
      have hnames := Result.mapM_ok.1 hinterfaces
      have hdescriptors := Result.mapM_ok.1 hannotations
      refine ⟨s, l, hs, hl, hname, hnames.imp fun _ _ => attempt_ok.1, rfl,
        ⟨slot, hslot, hsourceFile⟩, ⟨types, htypes, hdescriptors.imp fun i t ht => ?_⟩,
        not_not.1 hcount, attempt_ok.1 hmethods⟩
      obtain ⟨descriptor, hd, hdt⟩ := Result.map_ok.1 ht
      exact ⟨descriptor, attempt_ok.1 hd, hdt⟩
  · obtain ⟨name, interfaces, access, sourceFile, annotations, methods⟩ := c
    rintro ⟨s, l, hs, hl, hname, hinterfaces, haccess, ⟨slot, hslot, hsourceFile⟩,
      ⟨types, htypes, hannotations⟩, hcount, hmethods⟩
    obtain rfl := haccess
    refine ⟨s, hs, l, hl, name, hname, interfaces, ?_, slot, hslot, sourceFile, hsourceFile,
      types, htypes, annotations, ?_, ?_⟩
    · exact Result.mapM_ok.2 (hinterfaces.imp fun _ _ => attempt_ok.2)
    · refine Result.mapM_ok.2 (hannotations.imp fun i t ⟨descriptor, hd, hdt⟩ => ?_)
      exact Result.map_ok.2 ⟨descriptor, attempt_ok.2 hd, hdt⟩
    · rw [if_neg (not_not.2 hcount)]
      exact Result.bind_ok.2 ⟨methods, attempt_ok.2 hmethods, rfl⟩

theorem Reads.exists_entry (h : c.Reads s l) (hm : m ∈ c.methods) : ∃ e access,
    s.methods[m.index]? = some e ∧ Method.ofEntry s.pool m.index e access = .ok (some m) := by
  obtain ⟨os, hos, hms⟩ := methodsOf_ok.1 h.methods
  rw [← hms] at hm
  obtain ⟨_, hmem, rfl⟩ := List.mem_filterMap.1 hm
  obtain ⟨⟨⟨e, raw⟩, index⟩, hzip, hread⟩ := Result.exists_of_mem_mapM hos hmem
  obtain rfl := (Method.ofEntry_some.1 hread).1.index
  have hentry := (List.getElem?_zip_eq_some.1 (List.mem_zipIdx_iff_getElem?.1 hzip)).1
  exact ⟨e, raw.access, hentry, hread⟩

theorem reads_entry (hs : ClassStructure.read data = .ok s) (h : parse data = .ok c)
    (hm : m ∈ c.methods) {e : MethodEntry} (he : s.methods[m.index]? = some e) {code : Bytes}
    {handlers : List RawHandler} {xs : List Attribute}
    (hcode : e.code? = some (code, handlers, xs)) :
    m.Reads s.pool code handlers ∧ m.lines = Method.linesOf xs := by
  obtain ⟨s', l, hs', -, hreads⟩ := parse_iff.1 h
  obtain rfl := Except.ok.inj (hs.symm.trans hs')
  obtain ⟨e', access, he', hread⟩ := hreads.exists_entry hm
  obtain rfl := Option.some.inj (he.symm.trans he')
  obtain ⟨-, code', handlers', xs', hcode', hmethod, hlines⟩ := Method.ofEntry_some.1 hread
  cases hcode.symm.trans hcode'
  exact ⟨hmethod, hlines⟩

theorem names_of_index {m' : Method} (hparse : parse data = .ok c) (hm : m ∈ c.methods)
    (hm' : m' ∈ c.methods) (hindex : m.index = m'.index) :
    m.name = m'.name ∧ m.descriptor = m'.descriptor := by
  obtain ⟨s, l, -, -, hreads⟩ := parse_iff.1 hparse
  obtain ⟨e, access, he, hread⟩ := hreads.exists_entry hm
  obtain ⟨e', access', he', hread'⟩ := hreads.exists_entry hm'
  rw [hindex, he'] at he
  obtain rfl := Option.some.inj he
  have hof := (Method.ofEntry_some.1 hread).1
  have hof' := (Method.ofEntry_some.1 hread').1
  exact ⟨Except.ok.inj (hof.name.symm.trans hof'.name),
    Except.ok.inj (hof.descriptor.symm.trans hof'.descriptor)⟩

theorem isRead_of_mem (h : parse data = .ok c) (hm : m ∈ c.methods) : m.IsRead := by
  obtain ⟨s, l, -, -, hreads⟩ := parse_iff.1 h
  obtain ⟨e, access, -, hread⟩ := hreads.exists_entry hm
  obtain ⟨-, code, handlers, attributes, -, hmethod, -⟩ := Method.ofEntry_some.1 hread
  exact ⟨s.pool, code, handlers, hmethod⟩

theorem Reads.extend (h : c.Reads s l) (hp : s.pool.Serves l) (hp' : p'.Serves l')
    (hw : s.pool.Within p') (hexact : ∀ a ∈ l.attributes, a.IsExact s.pool)
    (hattributes : l'.attributes = l.attributes) (haccess : l'.access = l.access)
    {entries : List MethodEntry} (hcount : l'.methods.length = entries.length)
    (hmethods : methodsOf ⟨p', s.thisClass, s.interfaces, entries⟩ l' = .ok ms) :
    Reads ⟨p', s.thisClass, s.interfaces, entries⟩ l' { c with methods := ms } where
  name := hw.className h.name
  interfaces := h.interfaces.imp fun _ _ => hw.className
  access := h.access.trans haccess.symm
  sourceFile := by
    obtain ⟨slot, hslot, hsource⟩ := h.sourceFile
    refine ⟨slot, ?_, ?_⟩
    · rw [ClassFile.sourceFileSlot_within hp hp' hw hattributes hexact]
      exact hslot
    · cases slot with
      | none => exact hsource
      | some i =>
          obtain ⟨t, ht, hsource⟩ := Result.bind_ok.1 hsource
          exact Result.bind_ok.2 ⟨t, hw.utf8 ht, hsource⟩
  annotations := by
    obtain ⟨types, htypes, hnames⟩ := h.annotations
    refine ⟨types, ?_, hnames.imp fun i t ⟨d, hd, hdt⟩ => ⟨d, hw.utf8 hd, hdt⟩⟩
    rw [ClassFile.annotationTypes_within hp hp' hw hattributes hexact]
    exact htypes
  count := hcount
  methods := hmethods

end Class

end BytecodeMutation
