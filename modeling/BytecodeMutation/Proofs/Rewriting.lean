import BytecodeMutation.Proofs.Parsing
import BytecodeMutation.Proofs.Relocation

namespace BytecodeMutation

namespace RawMember

variable {p p' : Pool} {r : RawMember} {rs : List RawMember} {e : MethodEntry}

theorem ReadsAs.mono (h : r.ReadsAs p e) (hw : p.Within p') : r.ReadsAs p' e :=
  ⟨h.name, h.descriptor, h.attributes.imp fun _ _ ha => ha.mono hw⟩

theorem exists_readsAs (h : ∀ r ∈ rs, ∀ a ∈ r.attributes, a.IsExact p) :
    ∃ es, List.Forall₂ (ReadsAs p) rs es := by
  refine Result.exists_forall₂ fun r hr => ?_
  obtain ⟨xs, hxs⟩ := Result.exists_forall₂ (h r hr)
  exact ⟨⟨r.name, r.descriptor, xs⟩, rfl, rfl, hxs⟩

end RawMember

namespace MethodEntry

theorem code?_append {name descriptor : UInt16} {xs ys zs : List Attribute} {code : Bytes}
    {handlers : List RawHandler} (h : ∀ x ∈ xs, ∀ code handlers as, x ≠ .code code handlers as) :
    code? ⟨name, descriptor, xs ++ .code code handlers zs :: ys⟩ = some (code, handlers, zs) := by
  induction xs with
  | nil => rfl
  | cons x xs ih =>
      obtain ⟨hx, hxs⟩ := List.forall_mem_cons.1 h
      cases x with
      | code code handlers as => exact absurd rfl (hx code handlers as)
      | lineNumbers entries => exact ih hxs
      | other => exact ih hxs

end MethodEntry

namespace ClassFile

/-- Every attribute that is read by its structure ends where its length says. -/
structure IsExact (l : ClassFile) (p : Pool) : Prop where
  fields : ∀ r ∈ l.fields, ∀ a ∈ r.attributes, a.IsExact p
  methods : ∀ r ∈ l.methods, ∀ a ∈ r.attributes, a.IsExact p
  code : ∀ r ∈ l.methods, ∀ a ∈ r.attributes, l.named "Code" a = true →
    ∀ c, CodeBody.read a.body = .ok c → ∀ b ∈ c.attributes, b.IsExact p
  attributes : ∀ a ∈ l.attributes, a.IsExact p

theorem isExact_iff {l : ClassFile} {p : Pool} : l.IsExact p ↔
    (∀ r ∈ l.fields, ∀ a ∈ r.attributes, a.IsExact p) ∧
      (∀ r ∈ l.methods, ∀ a ∈ r.attributes, a.IsExact p) ∧
      (∀ r ∈ l.methods, ∀ a ∈ r.attributes, l.named "Code" a = true →
        ∀ c, CodeBody.read a.body = .ok c → ∀ b ∈ c.attributes, b.IsExact p) ∧
      ∀ a ∈ l.attributes, a.IsExact p :=
  ⟨fun h => ⟨h.fields, h.methods, h.code, h.attributes⟩, fun ⟨h₁, h₂, h₃, h₄⟩ => ⟨h₁, h₂, h₃, h₄⟩⟩

instance (l : ClassFile) (p : Pool) : Decidable (l.IsExact p) :=
  decidable_of_iff _ isExact_iff.symm

end ClassFile

namespace Assembly

variable {l : ClassFile} {c c' : CodeBody} {m : Method} {stream : List StreamItem}
  {tail : PoolTail} {pieces : List Piece} {p : Placement} {q q' : Pool} {i : Nat}
  {a : RawAttribute} {before after : List RawMember} {r : RawMember} {as bs : List RawAttribute}

theorem Recodes.valid_code (h : Recodes l c m stream c' tail pieces p) (hc : c.Valid)
    (hlen : c'.write.length < 4294967296) : c'.Valid := by
  obtain ⟨os, has, hattributes⟩ := h.attributes
  have hcode := h.length_code
  have hcount := (length_writes h.places.isShort has hattributes).1
  have hhandlers := Instruction.length_mapM_ok h.handlers
  refine ⟨by omega, hhandlers ▸ hc.handlers, Nat.lt_of_le_of_lt hcount hc.attributes.1, ?_⟩
  intro b hb
  have hlt := RawAttribute.length_body_lt_writeAll hb
  simp only [CodeBody.write, List.length_append] at hlen
  show b.body.length < 4294967296
  omega

theorem Recodes.isExact (h : Recodes l c m stream c' tail pieces p) (hq : q.Serves l)
    (hw : q.Within q') (hexact : ∀ b ∈ c.attributes, b.IsExact q) :
    ∀ b ∈ c'.attributes, b.IsExact q' := by
  obtain ⟨os, has, hattributes⟩ := h.attributes
  rw [hattributes]
  intro b hb
  obtain ⟨_, ho, rfl⟩ := List.mem_filterMap.1 hb
  obtain ⟨b₀, hb₀, hmove⟩ := Result.exists_of_mem_mapM has ho
  have hmoves := (moveAttribute_ok h.places.isShort hmove).1
  exact hmoves.isExact hq hw (hexact b₀ hb₀)

theorem CodeAt.entry (h : CodeAt l i a before after r as bs) (hq : q.Serves l)
    (hc : CodeBody.read a.body = .ok c) {xs : List Attribute}
    (hxs : List.Forall₂ (RawAttribute.ReadsAs q) c.attributes xs) {e : MethodEntry}
    (he : r.ReadsAs q e) : ∃ ys zs, e.attributes = ys ++ .code c.code c.handlers xs :: zs ∧
      List.Forall₂ (RawAttribute.ReadsAs q) as ys ∧ List.Forall₂ (RawAttribute.ReadsAs q) bs zs ∧
      ∀ y ∈ ys, ∀ code handlers xs, y ≠ .code code handlers xs := by
  have hall := he.attributes
  rw [h.attributes] at hall
  obtain ⟨ys, x, zs, heq, hys, hx, hzs⟩ := Result.exists_of_forall₂_append hall
  have hname := (hq.named (by decide) a).1 h.named
  obtain rfl := hx.unique (RawAttribute.readsAs_code hname hc hxs)
  refine ⟨ys, zs, heq, hys, hzs, ?_⟩
  rintro y hy code handlers xs rfl
  obtain ⟨b, hb, hread⟩ := Result.exists_left_of_mem hys hy
  have hcode := (hq.named (by decide) b).2 (RawAttribute.name_of_readsAs_code hread)
  rw [h.first b hb] at hcode
  cases hcode

theorem CodeAt.exact (h : CodeAt l i a before after r as bs) (hexact : l.IsExact q) :
    (∀ b ∈ r.attributes, b.IsExact q) ∧
      ∀ c, CodeBody.read a.body = .ok c → ∀ b ∈ c.attributes, b.IsExact q := by
  have hmem : r ∈ l.methods := by
    rw [h.methods]
    exact List.mem_append_right _ List.mem_cons_self
  have hattribute : a ∈ r.attributes := by
    rw [h.attributes]
    exact List.mem_append_right _ List.mem_cons_self
  exact ⟨hexact.methods r hmem, hexact.code r hmem a hattribute h.named⟩

theorem CodeAt.exists_readsAs (h : CodeAt l i a before after r as bs)
    (hr : Recodes l c m stream c' tail pieces p) (hq : q.Serves l) (hexact : l.IsExact q)
    (hc : CodeBody.read a.body = .ok c) (hw : q.Within q') (hlen : c'.write.length < 4294967296)
    {e : MethodEntry} (he : r.ReadsAs q e) : ∃ xs e' xs', e.code? = some (c.code, c.handlers, xs) ∧
      List.Forall₂ (RawAttribute.ReadsAs q) c.attributes xs ∧
      RawMember.ReadsAs q' { r with attributes := as ++ ⟨a.name, c'.write⟩ :: bs } e' ∧
      e'.name = e.name ∧ e'.descriptor = e.descriptor ∧
      e'.code? = some (c'.code, c'.handlers, xs') ∧
      List.Forall₂ (RawAttribute.ReadsAs q') c'.attributes xs' := by
  obtain ⟨name, descriptor, attributes⟩ := e
  have hinner := (h.exact hexact).2 c hc
  obtain ⟨xs, hxs⟩ := Result.exists_forall₂ hinner
  obtain ⟨xs', hxs'⟩ := Result.exists_forall₂ (hr.isExact hq hw hinner)
  obtain ⟨ys, zs, rfl, hys, hzs, hfirst⟩ := h.entry hq hc hxs he
  have hname := hw.utf8 ((hq.named (by decide) a).1 h.named)
  have hvalid := hr.valid_code (CodeBody.read_iff.1 hc).1 hlen
  have hbody := CodeBody.read_iff.2 ⟨hvalid, rfl⟩
  have hcode : RawAttribute.ReadsAs q' ⟨a.name, c'.write⟩ (.code c'.code c'.handlers xs') :=
    RawAttribute.readsAs_code hname hbody hxs'
  have hmono : ∀ (b : RawAttribute) x, b.ReadsAs q x → b.ReadsAs q' x := fun _ _ hb => hb.mono hw
  refine ⟨xs, ⟨name, descriptor, ys ++ .code c'.code c'.handlers xs' :: zs⟩, xs',
    MethodEntry.code?_append hfirst, hxs, ⟨he.name, he.descriptor, ?_⟩, rfl, rfl,
    MethodEntry.code?_append hfirst, hxs'⟩
  exact List.rel_append (hys.imp hmono) (.cons hcode (hzs.imp hmono))

theorem CodeAt.exists_entry (h : CodeAt l i a before after r as bs)
    (hr : Recodes l c m stream c' tail pieces p) (hq : q.IsOf l.pool) (hexact : l.IsExact q)
    (hc : CodeBody.read a.body = .ok c) (hw : q.Within q') (hlen : c'.write.length < 4294967296)
    {e : MethodEntry} (he : r.ReadsAs q e) :
    (∃ xs, e.code? = some (c.code, c.handlers, xs)) ∧ ∃ e' xs,
      RawMember.ReadsAs q' { r with attributes := as ++ ⟨a.name, c'.write⟩ :: bs } e' ∧
        e'.name = e.name ∧ e'.descriptor = e.descriptor ∧
        e'.code? = some (c'.code, c'.handlers, xs) := by
  obtain ⟨xs, e', xs', hold, -, he', hname, hdescriptor, hnew, -⟩ :=
    h.exists_readsAs hr hq.serves hexact hc hw hlen he
  exact ⟨⟨xs, hold⟩, e', xs', he', hname, hdescriptor, hnew⟩

structure Around (c : Class) (l : ClassFile) (q : Pool) (m : Method) (before after : List RawMember)
    (r : RawMember) (entries entries' : List MethodEntry) (e : MethodEntry)
    (os os' : List (Option Method)) : Prop where
  earlier : List.Forall₂ (RawMember.ReadsAs q) before entries
  member : r.ReadsAs q e
  later : List.Forall₂ (RawMember.ReadsAs q) after entries'
  reads : c.Reads ⟨q, l.thisClass, l.interfaces, entries ++ e :: entries'⟩ l
  methodsEarlier : Class.methodsFrom q 0 (entries.zip before) = .ok os
  method : Method.ofEntry q before.length e r.access = .ok (some m)
  methodsLater : Class.methodsFrom q (before.length + 1) (entries'.zip after) = .ok os'

variable {d : Class} {entries entries' : List MethodEntry} {e e' : MethodEntry}
  {os os' : List (Option Method)} {m' : Method}

theorem CodeAt.exists_around (h : CodeAt l i a before after r as bs) (hvalid : l.Valid)
    (hq : q.Serves l) (hexact : l.IsExact q) (hparse : Class.parse l.write = .ok d)
    (hm : m ∈ d.methods) (hi : m.index = i) :
    ∃ entries entries' e os os', Around d l q m before after r entries entries' e os os' := by
  obtain ⟨fs, hfs⟩ := RawMember.exists_readsAs hexact.fields
  obtain ⟨es, hes⟩ := RawMember.exists_readsAs hexact.methods
  obtain ⟨xs, hxs⟩ := Result.exists_forall₂ hexact.attributes
  obtain ⟨s, l₀, hs, hl₀, hreads⟩ := Class.parse_iff.1 hparse
  obtain rfl : l = l₀ := Except.ok.inj ((ClassFile.read_iff.2 ⟨hvalid, rfl⟩).symm.trans hl₀)
  rw [ClassFile.readStructure_write hvalid hq.read hfs hes hxs] at hs
  obtain rfl := Except.ok.inj hs
  rw [h.methods] at hes
  obtain ⟨entries, e, entries', rfl, hbefore, hmember, hafter⟩ :=
    Result.exists_of_forall₂_append hes
  obtain ⟨os, o, os', hearlier, hmethod, hlater, hms⟩ :=
    (Class.methodsOf_append rfl h.methods hbefore.length_eq.symm).1 hreads.methods
  rw [← hms] at hm
  have hzip : (entries.zip before).length ≤ before.length := by
    rw [List.length_zip]
    exact Nat.min_le_right _ _
  obtain rfl := Class.eq_of_index hearlier hlater hzip hm (hi.trans h.index.symm)
  exact ⟨entries, entries', e, os, os', hbefore, hmember, hafter, hreads, hearlier, hmethod, hlater⟩

theorem CodeAt.around (h : CodeAt l i a before after r as bs) (hvalid : l.Valid)
    (hq : q.IsOf l.pool) (hexact : l.IsExact q) (hparse : Class.parse l.write = .ok d)
    (hm : m ∈ d.methods) (hi : m.index = i) :
    ∃ entries entries' e os os', Around d l q m before after r entries entries' e os os' :=
  h.exists_around hvalid hq.serves hexact hparse hm hi

namespace Around

variable {pool : ConstantTable} {body : Bytes}

theorem methods_eq (h : Around d l q m before after r entries entries' e os os')
    (hat : CodeAt l i a before after r as bs) :
    d.methods = (os ++ some m :: os').filterMap id := by
  obtain ⟨os₁, o, os₂, hearlier, hmethod, hlater, hms⟩ :=
    (Class.methodsOf_append rfl hat.methods h.earlier.length_eq.symm).1 h.reads.methods
  obtain rfl := Except.ok.inj (hearlier.symm.trans h.methodsEarlier)
  obtain rfl := Except.ok.inj (hmethod.symm.trans h.method)
  obtain rfl := Except.ok.inj (hlater.symm.trans h.methodsLater)
  exact hms.symm

theorem reads_method (h : Around d l q m before after r entries entries' e os os') {code : Bytes}
    {handlers : List RawHandler} {xs : List Attribute}
    (hcode : e.code? = some (code, handlers, xs)) :
    m.Reads q code handlers ∧ m.lines = Method.linesOf xs := by
  obtain ⟨-, code', handlers', xs', hcode', hreads, hlines⟩ := Method.ofEntry_some.1 h.method
  cases hcode.symm.trans hcode'
  exact ⟨hreads, hlines⟩

theorem exists_method (h : Around d l q m before after r entries entries' e os os')
    (ht : Transfers l c m stream c' tail pieces p q q') {xs : List Attribute}
    (hname : e'.name = e.name) (hdescriptor : e'.descriptor = e.descriptor)
    (hcode : e'.code? = some (c'.code, c'.handlers, xs)) :
    ∃ m' : Method, m'.index = m.index ∧ m'.name = m.name ∧ m'.descriptor = m.descriptor ∧
      m'.Reads q' c'.code c'.handlers ∧
      Method.ofEntry q' before.length e' r.access = .ok (some m') := by
  obtain ⟨ss, gs, hread, -⟩ := ht.reads_new
  obtain ⟨hof, -⟩ := Method.ofEntry_some.1 h.method
  refine ⟨{ m with codeLength := c'.code.length, code := ss, handlers := gs,
                   lines := Method.linesOf xs }, rfl, rfl, rfl, hread (Method.linesOf xs), ?_⟩
  refine Method.ofEntry_some.2 ⟨⟨?_, ?_, hof.index, hof.access⟩, c'.code, c'.handlers, xs, hcode,
    hread (Method.linesOf xs), rfl⟩
  · rw [hname]
    exact ht.within.utf8 hof.name
  · rw [hdescriptor]
    exact ht.within.utf8 hof.descriptor

variable (h : Around d l q m before after r entries entries' e os os')
  (hat : CodeAt l i a before after r as bs) (hq : q.Serves l) (hexact : l.IsExact q)
  (hq' : q'.Serves ({ setCode l i body with pool } : ClassFile)) (hw : q.Within q')
  (hvalid : ({ setCode l i body with pool } : ClassFile).Valid)
  (he' : RawMember.ReadsAs q' { r with attributes := as ++ ⟨a.name, body⟩ :: bs } e')

include h hat hexact hq' hw hvalid he'

theorem readStructure : ClassStructure.read ({ setCode l i body with pool } : ClassFile).write =
    .ok ⟨q', l.thisClass, l.interfaces, entries ++ e' :: entries'⟩ := by
  obtain ⟨fs, hfs⟩ := RawMember.exists_readsAs hexact.fields
  obtain ⟨xs, hxs⟩ := Result.exists_forall₂ hexact.attributes
  have hmember : ∀ (r : RawMember) e, r.ReadsAs q e → r.ReadsAs q' e := fun _ _ hr => hr.mono hw
  have hes' : List.Forall₂ (RawMember.ReadsAs q') (setCode l i body).methods
      (entries ++ e' :: entries') := by
    rw [hat.setCode]
    exact List.rel_append (h.earlier.imp hmember) (.cons he' (h.later.imp hmember))
  exact ClassFile.readStructure_write hvalid hq'.read (hfs.imp hmember) hes'
    (hxs.imp fun _ _ hx => hx.mono hw)

include hq

theorem parses_new (hm' : Method.ofEntry q' before.length e' r.access = .ok (some m')) :
    Class.parse ({ setCode l i body with pool } : ClassFile).write =
      .ok { d with methods := (os ++ some m' :: os').filterMap id } := by
  have hmethods : (setCode l i body).methods =
      before ++ { r with attributes := as ++ ⟨a.name, body⟩ :: bs } :: after := by
    rw [hat.setCode]
  have hlength : (entries ++ e' :: entries').length = (setCode l i body).methods.length := by
    rw [hmethods, List.length_append, List.length_append, List.length_cons, List.length_cons,
      h.earlier.length_eq, h.later.length_eq]
  have hnew : Class.methodsOf ⟨q', l.thisClass, l.interfaces, entries ++ e' :: entries'⟩
      { setCode l i body with pool } = .ok ((os ++ some m' :: os').filterMap id) :=
    (Class.methodsOf_append rfl hmethods h.earlier.length_eq.symm).2 ⟨os, some m', os',
      Class.methodsFrom_within hw h.methodsEarlier, hm',
      Class.methodsFrom_within hw h.methodsLater, rfl⟩
  have hstructure := h.readStructure hat hexact hq' hw hvalid he'
  refine Class.parse_iff.2 ⟨_, _, hstructure, ClassFile.read_iff.2 ⟨hvalid, rfl⟩, ?_⟩
  refine h.reads.extend hq ?_ hw hexact.attributes ?_ ?_ ?_ hnew
  · exact hq'
  · rfl
  · rfl
  · exact hlength.symm

end Around

theorem CodeAt.reads (h : CodeAt l i a before after r as bs) (hvalid : l.Valid) (hq : q.Serves l)
    (hexact : l.IsExact q) (hparse : Class.parse l.write = .ok d) (hm : m ∈ d.methods)
    (hi : m.index = i) (hc : CodeBody.read a.body = .ok c) : m.Reads q c.code c.handlers := by
  obtain ⟨entries, entries', ⟨name, descriptor, attributes⟩, os, os', hsame⟩ :=
    h.exists_around hvalid hq hexact hparse hm hi
  obtain ⟨xs, hxs⟩ := Result.exists_forall₂ ((h.exact hexact).2 c hc)
  obtain ⟨ys, zs, rfl, -, -, hfirst⟩ := h.entry hq hc hxs hsame.member
  exact (hsame.reads_method (MethodEntry.code?_append hfirst)).1

theorem CodeAt.exists_parse (h : CodeAt l i a before after r as bs) (hvalid : l.Valid)
    (hq : q.Serves l) (hexact : l.IsExact q) (hparse : Class.parse l.write = .ok d)
    (hm : m ∈ d.methods) (hi : m.index = i) (hc : CodeBody.read a.body = .ok c)
    (ht : Transfers l c m stream c' tail pieces p q q') {pool : ConstantTable}
    (hq' : q'.Serves ({ Assembly.setCode l i c'.write with pool } : ClassFile)) (hpool : pool.Valid)
    (hlen : c'.write.length < 4294967296) :
    ∃ ms ms' m', d.methods = ms ++ m :: ms' ∧ m'.index = m.index ∧ m'.name = m.name ∧
      m'.descriptor = m.descriptor ∧ m'.Reads q' c'.code c'.handlers ∧
      Class.parse ({ Assembly.setCode l i c'.write with pool } : ClassFile).write
        = .ok { d with methods := ms ++ m' :: ms' } := by
  obtain ⟨entries, entries', e, os, os', hsame⟩ := h.exists_around hvalid hq hexact hparse hm hi
  obtain ⟨xs, e', xs', -, -, he', hname, hdescriptor, hnew, -⟩ :=
    h.exists_readsAs ht.recodes hq hexact hc ht.within hlen hsame.member
  obtain ⟨m', hindex, hname', hdescriptor', hreads, hentry⟩ :=
    hsame.exists_method ht hname hdescriptor hnew
  have hvalid' := (h.valid_iff hvalid hpool c'.write).2 hlen
  refine ⟨os.filterMap id, os'.filterMap id, m', ?_, hindex, hname', hdescriptor', hreads, ?_⟩
  · rw [hsame.methods_eq h, List.filterMap_append]
    rfl
  · have hreread := hsame.parses_new h hq hexact hq' ht.within hvalid' he' hentry
    rw [List.filterMap_append] at hreread
    exact hreread

theorem Around.parses (h : Around d l q m before after r entries entries' e os os')
    (hat : CodeAt l i a before after r as bs) (hq : q.IsOf l.pool) (hexact : l.IsExact q)
    {pool : ConstantTable} (hq' : q'.IsOf pool) (hw : q.Within q') {body : Bytes}
    (hvalid : ({ setCode l i body with pool } : ClassFile).Valid)
    (he' : RawMember.ReadsAs q' { r with attributes := as ++ ⟨a.name, body⟩ :: bs } e')
    (hm' : Method.ofEntry q' before.length e' r.access = .ok (some m')) :
    Class.parse ({ setCode l i body with pool } : ClassFile).write =
      .ok { d with methods := (os ++ some m' :: os').filterMap id } :=
  h.parses_new hat hq.serves hexact (Pool.IsOf.serves hq') hw hvalid he' hm'

/-- A class whose attributes end where their lengths say is accepted again once the code of a
method was replaced, and the method's code is then what the stream emits: the same instructions in
the same order, with jumps to the first instruction that stands for each target. The length of a
Code attribute takes four bytes, so the new class file must be under four gigabytes. -/
theorem replaceCode_parses (name : String) (data out : Bytes) (c : Class) (l : ClassFile)
    (q : Pool) (m : Method) (stream : List StreamItem) (hparse : Class.parse data = .ok c)
    (hl : ClassFile.read data = .ok l) (hq : q.IsOf l.pool) (hexact : l.IsExact q)
    (hm : m ∈ c.methods) (hwide : ∀ s ∈ m.code, s.instruction.IsLegalWide)
    (hs : Rewrites m.code stream) (h : replaceCode name data m stream = .ok out)
    (hsize : out.length < 4294967296) :
    ∃ c' l' m' f, Class.parse out = .ok c' ∧ ClassFile.read out = .ok l' ∧ m' ∈ c'.methods ∧
      m'.index = m.index ∧
      (∀ e ∈ stream.flatMap (emitted m.code), ∀ t ∈ e.instruction.targets,
        ∃ d ∈ stream.flatMap (emitted m.code), d.origin = some t) ∧
      List.Forall₂ (Carries l'.pool.constants f) (stream.flatMap (emitted m.code)) m'.code := by
  obtain ⟨l₀, a, b, b', tail, pieces, p, hl₀, ha, hb, -, hr, rfl⟩ := assemble_ok (replaceCode_ok h)
  obtain rfl : l = l₀ := Except.ok.inj (hl.symm.trans hl₀)
  obtain ⟨hvalid, rfl⟩ := ClassFile.read_iff.1 hl
  obtain ⟨before, after, r, as, bs, hat⟩ := codeAt_of_codeOf? ha
  obtain ⟨q', hq', hw⟩ := hq.extend hr.extends
  have hlen : b'.write.length < 4294967296 := by
    rw [hat.write] at hsize
    simp only [List.length_append] at hsize
    omega
  obtain ⟨entries, entries', e, os, os', hsame⟩ := hat.around hvalid hq hexact hparse hm rfl
  obtain ⟨hof, code, handlers, xs, hcode, hreads, -⟩ := Method.ofEntry_some.1 hsame.method
  obtain ⟨⟨ys, hold⟩, e', zs, he', hname, hdescriptor, hnew⟩ :=
    hat.exists_entry hr hq hexact hb hw hlen hsame.member
  obtain ⟨rfl, rfl, rfl⟩ : code = b.code ∧ handlers = b.handlers ∧ xs = ys := by
    have heq := hcode.symm.trans hold
    simp only [Option.some.injEq, Prod.mk.injEq] at heq
    exact heq
  have hrel : Relocates l b m stream b' tail pieces p q q' := ⟨hr, hs, hreads, hwide, hw, hq'⟩
  obtain ⟨ss, gs, hread, hcarries⟩ := hrel.reads_new
  obtain ⟨m', hindex, rfl, hm'⟩ : ∃ m' : Method, m'.index = m.index ∧ m'.code = ss ∧
      Method.ofEntry q' before.length e' r.access = .ok (some m') := by
    refine ⟨{ m with codeLength := b'.code.length, code := ss, handlers := gs,
                     lines := Method.linesOf zs }, rfl, rfl, ?_⟩
    refine Method.ofEntry_some.2 ⟨⟨?_, ?_, hof.index, hof.access⟩, b'.code, b'.handlers, zs, hnew,
      hread (Method.linesOf zs), rfl⟩
    · rw [hname]
      exact hw.utf8 hof.name
    · rw [hdescriptor]
      exact hw.utf8 hof.descriptor
  have hvalid' := (hat.valid_iff hvalid hq'.valid b'.write).2 hlen
  refine ⟨_, _, m', p.image, hsame.parses hat hq hexact hq' hw hvalid' he' hm',
    ClassFile.read_iff.2 ⟨hvalid', rfl⟩, ?_, hindex, ?_, hcarries⟩
  · exact List.mem_filterMap.2 ⟨_, List.mem_append_right _ List.mem_cons_self, rfl⟩
  · intro e he t ht
    have hmem := hrel.emitted_targets he t ht
    rw [Method.offsets, ← hs.origins] at hmem
    exact List.mem_filterMap.1 hmem

end Assembly

namespace Specimen

def isExact (data : Bytes) : Bool :=
  match ClassFile.read data with
  | .ok l => match Pool.ofTable l.pool with
      | .ok q => decide (l.pool.IsFull ∧ l.IsExact q)
      | .error _ => false
  | .error _ => false

theorem exact_of_isExact {data : Bytes} (h : isExact data = true) :
    ∃ l q, ClassFile.read data = .ok l ∧ Pool.IsOf q l.pool ∧ l.IsExact q := by
  unfold isExact at h
  split at h
  · rename_i l hl
    split at h
    · rename_i q hq
      obtain ⟨hfull, hexact⟩ := of_decide_eq_true h
      exact ⟨l, q, hl, ⟨(ClassFile.read_iff.1 hl).1.pool, hfull, hq⟩, hexact⟩
    · cases h
  · cases h

theorem exact_classFile :
    ∃ l q, ClassFile.read classFile = .ok l ∧ Pool.IsOf q l.pool ∧ l.IsExact q :=
  exact_of_isExact (by decide +kernel)

theorem rewrites_pushing : Assembly.Rewrites method.code pushing where
  ordinals := by decide
  nonempty := by simp [pushing]
  replacement := by
    intro ordinal is his i hi
    simp only [pushing, List.mem_cons, List.not_mem_nil, reduceCtorEq, StreamItem.replaced.injEq,
      false_or, or_false] at his
    obtain ⟨-, rfl⟩ := his
    obtain rfl := List.mem_singleton.1 hi
    exact .integer 70000
  targets := by
    intro ordinal is his i hi t ht
    simp only [pushing, List.mem_cons, List.not_mem_nil, reduceCtorEq, StreamItem.replaced.injEq,
      false_or, or_false] at his
    obtain ⟨-, rfl⟩ := his
    obtain rfl := List.mem_singleton.1 hi
    cases ht

theorem wide_method : ∀ s ∈ method.code, s.instruction.IsLegalWide := by
  simp [method, Instruction.IsLegalWide, Instruction.plain]

theorem length_pushing {out : Bytes}
    (h : Assembly.replaceCode "S" classFile method pushing = .ok out) :
    out.length < 4294967296 := by
  have hsize : (match Assembly.replaceCode "S" classFile method pushing with
    | .ok out => decide (out.length < 1000)
    | .error _ => false) = true := by decide +kernel
  rw [h] at hsize
  have hlt := of_decide_eq_true hsize
  omega

end Specimen

theorem Assembly.replaceCode_parses_pushing : ∃ out c' m',
    replaceCode "S" Specimen.classFile Specimen.method Specimen.pushing = .ok out ∧
      Class.parse out = .ok c' ∧ m' ∈ c'.methods ∧ m'.code.length = 8 := by
  obtain ⟨l, q, hl, hq, hexact⟩ := Specimen.exact_classFile
  obtain ⟨out, hout⟩ := Specimen.replaceCode_pushing
  obtain ⟨c', l', m', f, hc', -, hm', -, -, hcarries⟩ := replaceCode_parses "S" Specimen.classFile
    out Specimen.owner l q Specimen.method Specimen.pushing Specimen.parse_classFile hl hq hexact
    List.mem_cons_self Specimen.wide_method Specimen.rewrites_pushing hout
    (Specimen.length_pushing hout)
  exact ⟨out, c', m', hout, hc', hm', hcarries.length_eq.symm⟩

namespace Specimen

def incremented : List StreamItem := [.replaced 0 [.plain Opcode.iconst1], .kept 1]

theorem rewrites_incremented : Assembly.Rewrites hidden.code incremented :=
  .of_isPlain (by decide) (by decide)

theorem rewrites_stretched (lines : List LineEntry) :
    Assembly.Rewrites (padded lines).code stretched := by
  have hrewrites : Assembly.Rewrites (padded []).code stretched :=
    .of_isPlain (by decide) (by decide)
  exact hrewrites

end Specimen

/-- Where the structure of a class and the lengths of its attributes do not agree, the code of a
method can be replaced without a change to it, and another method has what the stream emits. Where
the body of a Code attribute grows past what its length can say, the class is not accepted again. -/
theorem Assembly.replaceCode_misses_outgrown :
    (Class.parse Specimen.overlapFile = .ok Specimen.overlaps ∧
      (∃ l, ClassFile.read Specimen.overlapFile = .ok l ∧ l.pool.IsFull) ∧
      (∀ s ∈ Specimen.hidden.code, s.instruction.IsLegalWide) ∧
      Rewrites Specimen.hidden.code Specimen.incremented ∧
      (Specimen.incremented.flatMap (emitted Specimen.hidden.code)).map (·.instruction)
        = [.plain Opcode.iconst1, .plain Opcode.ireturn] ∧
      ∃ out, replaceCode "S" Specimen.overlapFile Specimen.hidden Specimen.incremented = .ok out ∧
        Class.parse out = .ok { Specimen.overlaps with
          methods := [Specimen.hidden, { Specimen.two with code :=
            [⟨0, .plain Opcode.iconst1, .other⟩, ⟨1, .plain Opcode.ireturn, .other⟩] }] }) ∧
    ∃ (l : ClassFile) (lines : List LineEntry) (out : Bytes), l.pool.IsFull ∧
      Class.parse l.write = .ok { Specimen.owner with methods := [Specimen.padded lines] } ∧
      (∀ s ∈ (Specimen.padded lines).code, s.instruction.IsLegalWide) ∧
      Rewrites (Specimen.padded lines).code Specimen.stretched ∧
      replaceCode "S" l.write (Specimen.padded lines) Specimen.stretched = .ok out ∧
      ∀ c, Class.parse out ≠ .ok c := by
  refine ⟨⟨Specimen.replaceCode_overlapFile.1, Specimen.replaceCode_overlapFile.2.1, by decide,
    Specimen.rewrites_incremented, by decide, by decide +kernel⟩, ?_⟩
  obtain ⟨l, lines, out, hfull, hparse, hout, hread⟩ := Specimen.exists_outgrown
  refine ⟨l, lines, out, hfull, hparse, ?_, Specimen.rewrites_stretched lines, hout, fun c hc => ?_⟩
  · show ∀ s ∈ (Specimen.padded []).code, s.instruction.IsLegalWide
    decide
  · obtain ⟨-, l', -, hl', -⟩ := Class.parse_iff.1 hc
    exact hread l' hl'

end BytecodeMutation
