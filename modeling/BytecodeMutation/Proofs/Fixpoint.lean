import BytecodeMutation.Proofs.Keeping
import BytecodeMutation.Proofs.Rewriting

namespace BytecodeMutation

open Instruction

namespace Assembly

variable {l l' : ClassFile} {c c' : CodeBody} {m m' : Method} {stream : List StreamItem}
  {tail : PoolTail} {pieces : List Piece} {p : Placement} {q q' : Pool} {i : Nat}
  {a : RawAttribute} {before after : List RawMember} {r : RawMember} {as bs : List RawAttribute}

namespace Relocates

variable (h : Relocates l c m stream c' tail pieces p q q')
  (hreads : m'.Reads q' c'.code c'.handlers)

include h hreads

theorem sites_new : m'.code.map (fun s => (s.offset, s.instruction)) = p.placed.map fun d =>
    (d.2, ⟨d.1.instruction.opcode, d.1.instruction.operand.mapTargets p.image⟩) :=
  (Method.sites_iff.1 hreads.sites).1.unique h.transfers.decodes_new

theorem offsets_new : m'.offsets = p.offsets := by
  have hsites := congrArg (List.map Prod.fst) (h.sites_new hreads)
  rw [List.map_map, List.map_map] at hsites
  exact hsites.trans (Placement.map_snd_placed h.recodes.places)

theorem instructions_new : m'.code.map (·.instruction) =
    (p.pieces.map (·.instruction)).map fun i => ⟨i.opcode, i.operand.mapTargets p.image⟩ := by
  have hsites := congrArg (List.map Prod.snd) (h.sites_new hreads)
  rw [List.map_map, List.map_map] at hsites
  rw [← Placement.map_fst_placed h.recodes.places, List.map_map, List.map_map]
  exact hsites

theorem encodes_new : Encodes .ok 0 (m'.code.map (·.instruction)) c'.code := by
  rw [h.instructions_new hreads]
  refine h.recodes.encodes.mapTargets fun i hi t ht => ?_
  obtain ⟨s, hs, rfl⟩ := List.mem_map.1 hi
  simp only [target, (h.transfers.arranges.map_image (h.transfers.targets hs t ht)).1]

theorem placed_new : placedFrom 0 (m'.code.map (·.instruction)) =
    m'.code.map fun s => (s.offset, s.instruction) := by
  rw [h.instructions_new hreads, placedFrom_mapTargets,
    Placement.placedFrom_placed h.recodes.places, List.map_map, h.sites_new hreads]
  rfl

theorem boundary_new {s t : Nat} (ht : p.map[s]? = some t) : m'.IsBoundary t := by
  have hend := h.recodes.encodes.length
  rw [Nat.zero_add] at hend
  rw [h.recodes.places.map] at ht
  rcases Placement.mem_of_mapOf ht with ⟨-, rfl⟩ | ⟨d, hd, -, rfl⟩
  · exact .inr (hend.symm.trans hreads.length.symm)
  · refine .inl ?_
    rw [h.offsets_new hreads]
    exact (List.of_mem_zip hd).2

theorem steady (hq : q.IsOf l.pool) (hq' : q'.IsOf l'.pool)
    (hexact : ∀ b ∈ c.attributes, b.IsExact q) : Steady l' q' c' m' where
  reads := hreads
  length := h.recodes.length_code
  encodes := h.encodes_new hreads
  placed := h.placed_new hreads
  attributes := by
    obtain ⟨os, has, hattributes⟩ := h.recodes.attributes
    rw [hattributes]
    intro b hb
    obtain ⟨_, ho, rfl⟩ := List.mem_filterMap.1 hb
    obtain ⟨b₀, hb₀, hmove⟩ := Result.exists_of_mem_mapM has ho
    refine moveAttribute_aligned h.recodes.places.isShort (h.boundary_new hreads) ?_ hmove
    exact fun hname => ClassFile.named_within hq.serves hq'.serves h.within hname (hexact b₀ hb₀)

end Relocates

theorem CodeAt.codeOf?_setCode (h : CodeAt l i a before after r as bs) (hq : q.Serves l)
    {pool : ConstantTable} {body : Bytes}
    (hq' : q'.Serves ({ Assembly.setCode l i body with pool } : ClassFile)) (hw : q.Within q')
    (hexact : ∀ b ∈ r.attributes, b.IsExact q) :
    ({ Assembly.setCode l i body with pool } : ClassFile).codeOf? i = some ⟨a.name, body⟩ := by
  have hnamed : ∀ b ∈ r.attributes,
      ({ Assembly.setCode l i body with pool } : ClassFile).named "Code" b = l.named "Code" b :=
    fun b hb => ClassFile.named_within hq hq' hw (by decide) (hexact b hb)
  rw [h.attributes] at hnamed
  obtain ⟨has, hrest⟩ := List.forall_mem_append.1 hnamed
  have hcode : ({ Assembly.setCode l i body with pool } : ClassFile).named "Code" a = true :=
    (hrest a List.mem_cons_self).trans h.named
  have hat : CodeAt { Assembly.setCode l i body with pool } i ⟨a.name, body⟩ before after
      { r with attributes := as ++ ⟨a.name, body⟩ :: bs } as bs :=
    ⟨by rw [h.setCode], h.index, rfl, hcode, fun b hb => (has b hb).trans (h.first b hb)⟩
  exact hat.codeOf?

structure Rereads (l : ClassFile) (q : Pool) (b : CodeBody) (i : Nat) (d : Class) (m : Method) :
    Prop where
  parse : Class.parse l.write = .ok d
  file : ClassFile.read l.write = .ok l
  mem : m ∈ d.methods
  index : m.index = i
  reads : m.Reads q b.code b.handlers
  body : ∃ a, l.codeOf? i = some a ∧ CodeBody.read a.body = .ok b

theorem exists_rereads {name : String} {data out : Bytes} {d : Class}
    (hparse : Class.parse data = .ok d) (hl : ClassFile.read data = .ok l) (hq : q.IsOf l.pool)
    (hexact : l.IsExact q) (hm : m ∈ d.methods)
    (hwide : ∀ s ∈ m.code, s.instruction.IsLegalWide) (hs : Rewrites m.code stream)
    (h : replaceCode name data m stream = .ok out) (hsize : out.length < 4294967296) :
    ∃ l' q' b b' tail pieces p d' m', Relocates l b m stream b' tail pieces p q q' ∧
      (∀ x ∈ b.attributes, x.IsExact q) ∧ q'.IsOf l'.pool ∧ out = l'.write ∧
      Rereads l' q' b' m.index d' m' := by
  obtain ⟨l₀, a, b, b', tail, pieces, p, hl₀, ha, hb, -, hr, rfl⟩ := assemble_ok (replaceCode_ok h)
  obtain rfl : l = l₀ := Except.ok.inj (hl.symm.trans hl₀)
  obtain ⟨hvalid, rfl⟩ := ClassFile.read_iff.1 hl
  obtain ⟨before, after, r, as, bs, hat⟩ := codeAt_of_codeOf? ha
  obtain ⟨q', hq', hw⟩ := hq.extend hr.extends
  have hlen : b'.write.length < 4294967296 :=
    Nat.lt_of_le_of_lt (hat.length_le_write b'.write _) hsize
  have hserves : q'.Serves ({ setCode l m.index b'.write with pool := tail.extend l.pool } :
      ClassFile) := Pool.IsOf.serves hq'
  have hreads := hat.reads hvalid hq.serves hexact hparse hm rfl hb
  have hrel : Relocates l b m stream b' tail pieces p q q' := ⟨hr, hs, hreads, hwide, hw, hq'⟩
  obtain ⟨ms, ms', m', -, hindex, -, -, hreads', hparse'⟩ := hat.exists_parse hvalid hq.serves
    hexact hparse hm rfl hb hrel.transfers hserves hq'.valid hlen
  have hvalid' := (hat.valid_iff hvalid hq'.valid b'.write).2 hlen
  obtain ⟨hattributes, hbody⟩ := hat.exact hexact
  have hbvalid := hr.valid_code (CodeBody.read_iff.1 hb).1 hlen
  refine ⟨_, q', b, b', tail, pieces, p, _, m', hrel, hbody b hb, hq', rfl, hparse',
    ClassFile.read_iff.2 ⟨hvalid', rfl⟩, List.mem_append_right _ List.mem_cons_self, hindex,
    hreads', _, hat.codeOf?_setCode hq.serves hserves hw hattributes,
    CodeBody.read_iff.2 ⟨hbvalid, rfl⟩⟩

/-- Where the attributes of a class end where their lengths say, what comes out when the code of a
method is replaced is accepted, and comes out again when all instructions of that method are kept.
The length of a Code attribute takes four bytes, so the new class file must be under four
gigabytes. -/
theorem replaceCode_fixpoint (name : String) (data out : Bytes) (d : Class) (l : ClassFile)
    (q : Pool) (m : Method) (stream : List StreamItem) (hparse : Class.parse data = .ok d)
    (hl : ClassFile.read data = .ok l) (hq : q.IsOf l.pool) (hexact : l.IsExact q)
    (hm : m ∈ d.methods) (hwide : ∀ s ∈ m.code, s.instruction.IsLegalWide)
    (hs : Rewrites m.code stream) (h : replaceCode name data m stream = .ok out)
    (hsize : out.length < 4294967296) :
    ∃ d' m', Class.parse out = .ok d' ∧ m' ∈ d'.methods ∧ m'.index = m.index ∧
      replaceCode d'.name out m' (keeping m'.code.length) = .ok out := by
  obtain ⟨l', q', b, b', tail, pieces, p, d', m', hrel, hbody, hq', rfl, hagain⟩ :=
    exists_rereads hparse hl hq hexact hm hwide hs h hsize
  have hsteady := hrel.steady hagain.reads hq hq' hbody
  obtain ⟨a, ha, hread⟩ := hagain.body
  rw [← hagain.index] at ha
  exact ⟨d', m', hagain.parse, hagain.mem, hagain.index,
    hsteady.replaceCode_keeping hagain.file ha hread d'.name⟩

end Assembly

theorem Assembly.replaceCode_fixpoint_pushing : ∃ out d' m',
    replaceCode "S" Specimen.classFile Specimen.method Specimen.pushing = .ok out ∧
      Class.parse out = .ok d' ∧ m' ∈ d'.methods ∧
      replaceCode d'.name out m' (keeping m'.code.length) = .ok out := by
  obtain ⟨l, q, hl, hq, hexact⟩ := Specimen.exact_classFile
  obtain ⟨out, hout⟩ := Specimen.replaceCode_pushing
  obtain ⟨d', m', hd', hm', -, hagain⟩ := replaceCode_fixpoint "S" Specimen.classFile out
    Specimen.owner l q Specimen.method Specimen.pushing Specimen.parse_classFile hl hq hexact
    List.mem_cons_self Specimen.wide_method Specimen.rewrites_pushing hout
    (Specimen.length_pushing hout)
  exact ⟨out, d', m', hout, hd', hm', hagain⟩

namespace Specimen

def hiddenReturn : Identifier := ⟨⟨"S", "g", "()I"⟩, [1], "jmutate.operators.RETURN_VALS"⟩

end Specimen

/-- The mutant of a method whose Code attribute is hidden is no class: the attributes of the code
that is parsed are counted in bytes that the new code displaces. -/
theorem Assembly.replaceCode_unreadable :
    Class.parse Specimen.shadowFile = .ok { Specimen.owner with methods := [Specimen.hidden] } ∧
      (∃ l, ClassFile.read Specimen.shadowFile = .ok l ∧ l.pool.IsFull) ∧
      (∀ s ∈ Specimen.hidden.code, s.instruction.IsLegalWide) ∧
      ∃ p, Engine.prepare (fun _ => .ok (some Specimen.shadowFile)) Specimen.hiddenReturn = .ok p ∧
        p.application.method = Specimen.hidden ∧
        ∃ out, replaceCode "S" Specimen.shadowFile Specimen.hidden p.application.stream = .ok out ∧
          ∀ d, Class.parse out = .ok d → False := by
  have hwide : ∀ s ∈ Specimen.hidden.code, s.instruction.IsLegalWide := by
    simp [Specimen.hidden, IsLegalWide, plain]
  exact ⟨Specimen.parse_shadowFile, by decide +kernel, hwide, by decide +kernel⟩

end BytecodeMutation
