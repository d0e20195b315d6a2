import BytecodeMutation.Proofs.AlignedTables
import BytecodeMutation.Proofs.Application
import BytecodeMutation.Proofs.Parsing
import BytecodeMutation.Proofs.Pieces

namespace BytecodeMutation

namespace Placement

variable {oldLength : Nat} {pieces : List Piece} {p : Placement}

theorem Places.isShort (h : Places oldLength pieces p) : p.map.IsShort := by
  intro t moved hmoved
  have hlength := h.length
  rw [h.map] at hmoved
  simp only [maxCodeLength] at hlength
  rcases mem_of_mapOf hmoved with ⟨-, rfl⟩ | ⟨d, hd, -, rfl⟩
  · omega
  · have hoffset := (List.of_mem_zip hd).2
    rw [h.offsets] at hoffset
    obtain ⟨e, he, heq⟩ := List.mem_map.1 hoffset
    have hlt := (Instruction.placedFrom_lt he).2
    omega

end Placement

namespace Assembly

structure Recodes (l : ClassFile) (c : CodeBody) (m : Method) (stream : List StreamItem)
    (c' : CodeBody) (tail : PoolTail) (pieces : List Piece) (p : Placement) : Prop where
  emits : piecesFrom m.code.toArray ⟨l.pool.count, [], [], []⟩ [] stream = .ok (pieces, tail)
  places : Placement.Places c.code.length pieces p
  encodes : Instruction.Encodes (target p.map) 0 (p.pieces.map (·.instruction)) c'.code
  handlers : c.handlers.mapM (moveHandler p.map) = .ok c'.handlers
  attributes : ∃ as, c.attributes.mapM (moveAttribute l p.map) = .ok as ∧
    c'.attributes = as.filterMap id

variable {l : ClassFile} {c c' : CodeBody} {m : Method} {stream : List StreamItem}
  {tail : PoolTail} {pieces : List Piece} {p : Placement}

theorem codeFor_ok (h : codeFor l c m stream = .ok (c', tail)) :
    ∃ pieces p, Recodes l c m stream c' tail pieces p := by
  obtain ⟨⟨pieces, tail'⟩, hpieces, h⟩ := Result.bind_ok.1 h
  obtain ⟨p, hp, h⟩ := Result.bind_ok.1 h
  obtain ⟨code, hcode, h⟩ := Result.bind_ok.1 h
  obtain ⟨as, has, h⟩ := Result.bind_ok.1 h
  obtain ⟨handlers, hhandlers, h⟩ := Result.bind_ok.1 h
  cases h
  have hplaces := Placement.ofPieces_ok hp
  rw [hplaces.offsets] at hcode
  obtain ⟨_, rfl, hencodes⟩ := encodeFrom_ok hcode
  exact ⟨pieces, p, hpieces, hplaces, hencodes, hhandlers, as, has, rfl⟩

theorem Recodes.length_code (h : Recodes l c m stream c' tail pieces p) :
    c'.code.length ≤ 65535 := by
  have hend := h.encodes.length
  have hlength := h.places.length
  simp only [Placement.maxCodeLength] at hlength
  omega

theorem length_writes {as bs : List RawAttribute} {os : List (Option RawAttribute)}
    {map : OffsetMap} (hm : map.IsShort) (h : as.mapM (moveAttribute l map) = .ok os)
    (hbs : bs = os.filterMap id) :
    bs.length ≤ as.length ∧ (bs.flatMap RawAttribute.write).length
      ≤ (as.flatMap RawAttribute.write).length + 2048 * as.length := by
  subst hbs
  have hf := Result.mapM_ok.1 h
  clear h
  induction hf with
  | nil => exact ⟨Nat.le_refl _, Nat.le_refl _⟩
  | @cons a o as os hmove _ ih =>
      obtain ⟨hlen, hbytes⟩ := ih
      cases o with
      | none =>
          rw [List.filterMap_cons_none rfl]
          simp only [List.flatMap_cons, List.length_cons, List.length_append]
          exact ⟨by omega, by omega⟩
      | some b =>
          have hb := (moveAttribute_ok hm hmove).2
          rw [List.filterMap_cons_some (f := id) (b := b) rfl]
          simp only [List.flatMap_cons, List.length_cons, List.length_append, RawAttribute.write,
            Bytes.ofNat32, Bytes.length_ofUInt16, Bytes.length_ofUInt32]
          exact ⟨by omega, by omega⟩

theorem RawHandler.length_write (h : RawHandler) : h.write.length = 8 := rfl

theorem Recodes.length_write (h : Recodes l c m stream c' tail pieces p) (hc : c.Valid) :
    c'.write.length ≤ c.write.length + 134281215 := by
  obtain ⟨as, has, hattributes⟩ := h.attributes
  have hcode := h.length_code
  have hhandlers := Instruction.length_mapM_ok h.handlers
  have hcount := hc.attributes.1
  obtain ⟨-, hbytes⟩ := length_writes h.places.isShort has hattributes
  simp only [CodeBody.write, RawAttribute.writeAll, Bytes.ofNat16, Bytes.ofNat32,
    List.length_append, Bytes.length_ofUInt16, Bytes.length_ofUInt32,
    length_flatMap_const RawHandler.length_write, hhandlers]
  omega

theorem replaceCode_ok {name : String} {data out : Bytes}
    (h : replaceCode name data m stream = .ok out) : assemble data m stream = .ok out := by
  unfold replaceCode at h
  split at h
  · rename_i hout
    rw [hout, Except.ok.inj h]
  · cases h
  · cases h

theorem assemble_ok {data out : Bytes} (h : assemble data m stream = .ok out) :
    ∃ l a c c' tail pieces p, ClassFile.read data = .ok l ∧ l.codeOf? m.index = some a ∧
      CodeBody.read a.body = .ok c ∧ c.code.length = m.codeLength ∧
      Recodes l c m stream c' tail pieces p ∧
      out = { setCode l m.index c'.write with pool := tail.extend l.pool }.write := by
  obtain ⟨l, hl, h⟩ := Result.bind_ok.1 h
  split at h
  · cases h
  · rename_i a ha
    obtain ⟨c, hc, h⟩ := Result.bind_ok.1 h
    split at h
    · cases h
    · rename_i hlen
      obtain ⟨⟨c', tail⟩, hcode, h⟩ := Result.bind_ok.1 h
      cases h
      obtain ⟨pieces, p, hr⟩ := codeFor_ok hcode
      exact ⟨l, a, c, c', tail, pieces, p, hl, ha, hc, not_not.1 hlen, hr, rfl⟩

theorem setBody_append {isCode : RawAttribute → Bool} {a : RawAttribute} {as bs : List RawAttribute}
    (ha : isCode a = true) (has : ∀ b ∈ as, isCode b = false) (body : Bytes) :
    setBody isCode body (as ++ a :: bs) = as ++ ⟨a.name, body⟩ :: bs := by
  induction as with
  | nil => simp [setBody, ha]
  | cons b as ih =>
      obtain ⟨hb, has⟩ := List.forall_mem_cons.1 has
      simp [setBody, hb, ih has]

structure CodeAt (l : ClassFile) (i : Nat) (a : RawAttribute) (before after : List RawMember)
    (r : RawMember) (as bs : List RawAttribute) : Prop where
  methods : l.methods = before ++ r :: after
  index : before.length = i
  attributes : r.attributes = as ++ a :: bs
  named : l.named "Code" a = true
  first : ∀ b ∈ as, l.named "Code" b = false

theorem codeAt_of_codeOf? {i : Nat} {a : RawAttribute} (h : l.codeOf? i = some a) :
    ∃ before after r as bs, CodeAt l i a before after r as bs := by
  obtain ⟨r, hr, ha⟩ := Option.bind_eq_some_iff.1 h
  obtain ⟨hlt, rfl⟩ := List.getElem?_eq_some_iff.1 hr
  obtain ⟨hnamed, as, bs, has, hfirst⟩ := List.find?_eq_some_iff_append.1 ha
  refine ⟨l.methods.take i, l.methods.drop (i + 1), l.methods[i], as, bs, ?_, ?_, has, hnamed, ?_⟩
  · rw [← List.drop_eq_getElem_cons hlt, List.take_append_drop]
  · exact List.length_take_of_le (Nat.le_of_lt hlt)
  · exact fun b hb => by simpa using hfirst b hb

variable {i : Nat} {a : RawAttribute} {before after : List RawMember} {r : RawMember}
  {as bs : List RawAttribute}

theorem CodeAt.codeOf? (h : CodeAt l i a before after r as bs) : l.codeOf? i = some a := by
  have hmethod : l.methods[i]? = some r := by
    rw [h.methods, ← h.index]
    simp
  refine Option.bind_eq_some_iff.2 ⟨r, hmethod, List.find?_eq_some_iff_append.2 ?_⟩
  refine ⟨h.named, as, bs, h.attributes, fun b hb => ?_⟩
  rw [h.first b hb]
  rfl

theorem modify_append {α : Type} {f : α → α} {x : α} {before after : List α} :
    (before ++ x :: after).modify before.length f = before ++ f x :: after := by
  induction before with
  | nil => rfl
  | cons b before ih => simp [List.modify_succ_cons, ih]

theorem CodeAt.setCode (h : CodeAt l i a before after r as bs) (body : Bytes) :
    setCode l i body = { l with
      methods := before ++ { r with attributes := as ++ ⟨a.name, body⟩ :: bs } :: after } := by
  have hbody : setBody (l.named "Code") body r.attributes = as ++ ⟨a.name, body⟩ :: bs := by
    rw [h.attributes]
    exact setBody_append h.named h.first body
  simp only [Assembly.setCode]
  rw [h.methods, ← h.index, modify_append, hbody]

def headBytes (l : ClassFile) : Bytes :=
  Bytes.ofUInt32 ClassFile.magic ++ Bytes.ofUInt16 l.minor ++ Bytes.ofUInt16 l.major

def midBytes (l : ClassFile) (a : RawAttribute) (before after : List RawMember) (r : RawMember)
    (as bs : List RawAttribute) : Bytes :=
  Bytes.ofUInt16 l.access ++ Bytes.ofUInt16 l.thisClass ++ Bytes.ofUInt16 l.superClass
    ++ Bytes.ofNat16 l.interfaces.length ++ l.interfaces.flatMap Bytes.ofUInt16
    ++ RawMember.writeAll l.fields ++ Bytes.ofNat16 (before.length + after.length + 1)
    ++ before.flatMap RawMember.write ++ Bytes.ofUInt16 r.access ++ Bytes.ofUInt16 r.name
    ++ Bytes.ofUInt16 r.descriptor ++ Bytes.ofNat16 (as.length + bs.length + 1)
    ++ as.flatMap RawAttribute.write ++ Bytes.ofUInt16 a.name

def endBytes (l : ClassFile) (after : List RawMember) (bs : List RawAttribute) : Bytes :=
  bs.flatMap RawAttribute.write ++ after.flatMap RawMember.write
    ++ RawAttribute.writeAll l.attributes

theorem CodeAt.write (h : CodeAt l i a before after r as bs) (body : Bytes)
    (pool : ConstantTable) : { Assembly.setCode l i body with pool }.write =
      headBytes l ++ Bytes.ofUInt16 pool.count ++ pool.body ++ midBytes l a before after r as bs
        ++ Bytes.ofNat32 body.length ++ body ++ endBytes l after bs := by
  rw [h.setCode]
  simp only [ClassFile.write, ConstantTable.write, headBytes, midBytes, endBytes,
    RawMember.writeAll, RawMember.write, RawAttribute.writeAll, RawAttribute.write,
    List.length_append, List.length_cons, List.flatMap_append, List.flatMap_cons,
    List.append_assoc, Nat.add_assoc]

theorem CodeAt.length_le_write (h : CodeAt l i a before after r as bs) (body : Bytes)
    (pool : ConstantTable) :
    body.length ≤ ({ Assembly.setCode l i body with pool } : ClassFile).write.length := by
  rw [h.write]
  simp only [List.length_append]
  omega

theorem CodeAt.setCode_self (h : CodeAt l i a before after r as bs) :
    { Assembly.setCode l i a.body with pool := l.pool } = l := by
  rw [h.setCode]
  have hr : { r with attributes := as ++ ⟨a.name, a.body⟩ :: bs } = r := by
    rw [← h.attributes]
  rw [hr, ← h.methods]

/-- Class files that differ in the end of the pool and in the body of a method's first Code
attribute, and in nothing else. -/
structure CodeDiffers (l l' : ClassFile) (i : Nat) (a : RawAttribute) (body : Bytes) : Prop where
  pool : l.pool.constants <+: l'.pool.constants
  rest : l' = { l with pool := l'.pool, methods := l'.methods }
  methods : ∃ before after r as bs, CodeAt l i a before after r as bs ∧
    l'.methods = before ++ { r with attributes := as ++ ⟨a.name, body⟩ :: bs } :: after

theorem CodeAt.differs (h : CodeAt l i a before after r as bs) (body : Bytes) (tail : PoolTail) :
    CodeDiffers l { Assembly.setCode l i body with pool := tail.extend l.pool } i a body where
  pool := List.prefix_append ..
  rest := rfl
  methods := ⟨before, after, r, as, bs, h, by rw [h.setCode]⟩

theorem extend_body (tail : PoolTail) (pool : ConstantTable) :
    (tail.extend pool).body = pool.body ++ Constant.writeAll tail.constants.reverse := by
  simp [ConstantTable.body, PoolTail.extend, Constant.writeAll]

theorem CodeAt.valid_iff (h : CodeAt l i a before after r as bs) (hl : l.Valid)
    {pool : ConstantTable} (hpool : pool.Valid) (body : Bytes) :
    ({ Assembly.setCode l i body with pool } : ClassFile).Valid ↔ body.length < 4294967296 := by
  have hmethods := hl.methods
  rw [h.methods] at hmethods
  obtain ⟨hcount, hall⟩ := hmethods
  have hr := hall r (List.mem_append_right _ List.mem_cons_self)
  rw [RawMember.Valid, h.attributes] at hr
  obtain ⟨hattributes, heach⟩ := hr
  rw [h.setCode]
  constructor
  · intro hv
    have hnew := hv.methods.2 _ (List.mem_append_right _ List.mem_cons_self)
    exact hnew.2 _ (List.mem_append_right _ List.mem_cons_self)
  · intro hbody
    refine ⟨hpool, hl.interfaces, hl.fields, ⟨by simpa using hcount, ?_⟩, hl.attributes⟩
    intro m hm
    rcases List.mem_append.1 hm with hm | hm
    · exact hall m (List.mem_append_left _ hm)
    rcases List.mem_cons.1 hm with rfl | hm
    · refine ⟨by simpa using hattributes, fun b hb => ?_⟩
      rcases List.mem_append.1 hb with hb | hb
      · exact heach b (List.mem_append_left _ hb)
      rcases List.mem_cons.1 hb with rfl | hb
      · exact hbody
      · exact heach b (List.mem_append_right _ (List.mem_cons_of_mem _ hb))
    · exact hall m (List.mem_append_right _ (List.mem_cons_of_mem _ hm))

/-- Replacing a method's code writes the old bytes with another slot count, constants after the old
ones, and another body in one Code attribute. The length of the body takes four bytes, too few only
where a body of about four gigabytes has grown. -/
theorem replaceCode_splices (name : String) (data out : Bytes) (l : ClassFile) (m : Method)
    (stream : List StreamItem) (hl : ClassFile.read data = .ok l) (hfull : l.pool.IsFull)
    (h : replaceCode name data m stream = .ok out) :
    ∃ l' a body, l.codeOf? m.index = some a ∧ CodeDiffers l l' m.index a body ∧
      (∃ pre mid post tail, pre.length = 8 ∧
        data = pre ++ Bytes.ofUInt16 l.pool.count ++ l.pool.body ++ mid
          ++ Bytes.ofNat32 a.body.length ++ a.body ++ post ∧
        out = pre ++ Bytes.ofUInt16 l'.pool.count ++ (l.pool.body ++ tail) ++ mid
          ++ Bytes.ofNat32 body.length ++ body ++ post) ∧
      (ClassFile.read out = .ok l' ↔ body.length < 4294967296) ∧
      body.length ≤ a.body.length + 134281215 := by
  obtain ⟨l₀, a, c, c', tail, pieces, p, hl₀, ha, hc, -, hr, rfl⟩ := assemble_ok (replaceCode_ok h)
  obtain rfl : l = l₀ := Except.ok.inj (hl.symm.trans hl₀)
  obtain ⟨hvalid, rfl⟩ := ClassFile.read_iff.1 hl
  obtain ⟨hcvalid, hbody⟩ := CodeBody.read_iff.1 hc
  obtain ⟨before, after, r, as, bs, hat⟩ := codeAt_of_codeOf? ha
  have htail : tail.Extends l.pool.count :=
    (piecesFrom_ok (PoolTail.extends_nil l.pool.count) hr.emits).1.holds
  refine ⟨_, a, c'.write, ha, hat.differs c'.write tail,
    ⟨headBytes l, midBytes l a before after r as bs, endBytes l after bs,
      Constant.writeAll tail.constants.reverse, rfl, ?_, ?_⟩, ?_, ?_⟩
  · rw [← hat.write a.body l.pool, hat.setCode_self]
  · rw [hat.write c'.write (tail.extend l.pool), extend_body]
  · rw [ClassFile.read_iff, and_iff_left rfl]
    exact hat.valid_iff hvalid (htail.valid_extend hvalid.pool hfull) c'.write
  · rw [hbody]
    exact hr.length_write hcvalid

end Assembly

namespace Specimen

def pushing : List StreamItem :=
  [.kept 0, .kept 1, .replaced 2 [Instruction.loadInt 70000], .kept 3, .kept 4, .kept 5, .kept 6,
    .kept 7]

theorem read_classFile : ∃ l, ClassFile.read classFile = .ok l ∧ l.pool.IsFull := by
  have h : (match ClassFile.read classFile with
    | .ok l => decide l.pool.IsFull
    | .error _ => false) = true := by decide +kernel
  split at h
  · exact ⟨_, ‹_›, of_decide_eq_true h⟩
  · cases h

theorem replaceCode_pushing :
    ∃ out, Assembly.replaceCode "S" classFile method pushing = .ok out := by
  have h : (Assembly.replaceCode "S" classFile method pushing).toBool = true := by decide +kernel
  cases hout : Assembly.replaceCode "S" classFile method pushing with
  | ok out => exact ⟨out, rfl⟩
  | error e =>
      rw [hout] at h
      cases h

end Specimen

theorem Assembly.replaceCode_splices_pushing : ∃ l l' out,
    ClassFile.read Specimen.classFile = .ok l ∧ l.pool.IsFull ∧
      Assembly.replaceCode "S" Specimen.classFile Specimen.method Specimen.pushing = .ok out ∧
      ClassFile.read out = .ok l' := by
  obtain ⟨l, hl, hfull⟩ := Specimen.read_classFile
  obtain ⟨out, hout⟩ := Specimen.replaceCode_pushing
  obtain ⟨l', a, body, -, -, ⟨pre, mid, post, tail, -, hdata, -⟩, hiff, hle⟩ :=
    Assembly.replaceCode_splices "S" Specimen.classFile out l Specimen.method Specimen.pushing hl
      hfull hout
  have hlength : Specimen.classFile.length < 1000 := by decide +kernel
  rw [hdata] at hlength
  simp only [List.length_append] at hlength
  exact ⟨l, l', out, hl, hfull, hout, hiff.2 (by omega)⟩

namespace Specimen

/-- A class with two methods. By its length, the first attribute of the first method takes in the
Code attribute of that method and the header of the second method, so that the next attribute, which
is the Code attribute of the second method, counts as the first method's. -/
def overlapFile : Bytes :=
  [0xca, 0xfe, 0xba, 0xbe, 0, 0, 0, 0x32, 0, 11,
    1, 0, 4, 0x43, 0x6f, 0x64, 0x65, 1, 0, 1, 0x67, 1, 0, 3, 0x28, 0x29, 0x49, 1, 0, 1, 0x53,
    7, 0, 4, 1, 0, 1, 0x4f, 7, 0, 6, 1, 0, 9, 0x53, 0x79, 0x6e, 0x74, 0x68, 0x65, 0x74, 0x69, 0x63,
    1, 0, 10, 0x45, 0x78, 0x63, 0x65, 0x70, 0x74, 0x69, 0x6f, 0x6e, 0x73, 1, 0, 1, 0x68,
    0, 0x21, 0, 5, 0, 7, 0, 0, 0, 0, 0, 2,
    0, 9, 0, 2, 0, 3, 0, 2, 0, 8, 0, 0, 0, 28,
    0, 1, 0, 0, 0, 14, 0, 1, 0, 0, 0, 0, 0, 2, 3, 0xac, 0, 0, 0, 0,
    0, 9, 0, 10, 0, 3, 0, 1,
    0, 1, 0, 0, 0, 14, 0, 1, 0, 0, 0, 0, 0, 2, 5, 0xac, 0, 0, 0, 0,
    0, 1, 0, 9, 0, 0, 0, 0, 0, 0]

def hidden : Method :=
  { index := 0, name := "g", descriptor := "()I", access := 9, codeLength := 2
    code := [⟨0, .plain Opcode.iconst0, .other⟩, ⟨1, .plain Opcode.ireturn, .other⟩]
    handlers := [], lines := [] }

def two : Method :=
  { index := 1, name := "h", descriptor := "()I", access := 1, codeLength := 2
    code := [⟨0, .plain 0x05, .other⟩, ⟨1, .plain Opcode.ireturn, .other⟩]
    handlers := [], lines := [] }

def overlaps : Class := { owner with methods := [hidden, two] }

theorem replaceCode_overlapFile : Class.parse overlapFile = .ok overlaps ∧
    (∃ l, ClassFile.read overlapFile = .ok l ∧ l.pool.IsFull) ∧
    ∃ out, Assembly.replaceCode "S" overlapFile hidden [.kept 0, .kept 1] = .ok out ∧
      Class.parse out = .ok { overlaps with methods := [hidden, { two with code := hidden.code }] } ∧
      two.code ≠ hidden.code := by
  decide +kernel

/-- A class with one method, whose Code attribute has any body. -/
def holding (body : Bytes) : ClassFile :=
  { minor := 0, major := 50
    pool := ⟨9, [(1, .utf8 [0x43, 0x6f, 0x64, 0x65]), (2, .utf8 [0x67]),
      (3, .utf8 [0x28, 0x29, 0x49]), (4, .utf8 [0x53]), (5, .class 4), (6, .utf8 [0x4f]),
      (7, .class 6), (8, .utf8 [0x4c, 0x69, 0x6e, 0x65, 0x4e, 0x75, 0x6d, 0x62, 0x65, 0x72,
        0x54, 0x61, 0x62, 0x6c, 0x65])]⟩
    access := 0x21, thisClass := 5, superClass := 7, interfaces := [], fields := []
    methods := [⟨9, 2, 3, [⟨1, body⟩]⟩], attributes := [] }

def zeroLines (n : Nat) : RawAttribute := ⟨8, LineTable.writeAll (List.replicate n ⟨0, 0⟩)⟩

def padded (lines : List LineEntry) : Method :=
  { index := 0, name := "g", descriptor := "()I", access := 9, codeLength := 3
    code := [⟨0, .plain Opcode.nop, .other⟩, ⟨1, .plain Opcode.iconst0, .other⟩,
      ⟨2, .plain Opcode.ireturn, .other⟩]
    handlers := [], lines }

def paddedCode (ts : List RawAttribute) : CodeBody := ⟨1, 0, [0, 0x03, 0xac], [], ts⟩

def stretched : List StreamItem :=
  [.replaced 0 (List.replicate 10 (.plain Opcode.nop)), .kept 1, .kept 2]

def stretchedCode (ts : List RawAttribute) : CodeBody :=
  ⟨3, 0, [0, 0, 0, 0, 0, 0, 0, 0, 0, 0, 0x03, 0xac], [], ts⟩

variable {body : Bytes} {ts : List RawAttribute} {n : Nat}

theorem reads_holding : ClassFile.read (holding []).write = .ok (holding []) ∧
    (holding []).utf8? 1 = some "Code" ∧ (holding []).utf8? 8 = some "LineNumberTable" ∧
    ∃ p, Pool.ofTable (holding []).pool = .ok p ∧ p.utf8 1 = .ok "Code" ∧
      p.utf8 8 = .ok "LineNumberTable" ∧ p.utf8 2 = .ok "g" ∧ p.utf8 3 = .ok "()I" ∧
      p.className 5 = .ok "S" ∧ Method.sites p [0, 0x03, 0xac] = .ok (padded []).code := by
  decide +kernel

theorem codeAt_holding : Assembly.CodeAt (holding body) 0 ⟨1, body⟩ [] [] ⟨9, 2, 3, [⟨1, body⟩]⟩
    [] [] where
  methods := rfl
  index := rfl
  attributes := rfl
  named := beq_iff_eq.2 reads_holding.2.1
  first := nofun

theorem valid_holding (h : body.length < 4294967296) : (holding body).Valid := by
  have hvalid := (ClassFile.read_iff.1 reads_holding.1).1
  have hbody := (codeAt_holding.valid_iff hvalid hvalid.pool body).2 h
  rwa [codeAt_holding.setCode] at hbody

theorem write_holding : ∃ start, ∀ body : Bytes, (holding body).write =
    start ++ Bytes.ofNat32 body.length ++ body ++ [0, 0] :=
  ⟨_, fun body => by
    have hwrite := Assembly.CodeAt.write (@codeAt_holding []) body (holding []).pool
    rw [codeAt_holding.setCode] at hwrite
    exact hwrite⟩

theorem isExact_zeroLines {p : Pool} (hp : p.utf8 8 = .ok "LineNumberTable") (hn : n < 65536) :
    (zeroLines n).IsExact p := by
  have hlt : (List.replicate n (⟨0, 0⟩ : LineTable.Entry)).length < 65536 := by
    rwa [List.length_replicate]
  have hread : Reader.counted Attribute.lineEntry
      (LineTable.writeAll (List.replicate n ⟨0, 0⟩)) = .ok (_, []) :=
    Reader.counted_map (f := fun e => ⟨e.start.toNat, e.line.toNat⟩) hlt
      fun e _ => Assembly.lineEntry_write e
  exact ⟨_, _, hp, Reader.bind_ok.2 ⟨_, _, hread, rfl⟩⟩

theorem moveAttribute_zeroLines {map : OffsetMap} (hmap : map[0]? = some 0) (hn : n < 65536) :
    Assembly.moveAttribute (holding body) map (zeroLines n) = .ok (some (zeroLines n)) := by
  have hname : (holding body).utf8? (zeroLines n).name = some "LineNumberTable" :=
    reads_holding.2.2.1
  have haligned : LineTable.IsAligned (· = 0) (zeroLines n).body := by
    refine ⟨List.replicate n ⟨0, 0⟩, by rwa [List.length_replicate], rfl, fun e he => ?_⟩
    rw [List.eq_of_mem_replicate he]
    rfl
  have hstays : ∀ {t : Nat}, t = 0 → map[t]? = some t := by
    rintro t rfl
    exact hmap
  simp only [Assembly.moveAttribute, hname, LineTable.move_self hstays haligned]
  rfl

theorem length_writeAll_zeroLines (k n m : Nat) :
    (RawAttribute.writeAll (List.replicate k (zeroLines n) ++ [zeroLines m])).length =
      2 + k * (8 + 4 * n) + (8 + 4 * m) := by
  have hlength : ∀ n, (zeroLines n).write.length = 8 + 4 * n := by
    intro n
    simp only [RawAttribute.write, zeroLines, LineTable.writeAll, Bytes.ofNat16, Bytes.ofNat32,
      List.length_append, Bytes.length_ofUInt16, Bytes.length_ofUInt32,
      length_flatMap_const LineTable.Entry.length_write, List.length_replicate]
    omega
  have hflat : ((List.replicate k (zeroLines n)).flatMap RawAttribute.write).length =
      k * (8 + 4 * n) := by
    rw [List.length_flatMap, List.map_replicate, List.sum_replicate_nat, hlength]
  simp only [RawAttribute.writeAll, Bytes.ofNat16, List.length_append, Bytes.length_ofUInt16,
    List.flatMap_append, hflat, List.flatMap_singleton, hlength]
  omega

theorem length_write_paddedCode :
    (paddedCode ts).write.length = 13 + (RawAttribute.writeAll ts).length := by
  simp only [paddedCode, CodeBody.write, Bytes.ofNat16, Bytes.ofNat32, List.length_append,
    Bytes.length_ofUInt16, Bytes.length_ofUInt32, List.flatMap_nil, List.length_cons,
    List.length_nil]

theorem write_stretchedCode : (stretchedCode ts).write = [0, 3, 0, 0, 0, 0, 0, 12] ++
    ([0, 0, 0, 0, 0, 0, 0, 0, 0, 0, 0x03, 0xac, 0, 0] ++ RawAttribute.writeAll ts) := by
  have hstart : Bytes.ofUInt16 3 ++ Bytes.ofUInt16 0 ++ Bytes.ofNat32 12
      ++ (stretchedCode []).code ++ Bytes.ofNat16 0 ++ [] =
      [0, 3, 0, 0, 0, 0, 0, 12, 0, 0, 0, 0, 0, 0, 0, 0, 0, 0, 0x03, 0xac, 0, 0] := by decide
  exact congrArg (· ++ RawAttribute.writeAll ts) hstart

theorem valid_paddedCode (hcount : ts.length < 65536)
    (hsize : (paddedCode ts).write.length < 4294967296) : (paddedCode ts).Valid := by
  refine ⟨by simp [paddedCode], by simp [paddedCode], hcount, fun t ht => ?_⟩
  have hlt : t.body.length + 2 < (RawAttribute.writeAll ts).length :=
    RawAttribute.length_body_lt_writeAll ht
  have hlength := @length_write_paddedCode ts
  show t.body.length < 4294967296
  omega

theorem codeFor_paddedCode (hts : ∀ t ∈ ts, ∃ n < 65536, t = zeroLines n)
    (lines : List LineEntry) :
    Assembly.codeFor (holding body) (paddedCode ts) (padded lines) stretched =
      .ok (stretchedCode ts, ⟨9, [], [], []⟩) := by
  obtain ⟨⟨pieces, tail⟩, hpieces, rfl, p, hp, hmap, hcode⟩ : ∃ r,
      Assembly.piecesFrom (padded []).code.toArray ⟨9, [], [], []⟩ [] stretched = .ok r ∧
      r.2 = ⟨9, [], [], []⟩ ∧ ∃ p, Placement.ofPieces 3 r.1 = .ok p ∧ p.map[0]? = some 0 ∧
        Assembly.encodeFrom p.map [] (p.pieces.zip p.offsets) = .ok (stretchedCode []).code := by
    decide +kernel
  have hmoved : ts.mapM (Assembly.moveAttribute (holding body) p.map) = .ok (ts.map some) := by
    rw [Result.mapM_ok, List.forall₂_map_right_iff, List.forall₂_same]
    intro t ht
    obtain ⟨n, hn, rfl⟩ := hts t ht
    exact moveAttribute_zeroLines hmap hn
  have hsome : (ts.map some).filterMap id = ts := by simp
  refine Result.bind_ok.2 ⟨_, hpieces, Result.bind_ok.2 ⟨p, hp, Result.bind_ok.2 ⟨_, hcode, ?_⟩⟩⟩
  refine Result.bind_ok.2 ⟨_, hmoved, Result.bind_ok.2 ⟨[], rfl, ?_⟩⟩
  rw [hsome]
  rfl

section

variable (hcount : ts.length < 65536) (hts : ∀ t ∈ ts, ∃ n < 65536, t = zeroLines n)
  (hsize : (paddedCode ts).write.length < 4294967296)

include hcount hts hsize

theorem exists_parse_paddedCode : ∃ lines, Class.parse (holding (paddedCode ts).write).write =
    .ok { owner with methods := [padded lines] } := by
  obtain ⟨-, -, -, p, hp, hcode, htable, hname, hdescriptor, hclass, hsites⟩ := reads_holding
  obtain ⟨xs, hxs⟩ := Result.exists_forall₂ (R := RawAttribute.ReadsAs p) fun t ht => by
    obtain ⟨n, hn, rfl⟩ := hts t ht
    exact isExact_zeroLines htable hn
  have hbody := CodeBody.read_iff.2 ⟨valid_paddedCode hcount hsize, rfl⟩
  have hreads := RawAttribute.readsAs_code (a := ⟨1, (paddedCode ts).write⟩) hcode hbody hxs
  have hmember : RawMember.ReadsAs p ⟨9, 2, 3, [⟨1, (paddedCode ts).write⟩]⟩
      ⟨2, 3, [.code [0, 0x03, 0xac] [] xs]⟩ := ⟨rfl, rfl, .cons hreads .nil⟩
  have hvalid := valid_holding hsize
  have hstructure := ClassFile.readStructure_write hvalid hp .nil (.cons hmember .nil) .nil
  have hjumps : (padded (Method.linesOf xs)).validate = .ok () :=
    Method.validate_iff.2
      ⟨by simp [padded, Instruction.targets, Instruction.plain, Operand.targets], nofun⟩
  have hmethod : Method.ofEntry p 0 ⟨2, 3, [.code [0, 0x03, 0xac] [] xs]⟩ 9 =
      .ok (some (padded (Method.linesOf xs))) :=
    Method.ofEntry_some.2 ⟨⟨hname, hdescriptor, rfl, rfl⟩, _, _, xs, rfl,
      ⟨hsites, rfl, rfl, hjumps⟩, rfl⟩
  refine ⟨Method.linesOf xs, Class.parse_iff.2 ⟨_, _, hstructure,
    ClassFile.read_iff.2 ⟨hvalid, rfl⟩, ?_⟩⟩
  exact {
    name := hclass
    interfaces := .nil
    access := rfl
    sourceFile := ⟨none, rfl, rfl⟩
    annotations := ⟨[], rfl, .nil⟩
    count := rfl
    methods := Class.methodsOf_ok.2 ⟨_, Result.mapM_ok.2 (.cons hmethod .nil), rfl⟩ }

theorem replaceCode_paddedCode (lines : List LineEntry) :
    Assembly.replaceCode "S" (holding (paddedCode ts).write).write (padded lines) stretched =
      .ok (holding (stretchedCode ts).write).write := by
  have hat : (holding (paddedCode ts).write).codeOf? (padded lines).index =
      some ⟨1, (paddedCode ts).write⟩ := codeAt_holding.codeOf?
  have hlength : (paddedCode ts).code.length = (padded lines).codeLength := rfl
  have hassemble : Assembly.assemble (holding (paddedCode ts).write).write (padded lines)
      stretched = .ok (holding (stretchedCode ts).write).write := by
    refine Result.bind_ok.2 ⟨_, ClassFile.read_iff.2 ⟨valid_holding hsize, rfl⟩, ?_⟩
    simp only [hat]
    refine Result.bind_ok.2 ⟨_, CodeBody.read_iff.2 ⟨valid_paddedCode hcount hsize, rfl⟩, ?_⟩
    rw [if_neg (not_not.2 hlength)]
    refine Result.bind_ok.2 ⟨_, codeFor_paddedCode hts lines, ?_⟩
    simp only [show (padded lines).index = 0 from rfl]
    rw [codeAt_holding.setCode]
    rfl
  rw [Assembly.replaceCode, hassemble]

end

theorem read_stretchedCode (h : (stretchedCode ts).write.length = 4294967304) (l : ClassFile) :
    ClassFile.read (holding (stretchedCode ts).write).write ≠ .ok l := by
  obtain ⟨start, hstart⟩ := write_holding
  have hlength : Bytes.ofNat32 4294967304 = Bytes.ofNat32 8 := by decide
  have hwrite : (holding (stretchedCode ts).write).write =
      (holding [0, 3, 0, 0, 0, 0, 0, 12]).write ++
        ([0, 0, 0, 0, 0, 0, 0, 0, 0x03, 0xac, 0, 0] ++ RawAttribute.writeAll ts ++ [0, 0]) := by
    rw [hstart, h, hlength, write_stretchedCode, hstart]
    simp
  rw [hwrite, ClassFile.read_append (valid_holding (by decide)) (by simp)]
  exact nofun

/-- A body of 4294967295 bytes, nearly all of them line tables, that grows by nine. -/
theorem exists_outgrown : ∃ (l : ClassFile) (lines : List LineEntry) (out : Bytes),
    l.pool.IsFull ∧ Class.parse l.write = .ok { owner with methods := [padded lines] } ∧
    Assembly.replaceCode "S" l.write (padded lines) stretched = .ok out ∧
    ∀ l', ClassFile.read out ≠ .ok l' := by
  have hcount : (List.replicate 16383 (zeroLines 65535) ++ [zeroLines 49147]).length < 65536 := by
    rw [List.length_append, List.length_replicate, List.length_singleton]
    omega
  have hts : ∀ t ∈ List.replicate 16383 (zeroLines 65535) ++ [zeroLines 49147],
      ∃ n < 65536, t = zeroLines n := by
    intro t ht
    rcases List.mem_append.1 ht with ht | ht
    · exact ⟨65535, by omega, List.eq_of_mem_replicate ht⟩
    · exact ⟨49147, by omega, List.mem_singleton.1 ht⟩
  have hlength := length_writeAll_zeroLines 16383 65535 49147
  -- nothing may evaluate the tables from here on
  generalize List.replicate 16383 (zeroLines 65535) ++ [zeroLines 49147] = ts at hcount hts hlength
  have hsize : (paddedCode ts).write.length < 4294967296 := by
    rw [length_write_paddedCode, hlength]
    omega
  have hgrown : (stretchedCode ts).write.length = 4294967304 := by
    rw [write_stretchedCode, List.length_append, List.length_append, hlength]
    rfl
  obtain ⟨lines, hparse⟩ := exists_parse_paddedCode hcount hts hsize
  refine ⟨holding (paddedCode ts).write, lines, _, ?_, hparse,
    replaceCode_paddedCode hcount hts hsize lines, read_stretchedCode hgrown⟩
  show (holding []).pool.IsFull
  decide

end Specimen

/-- Where the structure of a class and the lengths of its attributes do not agree, keeping all
instructions of one method puts them in the place of another's. Where the body of a Code attribute
grows past what its length can say, the class is not read again. -/
theorem Assembly.replaceCode_overlap_outgrown :
    (Class.parse Specimen.overlapFile = .ok Specimen.overlaps ∧
      (∃ l, ClassFile.read Specimen.overlapFile = .ok l ∧ l.pool.IsFull) ∧
      ∃ out, replaceCode "S" Specimen.overlapFile Specimen.hidden [.kept 0, .kept 1] = .ok out ∧
        Class.parse out = .ok { Specimen.overlaps with
          methods := [Specimen.hidden, { Specimen.two with code := Specimen.hidden.code }] } ∧
        Specimen.two.code ≠ Specimen.hidden.code) ∧
    ∃ (l : ClassFile) (lines : List LineEntry) (out : Bytes), l.pool.IsFull ∧
      Class.parse l.write = .ok { Specimen.owner with methods := [Specimen.padded lines] } ∧
      replaceCode "S" l.write (Specimen.padded lines) Specimen.stretched = .ok out ∧
      ∀ l', ClassFile.read out ≠ .ok l' :=
  ⟨Specimen.replaceCode_overlapFile, Specimen.exists_outgrown⟩

end BytecodeMutation
