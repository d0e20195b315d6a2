import BytecodeMutation.Proofs.AlignedTables
import BytecodeMutation.Proofs.Rewriting

namespace BytecodeMutation

open Reader

namespace Reader

variable {α β : Type} {r : Reader α} {w : β → Bytes} {R : β → α → Prop} {s t : Bytes} {as : List α}

theorem forall₂_timesAfter (hr : ∀ {s a t}, r s = .ok (a, t) → ∃ b, s = w b ++ t ∧ R b a) {n : Nat}
    {acc : List α} (h : timesAfter r n acc s = .ok (as, t)) :
    ∃ bs as', as = acc.reverse ++ as' ∧ bs.length = n ∧ s = bs.flatMap w ++ t ∧
      List.Forall₂ R bs as' := by
  induction n generalizing acc s with
  | zero =>
      cases h
      exact ⟨[], [], by simp, rfl, rfl, .nil⟩
  | succ n ih =>
      unfold timesAfter at h
      split at h
      · rename_i a u ha
        obtain ⟨b, rfl, hb⟩ := hr ha
        obtain ⟨bs, as', rfl, rfl, rfl, hbs⟩ := ih h
        exact ⟨b :: bs, a :: as', by simp, rfl, by simp, .cons hb hbs⟩
      · cases h

theorem forall₂_counted (hr : ∀ {s a t}, r s = .ok (a, t) → ∃ b, s = w b ++ t ∧ R b a)
    (h : counted r s = .ok (as, t)) : ∃ bs, bs.length < 65536 ∧
      s = Bytes.ofNat16 bs.length ++ bs.flatMap w ++ t ∧ List.Forall₂ R bs as := by
  obtain ⟨n, u, hn, htimes⟩ := bind_ok.1 h
  obtain rfl := u2_iff.1 hn
  obtain ⟨bs, _, rfl, hlength, rfl, hbs⟩ := forall₂_timesAfter hr htimes
  obtain ⟨hlt, rfl⟩ := eq_toNat16_iff.1 hlength
  exact ⟨bs, hlt, (List.append_assoc ..).symm, hbs⟩

end Reader

namespace VariableTable

variable {map : OffsetMap}

structure Entry.Moves (map : OffsetMap) (v v' : Entry) : Prop where
  start : map[v.start.toNat]? = some v'.start.toNat
  stop : map[v.start.toNat + v.length.toNat]? = some (v'.start.toNat + v'.length.toNat)
  name : v'.name = v.name
  type : v'.type = v.type
  index : v'.index = v.index

theorem readMoved_ok {s t : Bytes} {v' : Entry} (hm : map.IsShort)
    (h : readMoved map s = .ok (v', t)) : ∃ v : Entry, s = v.write ++ t ∧ v.Moves map v' := by
  simp only [readMoved, bind_ok, pure_ok, u2_iff] at h
  obtain ⟨start, _, rfl, length, u, rfl, range, _, hrange, name, _, rfl, type, _, rfl, index, _,
    rfl, rfl, rfl⟩ := h
  obtain ⟨hmove, rfl⟩ := lift_ok hrange
  obtain ⟨hstart, hstop⟩ := moveRange_ok hm hmove
  exact ⟨⟨start, length, name, type, index⟩, by simp [Entry.write], hstart, hstop, rfl, rfl, rfl⟩

theorem move_moves {body moved : Bytes} (hm : map.IsShort) (h : move map body = .ok moved) :
    ∃ vs vs' rest, vs.length < 65536 ∧ body = writeAll vs ++ rest ∧ moved = writeAll vs' ∧
      List.Forall₂ (Entry.Moves map) vs vs' := by
  obtain ⟨⟨vs', rest⟩, hread, h⟩ := Result.bind_ok.1 h
  cases h
  obtain ⟨vs, hlt, rfl, hvs⟩ := forall₂_counted (readMoved_ok hm) hread
  exact ⟨vs, vs', rest, hlt, rfl, rfl, hvs⟩

end VariableTable

def ClassFile.isVariables (l : ClassFile) (a : RawAttribute) : Bool :=
  l.named "LocalVariableTable" a || l.named "LocalVariableTypeTable" a

namespace Assembly

structure Emits (cs : List (UInt16 × Constant)) (m : Method) (stream : List StreamItem)
    (es : List Emission) (code : Bytes) : Prop where
  stands : List.Forall₂ (fun x e => e.ordinal = x.1 ∧ Stands cs x.2 e.toPiece)
    (labelled m.code stream) es
  encodes : ∃ moved, Instruction.Encodes moved 0 (es.map (·.instruction)) code
  placed : Instruction.placedFrom 0 (es.map (·.instruction))
    = es.map fun e => (e.offset, e.instruction)

/-- An instruction of the new code is in the new range just when the instruction that it was emitted
for is in the old one. -/
def RangeMoves (m : Method) (es : List Emission) (start stop start' stop' : Nat) : Prop :=
  ∀ e ∈ es, ∀ s, m.code[e.ordinal]? = some s →
    (start' ≤ e.offset ∧ e.offset < stop' ↔ start ≤ s.offset ∧ s.offset < stop)

structure HandlerMoves (m : Method) (es : List Emission) (r r' : RawHandler) : Prop where
  range : RangeMoves m es r.start.toNat r.stop.toNat r'.start.toNat r'.stop.toNat
  handler : ∀ k s, m.code[k]? = some s → s.offset = r.handler.toNat →
    ∃ e, es.find? (·.ordinal == k) = some e ∧ e.offset = r'.handler.toNat
  catchType : r'.catchType = r.catchType

structure VariableMoves (m : Method) (es : List Emission) (v v' : VariableTable.Entry) : Prop where
  range : RangeMoves m es v.start.toNat (v.start.toNat + v.length.toNat) v'.start.toNat
    (v'.start.toNat + v'.length.toNat)
  name : v'.name = v.name
  type : v'.type = v.type
  index : v'.index = v.index

structure VariablesMove (m : Method) (es : List Emission) (a a' : RawAttribute) : Prop where
  name : a'.name = a.name
  entries : ∃ vs vs' rest, vs.length < 65536 ∧ a.body = VariableTable.writeAll vs ++ rest ∧
    a'.body = VariableTable.writeAll vs' ∧ List.Forall₂ (VariableMoves m es) vs vs'

variable {l : ClassFile} {c c' : CodeBody} {m : Method} {stream : List StreamItem}
  {tail : PoolTail} {pieces : List Piece} {p : Placement} {map : OffsetMap} {a : RawAttribute}

theorem moveAttribute_variables {o : Option RawAttribute} (ha : l.isVariables a = true)
    (h : moveAttribute l map a = .ok o) :
    ∃ body, VariableTable.move map a.body = .ok body ∧ o = some ⟨a.name, body⟩ := by
  rw [ClassFile.isVariables, Bool.or_eq_true, ClassFile.named, ClassFile.named, beq_iff_eq,
    beq_iff_eq] at ha
  rcases ha with hname | hname
  · simp only [moveAttribute, hname] at h
    obtain ⟨body, hbody, rfl⟩ := Result.map_ok.1 h
    exact ⟨body, hbody, rfl⟩
  · simp only [moveAttribute, hname] at h
    obtain ⟨body, hbody, rfl⟩ := Result.map_ok.1 h
    exact ⟨body, hbody, rfl⟩

theorem forall₂_variables {R : RawAttribute → RawAttribute → Prop} {as : List RawAttribute}
    {os : List (Option RawAttribute)} (hm : map.IsShort)
    (hR : ∀ a body, VariableTable.move map a.body = .ok body → R a ⟨a.name, body⟩)
    (h : List.Forall₂ (fun a o => moveAttribute l map a = .ok o) as os) :
    List.Forall₂ R (as.filter l.isVariables) ((os.filterMap id).filter l.isVariables) := by
  induction h with
  | nil => exact .nil
  | @cons a o as os hmove _ ih =>
      cases ha : l.isVariables a with
      | true =>
          obtain ⟨body, hbody, rfl⟩ := moveAttribute_variables ha hmove
          have hb : l.isVariables ⟨a.name, body⟩ = true := ha
          rw [List.filter_cons_of_pos ha, List.filterMap_cons_some (f := id) rfl,
            List.filter_cons_of_pos hb]
          exact .cons (hR a body hbody) ih
      | false =>
          rw [List.filter_cons_of_neg (by rw [ha]; exact nofun)]
          cases o with
          | none =>
              rw [List.filterMap_cons_none rfl]
              exact ih
          | some b =>
              have hname : b.name = a.name := by
                have hmoves := (moveAttribute_ok hm hmove).1
                cases hmoves <;> rfl
              have hb : l.isVariables b = false := by
                rw [← ha, ClassFile.isVariables, ClassFile.named, ClassFile.named, hname]
                rfl
              rw [List.filterMap_cons_some (f := id) rfl,
                List.filter_cons_of_neg (by rw [hb]; exact nofun)]
              exact ih

namespace Arranges

variable (h : Arranges l c m stream c' tail pieces p)

include h

theorem emits : Emits (tail.extend l.pool).constants m stream (emissions m stream p) c'.code where
  stands := h.stands_emissions
  encodes := by
    have hinstructions : (emissions m stream p).map (·.instruction)
        = p.pieces.map (·.instruction) := by
      rw [← Placement.map_fst_placed h.recodes.places, ← h.map_emissions, List.map_map,
        List.map_map]
      rfl
    rw [hinstructions]
    exact ⟨_, h.recodes.encodes⟩
  placed := by
    have hplaced := Placement.placedFrom_placed h.recodes.places
    rw [← Placement.map_fst_placed h.recodes.places, ← h.map_emissions] at hplaced
    simpa only [List.map_map, Function.comp_def] using hplaced

theorem rangeMoves {start stop start' stop' : Nat} (hstart : p.map[start]? = some start')
    (hstop : p.map[stop]? = some stop') :
    RangeMoves m (emissions m stream p) start stop start' stop' := by
  intro e he s hs
  have hlower := h.image_le_iff hstart he hs
  have hupper := h.image_le_iff hstop he hs
  rw [hlower, ← Nat.not_le, hupper, Nat.not_le]

theorem handlerMoves {r r' : RawHandler} (hr : moveHandler p.map r = .ok r') :
    HandlerMoves m (emissions m stream p) r r' := by
  obtain ⟨hstart, hstop, hhandler, hcatch⟩ := moveHandler_ok h.recodes.places.isShort hr
  exact ⟨h.rangeMoves hstart hstop, fun k s hs hoffset => h.find?_image hhandler hs hoffset, hcatch⟩

theorem variableMoves {v v' : VariableTable.Entry} (hv : v.Moves p.map v') :
    VariableMoves m (emissions m stream p) v v' :=
  ⟨h.rangeMoves hv.start hv.stop, hv.name, hv.type, hv.index⟩

theorem variablesMove {body : Bytes} (hmove : VariableTable.move p.map a.body = .ok body) :
    VariablesMove m (emissions m stream p) a ⟨a.name, body⟩ := by
  obtain ⟨vs, vs', rest, hlt, hbody, hmoved, hvs⟩ :=
    VariableTable.move_moves h.recodes.places.isShort hmove
  exact ⟨rfl, vs, vs', rest, hlt, hbody, hmoved, hvs.imp fun _ _ => h.variableMoves⟩

end Arranges

theorem handler_mem {q : Pool} {r : RawHandler} (h : m.Reads q c.code c.handlers)
    (hr : r ∈ c.handlers) : r.handler.toNat ∈ m.offsets := by
  obtain ⟨g, hg, hread⟩ := Result.exists_of_mem_left h.handlers hr
  rw [← (Method.handlerOf_ok hread).2.2.1]
  exact ((Method.validate_iff.1 h.valid).2 g hg).2.1

/-- Replacing the code of a method moves the range of every handler and of every local variable to
the instructions that were emitted for those in the old range, and every handler to the first
instruction emitted for its own. Nothing else about them changes, nor does their order. -/
theorem replaceCode_moves_ranges (name : String) (data out : Bytes) (d : Class) (m : Method)
    (stream : List StreamItem) (hparse : Class.parse data = .ok d) (hm : m ∈ d.methods)
    (hs : InOrder m.code stream) (h : replaceCode name data m stream = .ok out) :
    ∃ l a b b' pool es, ClassFile.read data = .ok l ∧ l.codeOf? m.index = some a ∧
      CodeBody.read a.body = .ok b ∧
      out = ({ setCode l m.index b'.write with pool } : ClassFile).write ∧
      (b'.write.length < 4294967296 → CodeBody.read b'.write = .ok b') ∧
      Emits pool.constants m stream es b'.code ∧
      List.Forall₂ (HandlerMoves m es) b.handlers b'.handlers ∧
      (∀ q, m.Reads q b.code b.handlers → ∀ r ∈ b.handlers, r.handler.toNat ∈ m.offsets) ∧
      List.Forall₂ (VariablesMove m es) (b.attributes.filter l.isVariables)
        (b'.attributes.filter l.isVariables) := by
  obtain ⟨l, a, b, b', tail, pieces, p, hl, ha, hb, hlength, hr, rfl⟩ :=
    assemble_ok (replaceCode_ok h)
  have harranges : Arranges l b m stream b' tail pieces p :=
    ⟨hr, hs, Class.isRead_of_mem hparse hm, hlength⟩
  refine ⟨l, a, b, b', tail.extend l.pool, emissions m stream p, hl, ha, hb, rfl, ?_,
    harranges.emits, ?_, fun q hq r hr => handler_mem hq hr, ?_⟩
  · intro hlt
    exact CodeBody.read_iff.2 ⟨hr.valid_code (CodeBody.read_iff.1 hb).1 hlt, rfl⟩
  · exact (Result.mapM_ok.1 hr.handlers).imp fun _ _ => harranges.handlerMoves
  · obtain ⟨os, hos, hattributes⟩ := hr.attributes
    rw [hattributes]
    exact forall₂_variables hr.places.isShort (fun _ _ => harranges.variablesMove)
      (Result.mapM_ok.1 hos)

end Assembly

namespace Specimen

def twinFile : Bytes :=
  [0xca, 0xfe, 0xba, 0xbe, 0, 0, 0, 0x32, 0, 14,
    1, 0, 4, 0x43, 0x6f, 0x64, 0x65,
    1, 0, 15, 0x4c, 0x69, 0x6e, 0x65, 0x4e, 0x75, 0x6d, 0x62, 0x65, 0x72, 0x54, 0x61, 0x62, 0x6c,
    0x65,
    1, 0, 13, 0x53, 0x74, 0x61, 0x63, 0x6b, 0x4d, 0x61, 0x70, 0x54, 0x61, 0x62, 0x6c, 0x65,
    1, 0, 18, 0x4c, 0x6f, 0x63, 0x61, 0x6c, 0x56, 0x61, 0x72, 0x69, 0x61, 0x62, 0x6c, 0x65, 0x54,
    0x61, 0x62, 0x6c, 0x65,
    1, 0, 1, 0x66, 1, 0, 1, 0x67, 1, 0, 4, 0x28, 0x49, 0x29, 0x49, 1, 0, 1, 0x53, 7, 0, 8,
    1, 0, 1, 0x4f, 7, 0, 10, 1, 0, 1, 0x69, 1, 0, 1, 0x49,
    0, 0x21, 0, 9, 0, 11, 0, 0, 0, 0, 0, 2,
    0, 9, 0, 5, 0, 7, 0, 1, 0, 1, 0, 0, 0, 0x45, 0, 2, 0, 1,
    0, 0, 0, 10, 0x1a, 0x99, 0, 7, 0x1a, 0x1a, 0x68, 0xac, 0x03, 0xac,
    0, 1, 0, 4, 0, 8, 0, 8, 0, 0, 0, 3,
    0, 2, 0, 0, 0, 6, 0, 1, 0, 4, 0, 7,
    0, 4, 0, 0, 0, 12, 0, 1, 0, 0, 0, 10, 0, 12, 0, 13, 0, 0,
    0, 3, 0, 0, 0, 3, 0, 1, 8,
    0, 9, 0, 6, 0, 7, 0, 1, 0, 1, 0, 0, 0, 0x1a, 0, 1, 0, 1,
    0, 0, 0, 2, 0x1a, 0xac, 0, 0, 0, 1, 0, 2, 0, 0, 0, 6, 0, 1, 0, 0, 0, 11,
    0, 0]

def squaring : Method :=
  { index := 0, name := "f", descriptor := "(I)I", access := 9, codeLength := 10
    code := [⟨0, .plain 0x1a, .other⟩, ⟨1, ⟨Opcode.ifeq, .branch 8⟩, .other⟩,
      ⟨4, .plain 0x1a, .other⟩, ⟨5, .plain 0x1a, .other⟩, ⟨6, .plain Opcode.imul, .other⟩,
      ⟨7, .plain Opcode.ireturn, .other⟩, ⟨8, .plain Opcode.iconst0, .other⟩,
      ⟨9, .plain Opcode.ireturn, .other⟩]
    handlers := [⟨4, 8, 8, none⟩], lines := [⟨4, 7⟩] }

def returning : Method :=
  { index := 1, name := "g", descriptor := "(I)I", access := 9, codeLength := 2
    code := [⟨0, .plain 0x1a, .other⟩, ⟨1, .plain Opcode.ireturn, .other⟩]
    handlers := [], lines := [⟨0, 11⟩] }

def twins : Class := { owner with methods := [squaring, returning] }

theorem parse_twinFile : Class.parse twinFile = .ok twins := by decide +kernel

def growing : List StreamItem :=
  [.kept 0, .kept 1, .kept 2, .kept 3,
    .replaced 4 [.plain Opcode.nop, .plain Opcode.iadd, .plain Opcode.nop], .kept 5, .kept 6,
    .kept 7]

theorem rewrites_growing : Assembly.Rewrites squaring.code growing :=
  .of_isPlain (by decide) (by decide)

theorem replaceCode_growing :
    ∃ out, Assembly.replaceCode "S" twinFile squaring growing = .ok out ∧ out.length < 300 := by
  decide +kernel

theorem tables_twinFile : ∃ l, ClassFile.read twinFile = .ok l ∧ ∃ a, l.codeOf? 0 = some a ∧
    ∃ b, CodeBody.read a.body = .ok b ∧ b.handlers = [⟨4, 8, 8, 0⟩] ∧
      b.attributes.filter l.isVariables = [⟨4, [0, 1, 0, 0, 0, 10, 0, 12, 0, 13, 0, 0]⟩] := by
  decide +kernel

end Specimen

theorem Assembly.replaceCode_moves_ranges_growing : ∃ out, ∃ b' : CodeBody,
    replaceCode "S" Specimen.twinFile Specimen.squaring Specimen.growing = .ok out ∧
      ∃ es r v, HandlerMoves Specimen.squaring es ⟨4, 8, 8, 0⟩ r ∧ b'.handlers = [r] ∧
        VariablesMove Specimen.squaring es ⟨4, [0, 1, 0, 0, 0, 10, 0, 12, 0, 13, 0, 0]⟩ v ∧
        v ∈ b'.attributes := by
  obtain ⟨out, hout, -⟩ := Specimen.replaceCode_growing
  obtain ⟨l, a, b, b', pool, es, hl, ha, hb, -, -, -, hhandlers, -, hvariables⟩ :=
    replaceCode_moves_ranges "S" Specimen.twinFile out Specimen.twins Specimen.squaring
      Specimen.growing Specimen.parse_twinFile List.mem_cons_self
      Specimen.rewrites_growing.inOrder hout
  obtain ⟨l₀, hl₀, a₀, ha₀, b₀, hb₀, hold, htables⟩ := Specimen.tables_twinFile
  obtain rfl := Except.ok.inj (hl.symm.trans hl₀)
  obtain rfl := Option.some.inj (ha.symm.trans ha₀)
  obtain rfl := Except.ok.inj (hb.symm.trans hb₀)
  rw [hold] at hhandlers
  rw [htables] at hvariables
  obtain ⟨r, rs, hr, hrs, heq⟩ := List.forall₂_cons_left_iff.1 hhandlers
  obtain rfl := List.forall₂_nil_left_iff.1 hrs
  obtain ⟨v, vs, hv, -, hfilter⟩ := List.forall₂_cons_left_iff.1 hvariables
  have hmem : v ∈ b'.attributes.filter l.isVariables := by
    rw [hfilter]
    exact List.mem_cons_self
  exact ⟨out, b', hout, es, r, v, hr, heq, hv, (List.mem_filter.1 hmem).1⟩

end BytecodeMutation
