import BytecodeMutation.Proofs.Keeping
import BytecodeMutation.Proofs.Ranges
import BytecodeMutation.Proofs.Widening

namespace BytecodeMutation

inductive OkOrLimit {α : Type} : Except Fault α → Prop where
  | ok (a : α) : OkOrLimit (.ok a)
  | limit (lim : Limit) : OkOrLimit (.error (.limit lim))

namespace OkOrLimit

variable {α β : Type} {x : Except Fault α} {f : α → Except Fault β}

theorem of_exists (h : ∃ a, x = .ok a) : OkOrLimit x := by
  obtain ⟨a, rfl⟩ := h
  exact .ok a

theorem bind (hx : OkOrLimit x) (hf : ∀ a, x = .ok a → OkOrLimit (f a)) : OkOrLimit (x >>= f) := by
  cases hx with
  | ok a => exact hf a rfl
  | limit lim => exact .limit lim

theorem error {e : Fault} (h : OkOrLimit x) (he : x = .error e) :
    OkOrLimit (.error e : Except Fault β) := by
  cases h with
  | ok a => cases he
  | limit lim =>
      cases he
      exact .limit lim

end OkOrLimit

namespace PoolTail

theorem okOrLimit_push (t : PoolTail) (c : Constant) : OkOrLimit (t.push c) := by
  unfold push
  split
  · exact .limit _
  · exact .ok _

theorem okOrLimit_pushString (t : PoolTail) (s : String) : OkOrLimit (t.pushString s) := by
  unfold pushString
  split
  · exact .ok _
  · simp only
    split
    · exact .limit _
    · exact .bind (okOrLimit_push t _) fun _ _ => .ok _

theorem okOrLimit_pushMethod (t : PoolTail) (m : MemberRef) : OkOrLimit (t.pushMethod m) :=
  .bind (okOrLimit_pushString ..) fun _ _ => .bind (okOrLimit_push ..) fun _ _ =>
    .bind (okOrLimit_pushString ..) fun _ _ => .bind (okOrLimit_pushString ..) fun _ _ =>
      .bind (okOrLimit_push ..) fun _ _ => okOrLimit_push ..

theorem okOrLimit_request (t : PoolTail) (r : NewConstant) : OkOrLimit (t.request r) := by
  unfold request
  split
  · exact .ok _
  · cases r with
    | integer value => exact .bind (okOrLimit_push ..) fun _ _ => .ok _
    | method m => exact .bind (okOrLimit_pushMethod ..) fun _ _ => .ok _

theorem okOrLimit_resolve (t : PoolTail) (i : Instruction) : OkOrLimit (t.resolve i) := by
  unfold resolve
  split
  · exact .bind (okOrLimit_request ..) fun _ _ => .ok _
  · exact .ok _

end PoolTail

namespace Assembly

theorem okOrLimit_replacementPieces (t : PoolTail) (origin : Nat) (acc : List Piece)
    (first : Bool) (is : List Instruction) :
    OkOrLimit (replacementPieces t origin acc first is) := by
  induction is generalizing t acc first with
  | nil => exact .ok _
  | cons i is ih => exact .bind (t.okOrLimit_resolve i) fun _ _ => ih ..

theorem okOrLimit_piecesFrom {code : List Site} {stream : List StreamItem}
    (h : ∀ item ∈ stream, item.ordinal < code.length) (t : PoolTail) (acc : List Piece) :
    OkOrLimit (piecesFrom code.toArray t acc stream) := by
  induction stream generalizing t acc with
  | nil => exact .ok _
  | cons item items ih =>
      obtain ⟨hitem, hitems⟩ := List.forall_mem_cons.1 h
      have hsite : code.toArray[item.ordinal]? = some code[item.ordinal] := by simp [hitem]
      cases item with
      | kept ordinal =>
          simp only [StreamItem.ordinal] at hsite
          simp only [piecesFrom, hsite]
          exact ih hitems ..
      | replaced ordinal is =>
          simp only [StreamItem.ordinal] at hsite
          simp only [piecesFrom, hsite]
          exact .bind (okOrLimit_replacementPieces ..) fun _ _ => ih hitems ..

theorem InOrder.ordinal_lt {code : List Site} {stream : List StreamItem} (h : InOrder code stream)
    {item : StreamItem} (hitem : item ∈ stream) : item.ordinal < code.length := by
  have hmem := List.mem_map_of_mem (f := StreamItem.ordinal) hitem
  rwa [h.ordinals, List.mem_range] at hmem

end Assembly

theorem Format.jump_of_branch (op : UInt8) :
    ofOpcode? op = some .branch ∨ ofOpcode? op = some .farBranch →
      Opcode.isJump op = true ∨ Opcode.isConditional op = true := by
  revert op
  exact forall_opcode (by decide +kernel)

theorem Placement.okOrLimit_ofPieces {ts : List Nat} {oldLength : Nat} {pieces : List Piece}
    (h : ∀ s ∈ pieces, JumpsWithin ts s) (hts : ts ⊆ pieces.filterMap (·.origin)) :
    OkOrLimit (ofPieces oldLength pieces) := by
  cases hp : ofPieces oldLength pieces with
  | ok p => exact .ok p
  | error e =>
      obtain ⟨n, widened, -, -, he⟩ := ofPieces_error h (fun t ht => .inr (hts ht)) hp
      cases he with
      | tooLarge => exact .limit _
      | outOfReach => exact .limit _

namespace VariableTable

variable {map : OffsetMap} {v : Entry} {vs : List Entry}

structure Entry.Spans (P : Nat → Prop) (v : Entry) : Prop where
  start : P v.start.toNat
  stop : P (v.start.toNat + v.length.toNat)
  short : v.start.toNat + v.length.toNat ≤ 65535

theorem move_overflow {map : OffsetMap} {v : Entry} {t : Nat}
    (ht : map[v.start.toNat]? = some t) (h : 65535 < v.start.toNat + v.length.toNat) :
    move map (writeAll [v]) = .error .variableRangeOverflow := by
  have himage : map.image v.start = .ok (.ofNat t) := by
    simp only [OffsetMap.image, ht]
  have hrange : moveRange map v.start v.length = .error .variableRangeOverflow := by
    simp only [moveRange, himage, bind, Except.bind]
    rw [if_pos h]
    rfl
  have hlift : ∀ s, (liftM (moveRange map v.start v.length) : Reader _) s
      = .error .variableRangeOverflow := fun s => by
    rw [hrange]
    rfl
  have hentry : ∀ s, readMoved map (v.write ++ s) = .error .variableRangeOverflow := fun s => by
    simp only [Entry.write, List.append_assoc]
    rw [readMoved, Reader.bind_of_ok (Reader.u2_ofUInt16 ..),
      Reader.bind_of_ok (Reader.u2_ofUInt16 ..)]
    exact Reader.bind_of_error (hlift _)
  have hcounted : Reader.counted (readMoved map) (writeAll [v])
      = .error .variableRangeOverflow := by
    have hone : (UInt16.ofNat [v].length).toNat = 1 := rfl
    rw [writeAll, Bytes.ofNat16, Reader.counted, Reader.bind_of_ok (Reader.u2_ofUInt16 ..), hone,
      Reader.times, Reader.timesAfter, List.flatMap_cons, hentry]
  rw [move, hcounted]
  rfl

variable {P : Nat → Prop} (hi : map.IsIncreasing) (hm : map.IsShort)
  (hdefined : ∀ t, P t → ∃ t' : Nat, map[t]? = some t')

include hi hm hdefined

theorem exists_moveRange (hv : v.Spans P) : ∃ r, moveRange map v.start v.length = .ok r := by
  obtain ⟨first, hfirst⟩ := hdefined _ hv.start
  obtain ⟨last, hlast⟩ := hdefined _ hv.stop
  have hshort := hv.short
  have hsum : (v.start + v.length).toNat = v.start.toNat + v.length.toNat := by
    rw [UInt16.toNat_add, Nat.mod_eq_of_lt (by omega)]
  have hle : first ≤ last := by
    rcases Nat.eq_zero_or_pos v.length.toNat with hzero | hpos
    · rw [hzero, Nat.add_zero] at hlast
      exact Nat.le_of_eq (Option.some.inj (hfirst.symm.trans hlast))
    · exact Nat.le_of_lt (hi hfirst hlast (by omega))
  have himage : map.image v.start = .ok (.ofNat first) := by
    simp only [OffsetMap.image, hfirst]
  have hend : map.image (v.start + v.length) = .ok (.ofNat last) := by
    simp only [OffsetMap.image, hsum, hlast]
  refine ⟨_, moveRange_of_image (by omega) himage hend ?_⟩
  rw [UInt16.le_iff_toNat_le, UInt16.toNat_ofNat', UInt16.toNat_ofNat',
    Nat.mod_eq_of_lt (hm hfirst), Nat.mod_eq_of_lt (hm hlast)]
  exact hle

theorem exists_move (hcount : vs.length < 65536) (hvs : ∀ v ∈ vs, v.Spans P) (rest : Bytes) :
    ∃ moved, move map (writeAll vs ++ rest) = .ok moved := by
  have hread : ∀ v ∈ vs, ∃ v', ∀ t, readMoved map (v.write ++ t) = .ok (v', t) := fun v hv => by
    obtain ⟨⟨first, distance⟩, hmove⟩ := exists_moveRange hi hm hdefined (hvs v hv)
    exact ⟨_, readMoved_write hmove⟩
  obtain ⟨vs', hvs'⟩ := Result.exists_forall₂ hread
  exact ⟨_, Result.bind_ok.2 ⟨(vs', rest), Reader.counted_flatMap hcount hvs' rest, rfl⟩⟩

end VariableTable

/-- An attribute of the code: a table holds the entries that it declares, its ranges start and end
at boundaries of a method, and its frames name instructions of it. -/
structure RawAttribute.IsMovable (l : ClassFile) (m : Method) (a : RawAttribute) : Prop where
  lines : l.named "LineNumberTable" a = true →
    ∃ es rest, Reader.counted LineTable.Entry.read a.body = .ok (es, rest)
  ranges : l.isVariables a = true → ∃ vs rest, vs.length < 65536 ∧
    a.body = VariableTable.writeAll vs ++ rest ∧ ∀ v ∈ vs, v.Spans m.IsBoundary
  frames : l.named "StackMapTable" a = true →
    ∃ frames, Frame.readAll a.body = .ok frames ∧ ∀ f ∈ frames, ∀ t ∈ f.offsets, t ∈ m.offsets

namespace Assembly

variable {l : ClassFile} {b : CodeBody} {m : Method} {stream : List StreamItem} {tail : PoolTail}
  {pieces : List Piece} {p : Placement} {q : Pool} {cs : List (UInt16 × Constant)} {e s : Piece}

theorem Rewrites.jump_of_branch (h : Rewrites m.code stream) (hread : m.IsRead)
    (he : e ∈ stream.flatMap (emitted m.code)) {t : Nat} (ht : e.instruction.operand = .branch t) :
    Opcode.isJump e.instruction.opcode = true ∨
      Opcode.isConditional e.instruction.opcode = true := by
  have hreplacement : ∀ i : Instruction, i.IsReplacement → i.operand = .branch t → i.Legal := by
    intro i hi hbranch
    cases hi with
    | legal hlegal => exact hlegal
    | integer value => cases hbranch
    | call member => cases hbranch
  have hlegal : e.instruction.Legal := by
    rcases mem_emitted he with ⟨s, hs, heq⟩ | ⟨ordinal, is, hitem, hi⟩
    · rw [heq] at ht ⊢
      exact hread.legal hs fun index hindex => by
        rw [ht] at hindex
        cases hindex
    · exact hreplacement _ (h.replacement ordinal is hitem _ hi) ht
  rw [Instruction.Legal, ht] at hlegal
  exact Format.jump_of_branch _ hlegal

theorem Settles.instruction_of_branch (h : Settles cs e s) {t : Nat}
    (ht : s.instruction.operand = .branch t) : e.instruction = s.instruction := by
  obtain ⟨origin, i⟩ := s
  obtain ⟨origin', j⟩ := e
  obtain ⟨-, hresolves⟩ := h
  cases hresolves with
  | same => rfl
  | constant => cases ht

theorem Stands.settled (h : Stands cs e s) (r : NewConstant) :
    s.instruction.operand ≠ .newConstant r := by
  obtain ⟨origin, j⟩ := e
  obtain ⟨⟨origin', i⟩, ⟨-, hresolves⟩, hw⟩ := h
  have hi : i.operand ≠ .newConstant r := by
    cases hresolves with
    | same hne => exact hne r
    | constant => exact nofun
  cases hw with
  | same => exact hi
  | goto | jsr => exact nofun

theorem encodeFrom_placed {n : Nat} {code : Bytes} (hplaces : Placement.Places n pieces p)
    (h : Instruction.Encodes (target p.map) 0 (p.pieces.map (·.instruction)) code) :
    encodeFrom p.map [] (p.pieces.zip p.offsets) = .ok code := by
  rw [hplaces.offsets]
  exact encodeFrom_of_encodes h

section Code

variable (hs : Rewrites m.code stream) (hread : m.IsRead)
  (hemits : piecesFrom m.code.toArray ⟨l.pool.count, [], [], []⟩ [] stream = .ok (pieces, tail))

include hread hemits

theorem settles_pieces :
    List.Forall₂ (Settles tail.constants) (stream.flatMap (emitted m.code)) pieces := by
  obtain ⟨-, ps, rfl, hps⟩ := piecesFrom_ok (PoolTail.extends_nil l.pool.count) hemits
  exact hps hread.settled

include hs

theorem origins_pieces : pieces.filterMap (·.origin) = m.offsets := by
  rw [Placement.origins_of_forall₂ (fun _ _ he => he.origin) (settles_pieces hread hemits),
    hs.origins]
  rfl

theorem jumpsWithin_pieces : ∀ s ∈ pieces, Placement.JumpsWithin m.offsets s := by
  intro s hmem t ht
  obtain ⟨e, he, hsettles⟩ := Result.exists_left_of_mem (settles_pieces hread hemits) hmem
  have hsame := hsettles.instruction_of_branch ht
  rw [← hsame] at ht ⊢
  have htarget : t ∈ e.instruction.targets := by
    rw [Instruction.targets, ht]
    exact List.mem_singleton_self t
  exact ⟨hs.emitted_targets hread he t htarget, hs.jump_of_branch hread he ht⟩

theorem exists_map_offset {n t : Nat} (hplaces : Placement.Places n pieces p)
    (ht : t ∈ m.offsets) : ∃ t' : Nat, p.map[t]? = some t' := by
  have horigins : p.pieces.filterMap (·.origin) = m.offsets := by
    rw [Placement.origins_of_forall₂ (fun _ _ hw => hw.origin) hplaces.widens,
      origins_pieces hs hread hemits]
  rw [hplaces.map]
  exact Placement.exists_mapOf (Nat.le_of_eq (Placement.length_offsets hplaces).symm)
    (.inr (horigins ▸ ht))

theorem exists_code {n : Nat} (hplaces : Placement.Places n pieces p)
    (hkeys : ∀ e ∈ stream.flatMap (emitted m.code), e.instruction.KeysInRange) :
    ∃ code, Instruction.Encodes (target p.map) 0 (p.pieces.map (·.instruction)) code := by
  have hstands : List.Forall₂ (Stands tail.constants) (stream.flatMap (emitted m.code)) p.pieces :=
    Placement.forall₂_trans (fun _ s _ he hw => ⟨s, he, hw⟩) (settles_pieces hread hemits)
      hplaces.widens
  refine Instruction.exists_encodes fun d hd => ?_
  rw [Placement.placedFrom_placed hplaces] at hd
  obtain ⟨⟨s, offset⟩, hplaced, rfl⟩ := List.mem_map.1 hd
  obtain ⟨e, he, hes⟩ := Result.exists_left_of_mem hstands (List.of_mem_zip hplaced).1
  have hrange : s.instruction.KeysInRange := by
    rw [Instruction.KeysInRange, hes.keys]
    exact hkeys e he
  refine Instruction.exists_encode hes.settled (hplaces.count_lt hplaced) hrange (fun t ht => ?_)
    fun t t' ht hmoved hnear => ?_
  · rw [hes.targets] at ht
    obtain ⟨t', ht'⟩ := exists_map_offset hs hread hemits hplaces (hs.emitted_targets hread he t ht)
    exact ⟨t', target_ok.2 ht'⟩
  · obtain ⟨moved, hmap', hreaches⟩ := hplaces.reaches _ hplaced t ht hnear
    obtain rfl := Option.some.inj ((target_ok.1 hmoved).symm.trans hmap')
    exact hreaches

end Code

namespace Arranges

variable {c c' : CodeBody} (h : Arranges l c m stream c' tail pieces p) {a : RawAttribute}

include h

theorem exists_moveAttribute (ha : a.IsMovable l m) : ∃ o, moveAttribute l p.map a = .ok o := by
  have hmoved : ∀ {x : Except Fault Bytes}, (∃ body, x = .ok body) →
      ∃ o, x.map (fun body => some (⟨a.name, body⟩ : RawAttribute)) = .ok o := by
    rintro _ ⟨body, rfl⟩
    exact ⟨_, rfl⟩
  have hvariables : l.isVariables a = true →
      ∃ body, VariableTable.move p.map a.body = .ok body := by
    intro hname
    obtain ⟨vs, rest, hcount, hbody, hvs⟩ := ha.ranges hname
    rw [hbody]
    exact VariableTable.exists_move h.isIncreasing h.recodes.places.isShort (fun _ => h.exists_map)
      hcount hvs rest
  unfold moveAttribute
  simp only
  split
  · rename_i hname
    obtain ⟨es, rest, hes⟩ := ha.lines (beq_iff_eq.2 hname)
    exact hmoved ⟨_, Result.bind_ok.2 ⟨(es, rest), hes, rfl⟩⟩
  · rename_i hname
    exact hmoved (hvariables (Bool.or_eq_true_iff.2 (.inl (beq_iff_eq.2 hname))))
  · rename_i hname
    exact hmoved (hvariables (Bool.or_eq_true_iff.2 (.inr (beq_iff_eq.2 hname))))
  · rename_i hname
    obtain ⟨frames, hframes, hoffsets⟩ := ha.frames (beq_iff_eq.2 hname)
    exact hmoved (Frame.exists_moveTable h.isIncreasing h.recodes.places.isShort hframes
      fun f hf t ht => h.exists_map (.inl (hoffsets f hf t ht)))
  · exact ⟨_, rfl⟩

theorem exists_moveHandler {r : RawHandler} (hstart : m.IsBoundary r.start.toNat)
    (hstop : m.IsBoundary r.stop.toNat) (hhandler : m.IsBoundary r.handler.toNat) :
    ∃ r', moveHandler p.map r = .ok r' := by
  have hpc : ∀ {v : UInt16}, m.IsBoundary v.toNat →
      ∃ w, (attempt .moveHandlers (target p.map v.toNat)).map UInt16.ofNat = .ok w := by
    intro v hv
    obtain ⟨t, ht⟩ := h.exists_map hv
    exact ⟨_, Result.map_ok.2 ⟨t, attempt_ok.2 (target_ok.2 ht), rfl⟩⟩
  obtain ⟨start, hstart⟩ := hpc hstart
  obtain ⟨stop, hstop⟩ := hpc hstop
  obtain ⟨handler, hhandler⟩ := hpc hhandler
  exact ⟨_, Result.bind_ok.2 ⟨start, hstart, Result.bind_ok.2 ⟨stop, hstop,
    Result.bind_ok.2 ⟨handler, hhandler, rfl⟩⟩⟩⟩

end Arranges

theorem okOrLimit_codeFor (hs : Rewrites m.code stream) (hreads : m.Reads q b.code b.handlers)
    (hkeys : ∀ e ∈ stream.flatMap (emitted m.code), e.instruction.KeysInRange)
    (ha : ∀ a ∈ b.attributes, a.IsMovable l m) : OkOrLimit (codeFor l b m stream) := by
  have hread : m.IsRead := ⟨q, b.code, b.handlers, hreads⟩
  refine .bind (okOrLimit_piecesFrom (fun _ => hs.inOrder.ordinal_lt) ..) ?_
  rintro ⟨pieces, tail⟩ hemits
  have horigins := origins_pieces hs hread hemits
  refine .bind (Placement.okOrLimit_ofPieces (jumpsWithin_pieces hs hread hemits)
    (horigins ▸ List.Subset.refl _)) fun p hp => ?_
  have hplaces := Placement.ofPieces_ok hp
  obtain ⟨code, hencodes⟩ := exists_code hs hread hemits hplaces hkeys
  -- the tables of the code have no part in where its instructions stand
  have harranges : Arranges l ⟨0, 0, b.code, [], []⟩ m stream ⟨0, 0, code, [], []⟩ tail pieces p :=
    ⟨⟨hemits, hplaces, hencodes, rfl, [], rfl, rfl⟩, hs.inOrder, hread, hreads.length.symm⟩
  have hcode := encodeFrom_placed hplaces hencodes
  obtain ⟨as, has⟩ := Result.exists_forall₂ fun a h => harranges.exists_moveAttribute (ha a h)
  have hmove : ∀ r ∈ b.handlers, ∃ r', moveHandler p.map r = .ok r' := fun r hr => by
    obtain ⟨g, hg, hhandler⟩ := Result.exists_of_mem_left hreads.handlers hr
    obtain ⟨hstart, hstop, htarget, -⟩ := Method.handlerOf_ok hhandler
    obtain ⟨hgs, hgh, hge⟩ := (Method.validate_iff.1 hreads.valid).2 g hg
    refine harranges.exists_moveHandler (.inl (hstart ▸ hgs)) ?_ (.inl (htarget ▸ hgh))
    exact hstop ▸ hge.symm
  obtain ⟨gs, hgs⟩ := Result.exists_forall₂ hmove
  exact .bind (.of_exists ⟨_, hcode⟩) fun _ _ => .bind (.of_exists ⟨as, Result.mapM_ok.2 has⟩)
    fun _ _ => .bind (.of_exists ⟨gs, Result.mapM_ok.2 hgs⟩) fun _ _ => .ok _

/-- Replacing the code of a method gives a class, or the format has no room for it, where the code
that is parsed is the code that is replaced, its tables hold their entries, these name boundaries of
the method that two bytes can give, and no sum that leads to the highest key of an emitted switch
leaves its range. -/
theorem replaceCode_ok_or_limit (name : String) (data : Bytes) (c : Class) (m : Method)
    (l : ClassFile) (b : CodeBody) (stream : List StreamItem) (hparse : Class.parse data = .ok c)
    (hm : m ∈ c.methods) (hagrees : Agrees data m l b)
    (htables : ∀ a ∈ b.attributes, a.IsMovable l m) (hs : Rewrites m.code stream)
    (hkeys : ∀ e ∈ stream.flatMap (emitted m.code), e.instruction.KeysInRange) :
    (∃ out, replaceCode name data m stream = .ok out) ∨
      ∃ lim, replaceCode name data m stream = .error (.notApplicable name (.limit lim)) := by
  obtain ⟨q, hreads⟩ := hagrees.exists_reads hparse hm
  obtain ⟨a, ha, hb⟩ := hagrees.body
  have hassemble : OkOrLimit (assemble data m stream) := by
    refine .bind (.of_exists ⟨l, hagrees.file⟩) fun l' hl' => ?_
    obtain rfl := Except.ok.inj (hagrees.file.symm.trans hl')
    simp only [ha]
    refine .bind (.of_exists ⟨b, hb⟩) fun b' hb' => ?_
    obtain rfl := Except.ok.inj (hb.symm.trans hb')
    rw [if_neg (not_not.2 hreads.length.symm)]
    exact .bind (okOrLimit_codeFor hs hreads hkeys htables) fun _ _ => .ok _
  unfold replaceCode
  revert hassemble
  generalize assemble data m stream = x
  intro hassemble
  cases hassemble with
  | ok out => exact .inl ⟨out, rfl⟩
  | limit lim => exact .inr ⟨lim, rfl⟩

end Assembly

namespace Specimen

def squaringBody : CodeBody :=
  { maxStack := 2, maxLocals := 1, code := [0x1a, 0x99, 0, 7, 0x1a, 0x1a, 0x68, 0xac, 0x03, 0xac]
    handlers := [⟨4, 8, 8, 0⟩]
    attributes := [⟨2, [0, 1, 0, 4, 0, 7]⟩, ⟨4, [0, 1, 0, 0, 0, 10, 0, 12, 0, 13, 0, 0]⟩,
      ⟨3, [0, 1, 8]⟩] }

theorem agrees_twinFile : ∃ l, ClassFile.read twinFile = .ok l ∧
    Assembly.Agrees twinFile squaring l squaringBody ∧ l.utf8? 2 = some "LineNumberTable" ∧
      l.utf8? 3 = some "StackMapTable" ∧ l.utf8? 4 = some "LocalVariableTable" := by
  decide +kernel

theorem movable_squaringBody {l : ClassFile} (hlines : l.utf8? 2 = some "LineNumberTable")
    (hframes : l.utf8? 3 = some "StackMapTable")
    (hranges : l.utf8? 4 = some "LocalVariableTable") :
    ∀ a ∈ squaringBody.attributes, a.IsMovable l squaring := by
  have hspans : (⟨0, 10, 12, 13, 0⟩ : VariableTable.Entry).Spans squaring.IsBoundary :=
    ⟨.inl (by decide), .inr rfl, by decide⟩
  have hjoin : 8 ∈ squaring.offsets := by decide
  refine List.forall_mem_cons.2 ⟨?_, List.forall_mem_cons.2 ⟨?_, List.forall_mem_singleton.2 ?_⟩⟩
  · refine ⟨fun _ => ⟨[⟨4, 7⟩], [], by decide⟩, ?_, ?_⟩
    · simp [ClassFile.isVariables, ClassFile.named, hlines]
    · simp [ClassFile.named, hlines]
  · refine ⟨?_, fun _ => ⟨[⟨0, 10, 12, 13, 0⟩], [], by decide, by decide,
      List.forall_mem_singleton.2 hspans⟩, ?_⟩
    · simp [ClassFile.named, hranges]
    · simp [ClassFile.named, hranges]
  · refine ⟨?_, ?_, fun _ => ⟨[⟨8, .same true⟩], by decide, ?_⟩⟩
    · simp [ClassFile.named, hframes]
    · simp [ClassFile.isVariables, ClassFile.named, hframes]
    · refine List.forall_mem_singleton.2 fun t ht => ?_
      obtain rfl := List.mem_singleton.1 ht
      exact hjoin

end Specimen

theorem Assembly.replaceCode_ok_or_limit_growing :
    ∃ l, Agrees Specimen.twinFile Specimen.squaring l Specimen.squaringBody ∧
      (∀ a ∈ Specimen.squaringBody.attributes, a.IsMovable l Specimen.squaring) ∧
      (∀ e ∈ Specimen.growing.flatMap (emitted Specimen.squaring.code),
        e.instruction.KeysInRange) ∧
      ((∃ out, replaceCode "S" Specimen.twinFile Specimen.squaring Specimen.growing = .ok out) ∨
        ∃ lim, replaceCode "S" Specimen.twinFile Specimen.squaring Specimen.growing
          = .error (.notApplicable "S" (.limit lim))) := by
  obtain ⟨l, -, hagrees, hlines, hframes, hranges⟩ := Specimen.agrees_twinFile
  have hmovable := Specimen.movable_squaringBody hlines hframes hranges
  have hkeys : ∀ e ∈ Specimen.growing.flatMap (emitted Specimen.squaring.code),
      e.instruction.KeysInRange := by decide
  exact ⟨l, hagrees, hmovable, hkeys, replaceCode_ok_or_limit "S" Specimen.twinFile Specimen.twins
    Specimen.squaring l Specimen.squaringBody Specimen.growing Specimen.parse_twinFile
    List.mem_cons_self hagrees hmovable Specimen.rewrites_growing hkeys⟩

namespace Instruction

theorem decodes_nops (offset n : Nat) : Decodes offset (List.replicate n Opcode.nop)
    ((List.range n).map fun k => (offset + k, plain Opcode.nop)) := by
  induction n generalizing offset with
  | zero => exact .nil
  | succ n ih =>
      have hrest := ih (offset + 1)
      simp only [Nat.add_right_comm offset 1, Nat.add_assoc offset] at hrest
      rw [List.replicate_succ, List.range_succ_eq_map, List.map_cons, List.map_map]
      exact .cons rfl hrest

theorem endFrom_nops (offset n : Nat) :
    endFrom offset (List.replicate n (plain Opcode.nop)) = offset + n := by
  induction n generalizing offset with
  | zero => rfl
  | succ n ih =>
      have hlength : (plain Opcode.nop).encodedLength offset = 1 := rfl
      rw [List.replicate_succ, endFrom, hlength, ih]
      omega

end Instruction

namespace Specimen

/-- The code of an instruction of three bytes and of `n` instructions of one byte. At the lengths
that matter it is too long to be evaluated, so what is read of it is proved for every `n`. -/
def longCode (n : Nat) : Bytes := Opcode.sipush :: 0 :: 0 :: List.replicate n Opcode.nop

def long (n : Nat) : Method :=
  { index := 0, name := "f", descriptor := "()V", access := 9, codeLength := n + 3
    code := ⟨0, ⟨Opcode.sipush, .short 0⟩, .other⟩ ::
      (List.range n).map fun k => ⟨3 + k, .plain Opcode.nop, .other⟩
    handlers := [], lines := [] }

def longRange (n : Nat) : VariableTable.Entry := ⟨3, .ofNat n, 9, 10, 0⟩

def longBody (n : Nat) : CodeBody :=
  ⟨1, 1, longCode n, [], [⟨2, VariableTable.writeAll [longRange n]⟩]⟩

def longPool : ConstantTable :=
  ⟨11, [(1, .utf8 [0x43, 0x6f, 0x64, 0x65]),
    (2, .utf8 [0x4c, 0x6f, 0x63, 0x61, 0x6c, 0x56, 0x61, 0x72, 0x69, 0x61, 0x62, 0x6c, 0x65, 0x54,
      0x61, 0x62, 0x6c, 0x65]),
    (3, .utf8 [0x66]), (4, .utf8 [0x28, 0x29, 0x56]), (5, .utf8 [0x53]), (6, .class 5),
    (7, .utf8 [0x4f]), (8, .class 7), (9, .utf8 [0x69]), (10, .utf8 [0x49])]⟩

def longFile (n : Nat) : ClassFile :=
  { minor := 0, major := 0x32, pool := longPool, access := 0x21, thisClass := 6, superClass := 8
    interfaces := [], fields := [], methods := [⟨9, 3, 4, [⟨1, (longBody n).write⟩]⟩]
    attributes := [] }

theorem length_longCode (n : Nat) : (longCode n).length = n + 3 := by
  simp [longCode]

theorem length_longBody (n : Nat) : (longBody n).write.length = n + 33 := by
  simp [longBody, CodeBody.write, RawAttribute.writeAll, RawAttribute.write,
    VariableTable.writeAll, VariableTable.Entry.write, Bytes.ofNat16, Bytes.ofNat32,
    length_longCode]
  omega

theorem pool_longPool : longPool.Valid ∧ longPool.IsFull := by
  have hread : ConstantTable.read longPool.write = .ok (longPool, []) := by decide +kernel
  exact ⟨(ConstantTable.read_iff.1 hread).1, by decide +kernel⟩

theorem names_longPool : ∃ q, Pool.ofTable longPool = .ok q ∧ q.utf8 1 = .ok "Code" ∧
    q.utf8 2 = .ok "LocalVariableTable" ∧ q.utf8 3 = .ok "f" ∧ q.utf8 4 = .ok "()V" ∧
    q.className 6 = .ok "S" := by
  decide +kernel

variable {n : Nat} (hn : n < 65536)

theorem reads_long (q : Pool) (n : Nat) : (long n).Reads q (longCode n) [] where
  sites := by
    refine Method.sites_iff.2 ⟨.cons (i := ⟨Opcode.sipush, .short 0⟩) rfl ?_, ?_⟩
    · have hnops := Instruction.decodes_nops 3 n
      rw [List.map_map]
      exact hnops
    · refine List.forall_mem_cons.2 ⟨rfl, List.forall_mem_map.2 fun k _ => rfl⟩
  handlers := rfl
  length := (length_longCode n).symm
  valid := by
    refine Method.validate_iff.2 ⟨List.forall_mem_cons.2 ⟨nofun, ?_⟩, nofun⟩
    exact List.forall_mem_map.2 fun k _ => nofun

include hn

theorem valid_longBody : (longBody n).Valid := by
  refine ⟨?_, by simp [longBody], by simp [longBody], List.forall_mem_singleton.2 ?_⟩
  · have hlength := length_longCode n
    show (longCode n).length < 4294967296
    omega
  · show (VariableTable.writeAll [longRange n]).length < 4294967296
    simp [VariableTable.writeAll, VariableTable.Entry.write, Bytes.ofNat16]

theorem valid_longFile : (longFile n).Valid where
  pool := pool_longPool.1
  interfaces := by simp [longFile]
  fields := ⟨by simp [longFile], nofun⟩
  methods := by
    refine ⟨by simp [longFile], List.forall_mem_singleton.2 ⟨by simp, ?_⟩⟩
    refine List.forall_mem_singleton.2 ?_
    have hlength := length_longBody n
    show (longBody n).write.length < 4294967296
    omega
  attributes := ⟨by simp [longFile], nofun⟩

theorem agrees_long : Class.parse (longFile n).write = .ok { owner with methods := [long n] } ∧
    Assembly.Agrees (longFile n).write (long n) (longFile n) (longBody n) := by
  obtain ⟨q, hq, hcode, htable, hname, hdescriptor, hclass⟩ := names_longPool
  have hvalid := valid_longFile hn
  have hread := ClassFile.read_iff.2 ⟨hvalid, rfl⟩
  have hbody : CodeBody.read (longBody n).write = .ok (longBody n) :=
    CodeBody.read_iff.2 ⟨valid_longBody hn, rfl⟩
  have htables : List.Forall₂ (RawAttribute.ReadsAs q) (longBody n).attributes
      [.other "LocalVariableTable"] :=
    .cons ⟨_, htable, Reader.bind_ok.2 ⟨_, _, Assembly.rows_writeAll [longRange n] (by simp), rfl⟩⟩
      .nil
  have hmember : List.Forall₂ (RawMember.ReadsAs q) (longFile n).methods
      [⟨3, 4, [.code (longCode n) [] [.other "LocalVariableTable"]]⟩] :=
    .cons ⟨rfl, rfl, .cons (RawAttribute.readsAs_code hcode hbody htables) .nil⟩ .nil
  have hstructure := ClassFile.readStructure_write hvalid hq .nil hmember .nil
  have hmethod : Method.ofEntry q 0 ⟨3, 4, [.code (longCode n) [] [.other "LocalVariableTable"]]⟩ 9
      = .ok (some (long n)) :=
    Method.ofEntry_some.2 ⟨⟨hname, hdescriptor, rfl, rfl⟩, longCode n, [], _, rfl, reads_long q n,
      by simp [long, Method.linesOf]⟩
  constructor
  · refine Class.parse_iff.2 ⟨_, _, hstructure, hread, hclass, .nil, rfl, ⟨none, rfl, rfl⟩,
      ⟨[], rfl, .nil⟩, rfl, Class.methodsOf_ok.2 ⟨[some (long n)], ?_, rfl⟩⟩
    exact Result.mapM_ok.2 (.cons hmethod .nil)
  · refine ⟨hread, ⟨⟨1, (longBody n).write⟩, ?_, hbody⟩, _, hstructure, _, rfl, rfl⟩
    have hnamed : (longFile n).named "Code" ⟨1, (longBody n).write⟩ = true :=
      (ClassFile.named_iff ⟨pool_longPool.1, pool_longPool.2, hq⟩ (by decide)).2 hcode
    exact List.find?_cons_of_pos (l := []) hnamed

omit hn

def shortened (n : Nat) : List StreamItem :=
  .replaced 0 [.plain Opcode.nop] :: (List.range n).map fun k => .kept (k + 1)

theorem eq_nop_of_replaced {n ordinal : Nat} {is : List Instruction}
    (h : StreamItem.replaced ordinal is ∈ shortened n) : is = [.plain Opcode.nop] := by
  rcases List.mem_cons.1 h with heq | hkept
  · cases heq
    rfl
  · obtain ⟨k, -, heq⟩ := List.mem_map.1 hkept
    cases heq

theorem rewrites_shortened (n : Nat) : Assembly.Rewrites (long n).code (shortened n) := by
  refine .of_isPlain ?_ (List.forall_mem_cons.2 ⟨by decide, List.forall_mem_map.2 fun _ _ => rfl⟩)
  simp [shortened, long, List.range_succ_eq_map, StreamItem.ordinal, Function.comp_def]

def shortPieces (n : Nat) : List Piece :=
  ⟨some 0, .plain Opcode.nop⟩ :: (List.range n).map fun k => ⟨some (3 + k), .plain Opcode.nop⟩

theorem keysInRange_shortened (n : Nat) :
    ∀ e ∈ (shortened n).flatMap (Assembly.emitted (long n).code), e.instruction.KeysInRange := by
  have hcode : ∀ s ∈ (long n).code, s.instruction.KeysInRange :=
    List.forall_mem_cons.2 ⟨nofun, List.forall_mem_map.2 fun _ _ => nofun⟩
  intro e he
  rcases Assembly.mem_emitted he with ⟨s, hs, heq⟩ | ⟨ordinal, is, his, hi⟩
  · rw [heq]
    exact hcode s hs
  · rw [eq_nop_of_replaced his, List.mem_singleton] at hi
    rw [hi]
    exact nofun

theorem piecesFrom_shortened (n : Nat) (t : PoolTail) :
    Assembly.piecesFrom (long n).code.toArray t [] (shortened n) = .ok (shortPieces n, t) := by
  have hkept : (List.range n).map (fun k => StreamItem.kept (k + 1))
      = ((List.range n).map (· + 1)).map .kept := by
    rw [List.map_map]
    rfl
  have hlt : ∀ k ∈ (List.range n).map (· + 1), k < (long n).code.length := by
    intro k hk
    obtain ⟨j, hj, rfl⟩ := List.mem_map.1 hk
    rw [List.mem_range] at hj
    simp only [long, List.length_cons, List.length_map, List.length_range]
    omega
  have hfirst : (long n).code.toArray[0]? = some ⟨0, ⟨Opcode.sipush, .short 0⟩, .other⟩ := by
    simp [long]
  have hrest := Assembly.flatMap_range (fun s : Site => (⟨some s.offset, s.instruction⟩ : Piece))
    ((List.range n).map fun k => ⟨3 + k, .plain Opcode.nop, .other⟩)
  rw [List.length_map, List.length_range, List.map_map] at hrest
  simp only [shortened, Assembly.piecesFrom, hfirst, hkept]
  refine Result.bind_ok.2 ⟨([⟨some 0, .plain Opcode.nop⟩], t), rfl, ?_⟩
  refine (Assembly.piecesFrom_kept hlt).trans ?_
  simp only [List.flatMap_map, long, List.getElem?_cons_succ, hrest]
  rfl

theorem ofPieces_shortened (h : n < 65535) :
    ∃ p, Placement.ofPieces (n + 3) (shortPieces n) = .ok p := by
  have hplain : ∀ s ∈ shortPieces n, s.instruction = .plain Opcode.nop :=
    List.forall_mem_cons.2 ⟨rfl, List.forall_mem_map.2 fun _ _ => rfl⟩
  have hnops : (shortPieces n).map (·.instruction)
      = List.replicate (n + 1) (.plain Opcode.nop) := by
    rw [List.eq_replicate_iff]
    exact ⟨by simp [shortPieces], List.forall_mem_map.2 hplain⟩
  refine ⟨_, Placement.ofPieces_of_reaches rfl rfl ?_ fun d hd t ht => ?_⟩
  · rw [hnops, Instruction.endFrom_nops]
    simp only [Placement.maxCodeLength]
    omega
  · rw [hplain d.1 (List.of_mem_zip hd).1] at ht
    cases ht

theorem start_mem_long {n : Nat} (h : 0 < n) : 3 ∈ (long n).offsets :=
  List.mem_cons_of_mem _ (List.mem_map.2 ⟨⟨3 + 0, .plain Opcode.nop, .other⟩,
    List.mem_map.2 ⟨0, List.mem_range.2 h, rfl⟩, rfl⟩)

theorem utf8_longFile (n : Nat) : (longFile n).utf8? 2 = some "LocalVariableTable" := by
  show { longFile 0 with methods := [] }.utf8? 2 = _
  decide +kernel

theorem codeFor_shortened {n : Nat} (hn : 65533 ≤ n) (hlimit : n < 65535) :
    Assembly.codeFor (longFile n) (longBody n) (long n) (shortened n)
      = .error .variableRangeOverflow := by
  obtain ⟨q, -⟩ := names_longPool
  have hread : (long n).IsRead := ⟨q, longCode n, [], reads_long q n⟩
  have hs := rewrites_shortened n
  have hemits := piecesFrom_shortened n ⟨(longFile n).pool.count, [], [], []⟩
  obtain ⟨p, hp⟩ := ofPieces_shortened hlimit
  have hplaces := Placement.ofPieces_ok hp
  obtain ⟨code, hencodes⟩ := Assembly.exists_code hs hread hemits hplaces
    (keysInRange_shortened n)
  have hcode := Assembly.encodeFrom_placed hplaces hencodes
  obtain ⟨t, ht⟩ := Assembly.exists_map_offset hs hread hemits hplaces (start_mem_long (by omega))
  have hsum : 65535 < (longRange n).start.toNat + (longRange n).length.toNat := by
    simp only [longRange, UInt16.toNat_ofNat']
    rw [Nat.mod_eq_of_lt (by omega)]
    show 65535 < 3 + n
    omega
  have hmove : Assembly.moveAttribute (longFile n) p.map
      ⟨2, VariableTable.writeAll [longRange n]⟩ = .error .variableRangeOverflow := by
    simp only [Assembly.moveAttribute, utf8_longFile]
    rw [VariableTable.move_overflow ht hsum]
    rfl
  have htables : (longBody n).attributes.mapM (Assembly.moveAttribute (longFile n) p.map)
      = .error .variableRangeOverflow := by
    simp only [longBody, List.mapM_cons, hmove]
    rfl
  have hlength : (longBody n).code.length = n + 3 := length_longCode n
  simp only [Assembly.codeFor, hemits, hlength, hp, hcode, htables, bind, Except.bind]

theorem replaceCode_shortened {n : Nat} (hn : 65533 ≤ n) (hlimit : n < 65535) (name : String) :
    Assembly.replaceCode name (longFile n).write (long n) (shortened n)
      = .error (.invalidClass name .variableRangeOverflow) := by
  obtain ⟨hfile, ⟨a, ha, hb⟩, -⟩ := (agrees_long (n := n) (by omega)).2
  have hcode := codeFor_shortened hn hlimit
  have hassemble : Assembly.assemble (longFile n).write (long n) (shortened n)
      = .error .variableRangeOverflow := by
    have hlength : (longBody n).code.length = (long n).codeLength := length_longCode n
    simp only [Assembly.assemble, hfile, ha, hb, hcode, bind, Except.bind]
    rw [if_neg (not_not.2 hlength)]
  rw [Assembly.replaceCode, hassemble]
  rfl

end Specimen

theorem Assembly.replaceCode_overflows : ∃ l b,
    Class.parse (Specimen.longFile 65533).write
        = .ok { Specimen.owner with methods := [Specimen.long 65533] } ∧
      Agrees (Specimen.longFile 65533).write (Specimen.long 65533) l b ∧
      b.attributes = [⟨2, VariableTable.writeAll [⟨3, 65533, 9, 10, 0⟩]⟩] ∧
      l.utf8? 2 = some "LocalVariableTable" ∧
      (Specimen.long 65533).IsBoundary 3 ∧ (Specimen.long 65533).IsBoundary (3 + 65533) ∧
      Rewrites (Specimen.long 65533).code (Specimen.shortened 65533) ∧
      replaceCode "S" (Specimen.longFile 65533).write (Specimen.long 65533)
          (Specimen.shortened 65533)
        = .error (.invalidClass "S" .variableRangeOverflow) := by
  obtain ⟨hparse, hagrees⟩ := Specimen.agrees_long (n := 65533) (by omega)
  exact ⟨_, _, hparse, hagrees, rfl, Specimen.utf8_longFile _,
    .inl (Specimen.start_mem_long (by omega)), .inr rfl, Specimen.rewrites_shortened _,
    Specimen.replaceCode_shortened (by omega) (by omega) "S"⟩

end BytecodeMutation
