import BytecodeMutation.Proofs.Arrangement

namespace BytecodeMutation

open Instruction

theorem Instruction.targets_mapTargets (i : Instruction) (f : Nat → Nat) :
    targets ⟨i.opcode, i.operand.mapTargets f⟩ = i.targets.map f := by
  obtain ⟨opcode, operand⟩ := i
  cases operand with
  | lookupSwitch default cases => simp [targets, Operand.targets, Operand.mapTargets]
  | _ => rfl

namespace Assembly

theorem image_of_target {map : OffsetMap} {v w : UInt16} (hm : map.IsShort)
    (h : (attempt .moveHandlers (target map v.toNat)).map .ofNat = .ok w) :
    map[v.toNat]? = some w.toNat := by
  obtain ⟨t, ht, rfl⟩ := Result.map_ok.1 h
  have htarget := attempt_ok.1 ht
  unfold target at htarget
  split at htarget
  · rename_i moved hmoved
    cases htarget
    rw [hmoved, UInt16.toNat_ofNat', Nat.mod_eq_of_lt (hm hmoved)]
  · cases htarget

theorem moveHandler_ok {map : OffsetMap} {r r' : RawHandler} (hm : map.IsShort)
    (h : moveHandler map r = .ok r') :
    map[r.start.toNat]? = some r'.start.toNat ∧ map[r.stop.toNat]? = some r'.stop.toNat ∧
      map[r.handler.toNat]? = some r'.handler.toNat ∧ r'.catchType = r.catchType := by
  obtain ⟨start, hstart, h⟩ := Result.bind_ok.1 h
  obtain ⟨stop, hstop, h⟩ := Result.bind_ok.1 h
  obtain ⟨handler, hhandler, h⟩ := Result.bind_ok.1 h
  cases h
  exact ⟨image_of_target hm hstart, image_of_target hm hstop, image_of_target hm hhandler, rfl⟩

theorem Rewrites.emitted_targets {m : Method} {stream : List StreamItem} {e : Piece}
    (h : Rewrites m.code stream) (hread : m.IsRead) (he : e ∈ stream.flatMap (emitted m.code)) :
    ∀ t ∈ e.instruction.targets, t ∈ m.offsets := by
  intro t ht
  rcases mem_emitted he with ⟨s, hs, heq⟩ | ⟨ordinal, is, hitem, hi⟩
  · exact hread.targets hs t (heq ▸ ht)
  · obtain ⟨s, hs, rfl⟩ := h.targets ordinal is hitem _ hi t ht
    exact List.mem_map_of_mem hs

structure Carries (cs : List (UInt16 × Constant)) (f : Nat → Nat) (e : Piece) (s : Site) :
    Prop where
  offset : ∀ t, e.origin = some t → s.offset = f t
  becomes : Becomes cs f e.instruction s.instruction

structure Relocates (l : ClassFile) (c : CodeBody) (m : Method) (stream : List StreamItem)
    (c' : CodeBody) (tail : PoolTail) (pieces : List Piece) (p : Placement) (q q' : Pool) :
    Prop where
  recodes : Recodes l c m stream c' tail pieces p
  rewrites : Rewrites m.code stream
  reads : m.Reads q c.code c.handlers
  wide : ∀ s ∈ m.code, s.instruction.IsLegalWide
  within : q.Within q'
  pool : q'.IsOf (tail.extend l.pool)

variable {l : ClassFile} {c c' : CodeBody} {m : Method} {stream : List StreamItem}
  {tail : PoolTail} {pieces : List Piece} {p : Placement} {q q' : Pool}

structure Transfers (l : ClassFile) (c : CodeBody) (m : Method) (stream : List StreamItem)
    (c' : CodeBody) (tail : PoolTail) (pieces : List Piece) (p : Placement) (q q' : Pool) :
    Prop where
  recodes : Recodes l c m stream c' tail pieces p
  rewrites : Rewrites m.code stream
  reads : m.Reads q c.code c.handlers
  wide : ∀ s ∈ m.code, s.instruction.IsLegalWide
  within : q.Within q'
  members : ∀ e ∈ stream.flatMap (emitted m.code), ∀ member index,
    e.instruction.operand = .newConstant (.method member) →
    PoolTail.Holds (tail.extend l.pool).constants (.method member) index →
    q'.memberRef index = .ok member

namespace Transfers

variable (h : Transfers l c m stream c' tail pieces p q q')

include h

theorem arranges : Arranges l c m stream c' tail pieces p :=
  ⟨h.recodes, h.rewrites.inOrder, ⟨q, c.code, c.handlers, h.reads⟩, h.reads.length.symm⟩

theorem decodes : Decodes 0 c.code (m.code.map fun s => (s.offset, s.instruction)) :=
  (Method.sites_iff.1 h.reads.sites).1

theorem legal : ∀ s ∈ m.code, s.instruction.Legal := fun s hs =>
  h.decodes.legal _ (List.mem_map_of_mem hs) (h.wide s hs)

theorem emitted_ok {e : Piece} (he : e ∈ stream.flatMap (emitted m.code)) :
    (∃ s ∈ m.code, e.instruction = s.instruction) ∨ e.instruction.IsReplacement := by
  rcases mem_emitted he with hkept | ⟨ordinal, is, hitem, hi⟩
  · exact .inl hkept
  · exact .inr (h.rewrites.replacement ordinal is hitem _ hi)

theorem emitted_targets {e : Piece} (he : e ∈ stream.flatMap (emitted m.code)) :
    ∀ t ∈ e.instruction.targets, t ∈ m.offsets :=
  h.rewrites.emitted_targets h.arranges.read he

theorem exists_emitted {s : Piece} (hs : s ∈ p.pieces) :
    ∃ e ∈ stream.flatMap (emitted m.code), Stands (tail.extend l.pool).constants e s :=
  Result.exists_left_of_mem h.arranges.stands hs

theorem targets {s : Piece} (hs : s ∈ p.pieces) : ∀ t ∈ s.instruction.targets, t ∈ m.offsets := by
  obtain ⟨e, he, hstands⟩ := h.exists_emitted hs
  rw [hstands.targets]
  exact h.emitted_targets he

theorem legal_pieces {s : Piece} (hs : s ∈ p.pieces) : s.instruction.Legal := by
  obtain ⟨e, he, hstands⟩ := h.exists_emitted hs
  refine hstands.legal ?_
  rcases h.emitted_ok he with ⟨s₀, hs₀, heq⟩ | hi
  · rw [heq]
    exact .inl (h.legal s₀ hs₀)
  · exact .inr hi

theorem decodes_new : Decodes 0 c'.code (p.placed.map fun d =>
    (d.2, ⟨d.1.instruction.opcode, d.1.instruction.operand.mapTargets p.image⟩)) := by
  have hlength := h.recodes.places.length
  have hread := h.recodes.encodes.decodes (f := p.image)
    (List.forall_mem_map.2 fun s hs => h.legal_pieces hs) fun d hd t ht => by
      have hoffset := (placedFrom_lt hd).2
      rw [Placement.placedFrom_placed h.recodes.places] at hd
      obtain ⟨e, he, rfl⟩ := List.mem_map.1 hd
      obtain ⟨hmap, hlt⟩ := h.arranges.map_image (h.targets (List.of_mem_zip he).1 t ht)
      simp only [Placement.maxCodeLength] at hlength
      refine ⟨?_, .of_lt (by omega) (by omega)⟩
      simp only [target, hmap]
  rw [Placement.placedFrom_placed h.recodes.places, List.map_map] at hread
  exact hread

theorem exists_symbol {s : Piece} (hs : s ∈ p.pieces) (offset : Nat) :
    ∃ symbol, Method.symbolOf q' offset s.instruction = .ok symbol := by
  obtain ⟨⟨origin, j⟩, he, ⟨torigin, i⟩, ⟨-, hresolves⟩, hwidens⟩ := h.exists_emitted hs
  have hj := h.emitted_ok he
  cases hwidens with
  | goto | jsr => exact ⟨.other, rfl⟩
  | same =>
      cases hresolves with
      | same hne =>
          rcases hj with ⟨s₀, hs₀, rfl⟩ | hj
          · have hsymbol := (Method.sites_iff.1 h.reads.sites).2 s₀ hs₀
            exact ⟨s₀.symbol, Method.symbolOf_within h.within hsymbol offset⟩
          · obtain ⟨opcode, operand⟩ := j
            cases hj with
            | integer value => exact absurd rfl (hne _)
            | call member => exact absurd rfl (hne _)
            | legal _ hconstant hinterface =>
                cases operand with
                | constant index => exact absurd rfl (hconstant index)
                | invokeInterface index count => exact absurd rfl (hinterface index count)
                | _ => exact ⟨.other, rfl⟩
      | @constant opcode r index hholds =>
          rcases hj with ⟨s₀, hs₀, heq⟩ | hj
          · exact absurd (congrArg Instruction.operand heq).symm (h.arranges.read.settled s₀ hs₀ r)
          · cases hj with
            | legal hlegal => exact hlegal.elim
            | integer value => exact ⟨.other, rfl⟩
            | call member =>
                have hmember := h.members _ he member index rfl hholds
                refine ⟨.call .static member, ?_⟩
                exact Result.map_ok.2 ⟨member, attempt_ok.2 hmember, rfl⟩

theorem exists_sites : ∃ ss, Method.sites q' c'.code = .ok ss ∧ List.Forall₂ (fun d s =>
    s.offset = d.2 ∧ s.instruction =
      ⟨d.1.instruction.opcode, d.1.instruction.operand.mapTargets p.image⟩) p.placed ss := by
  have hsymbols : ∀ d ∈ p.placed, ∃ s : Site, (s.offset = d.2 ∧ s.instruction =
      ⟨d.1.instruction.opcode, d.1.instruction.operand.mapTargets p.image⟩) ∧
      Method.symbolOf q' s.offset s.instruction = .ok s.symbol := by
    intro d hd
    obtain ⟨symbol, hsymbol⟩ := h.exists_symbol (List.of_mem_zip hd).1 d.2
    refine ⟨⟨d.2, _, symbol⟩, ⟨rfl, rfl⟩, ?_⟩
    rw [Method.symbolOf_mapTargets]
    exact hsymbol
  obtain ⟨ss, hss⟩ := Result.exists_forall₂ hsymbols
  refine ⟨ss, Method.sites_iff.2 ⟨?_, ?_⟩, hss.imp fun _ _ hs => hs.1⟩
  · have hmap : ss.map (fun s => (s.offset, s.instruction)) = p.placed.map fun d => (d.2,
        ⟨d.1.instruction.opcode, d.1.instruction.operand.mapTargets p.image⟩) := by
      rw [← List.forall₂_eq_eq_eq, List.forall₂_map_left_iff, List.forall₂_map_right_iff]
      exact hss.flip.imp fun s d hs => Prod.ext hs.1.1 hs.1.2
    rw [hmap]
    exact h.decodes_new
  · intro s hs
    obtain ⟨d, -, -, hsymbol⟩ := Result.exists_left_of_mem hss hs
    exact hsymbol

theorem exists_handler {r r' : RawHandler} {g : Handler} (hr : moveHandler p.map r = .ok r')
    (hg : Method.handlerOf q r = .ok g) (hmem : g ∈ m.handlers) :
    ∃ g', Method.handlerOf q' r' = .ok g' ∧ g'.start ∈ p.offsets ∧ g'.handler ∈ p.offsets ∧
      (g'.stop = c'.code.length ∨ g'.stop ∈ p.offsets) := by
  obtain ⟨hstart, hstop, hhandler, hcatch⟩ := moveHandler_ok h.recodes.places.isShort hr
  obtain ⟨hs, hh, he⟩ := (Method.validate_iff.1 h.reads.valid).2 g hmem
  obtain ⟨heqs, heqe, heqh, hread⟩ := Method.handlerOf_ok (Method.handlerOf_within h.within hg)
  rw [← heqs] at hstart
  rw [← heqe] at hstop
  rw [← heqh] at hhandler
  refine ⟨_, hread r' hcatch, h.arranges.mem_offsets hs hstart,
    h.arranges.mem_offsets hh hhandler, ?_⟩
  rcases he with he | he
  · have hend := h.arranges.map_end
    rw [← he] at hend
    exact .inl (Option.some.inj (hstop.symm.trans hend))
  · exact .inr (h.arranges.mem_offsets he hstop)

theorem exists_handlers : ∃ gs, c'.handlers.mapM (Method.handlerOf q') = .ok gs ∧
    ∀ g ∈ gs, g.start ∈ p.offsets ∧ g.handler ∈ p.offsets ∧
      (g.stop = c'.code.length ∨ g.stop ∈ p.offsets) := by
  have hread : ∀ r' ∈ c'.handlers, ∃ g', Method.handlerOf q' r' = .ok g' ∧
      g'.start ∈ p.offsets ∧ g'.handler ∈ p.offsets ∧
      (g'.stop = c'.code.length ∨ g'.stop ∈ p.offsets) := by
    intro r' hr'
    obtain ⟨r, hr, hmove⟩ := Result.exists_of_mem_mapM h.recodes.handlers hr'
    obtain ⟨g, hg, hgr⟩ := Result.exists_of_mem_left h.reads.handlers hr
    exact h.exists_handler hmove hgr hg
  obtain ⟨gs, hgs⟩ := Result.exists_forall₂ hread
  refine ⟨gs, Result.mapM_ok.2 (hgs.imp fun _ _ hg => hg.1), fun g hg => ?_⟩
  obtain ⟨r', -, -, hvalid⟩ := Result.exists_left_of_mem hgs hg
  exact hvalid

theorem carries {d : Piece × Nat} {e : Piece} {s : Site} (hd : d ∈ p.placed)
    (he : Stands (tail.extend l.pool).constants e d.1) (hoffset : s.offset = d.2)
    (hs : s.instruction =
      ⟨d.1.instruction.opcode, d.1.instruction.operand.mapTargets p.image⟩) :
    Carries (tail.extend l.pool).constants p.image e s where
  offset t ht := by
    rw [← he.origin] at ht
    rw [hoffset, h.arranges.image_eq hd ht]
  becomes := by
    rw [hs]
    exact he.becomes p.image

theorem carried {ss : List Site} (hss : List.Forall₂ (fun d s => s.offset = d.2 ∧
      s.instruction = ⟨d.1.instruction.opcode, d.1.instruction.operand.mapTargets p.image⟩)
      p.placed ss) :
    List.Forall₂ (Carries (tail.extend l.pool).constants p.image)
      (stream.flatMap (emitted m.code)) ss := by
  have hstands := h.arranges.stands
  rw [← Placement.map_fst_placed h.recodes.places, List.forall₂_map_right_iff] at hstands
  have hplaced := (List.forall₂_and_left p.placed ss).2 ⟨fun _ hd => hd, hss⟩
  exact Placement.forall₂_trans (fun e d s he hs => h.carries hs.1 he hs.2.1 hs.2.2) hstands
    hplaced

theorem reads_new : ∃ ss gs, (∀ lines, Method.Reads q' c'.code c'.handlers
      { m with codeLength := c'.code.length, code := ss, handlers := gs, lines }) ∧
    List.Forall₂ (Carries (tail.extend l.pool).constants p.image)
      (stream.flatMap (emitted m.code)) ss := by
  obtain ⟨ss, hsites, hss⟩ := h.exists_sites
  obtain ⟨gs, hhandlers, hgs⟩ := h.exists_handlers
  have hoffsets : ss.map (·.offset) = p.offsets := by
    rw [← Placement.map_snd_placed h.recodes.places, ← List.forall₂_eq_eq_eq,
      List.forall₂_map_left_iff, List.forall₂_map_right_iff]
    exact hss.flip.imp fun _ _ hs => hs.1
  refine ⟨ss, gs, fun lines => ⟨hsites, hhandlers, rfl, Method.validate_iff.2 ⟨?_, ?_⟩⟩,
    h.carried hss⟩
  · intro s hs t ht
    obtain ⟨d, hd, -, hinstruction⟩ := Result.exists_left_of_mem hss hs
    rw [hinstruction, Instruction.targets_mapTargets] at ht
    obtain ⟨u, hu, rfl⟩ := List.mem_map.1 ht
    simp only [Method.offsets, hoffsets]
    exact h.arranges.image_mem (h.targets (List.of_mem_zip hd).1 u hu)
  · intro g hg
    simp only [Method.offsets, hoffsets]
    exact hgs g hg

end Transfers

namespace Relocates

variable (h : Relocates l c m stream c' tail pieces p q q')

include h

theorem transfers : Transfers l c m stream c' tail pieces p q q' :=
  ⟨h.recodes, h.rewrites, h.reads, h.wide, h.within,
    fun _ _ _ _ _ hholds => Pool.memberRef_of_holds h.pool hholds⟩

theorem emitted_targets {e : Piece} (he : e ∈ stream.flatMap (emitted m.code)) :
    ∀ t ∈ e.instruction.targets, t ∈ m.offsets :=
  h.transfers.emitted_targets he

theorem reads_new : ∃ ss gs, (∀ lines, Method.Reads q' c'.code c'.handlers
      { m with codeLength := c'.code.length, code := ss, handlers := gs, lines }) ∧
    List.Forall₂ (Carries (tail.extend l.pool).constants p.image)
      (stream.flatMap (emitted m.code)) ss :=
  h.transfers.reads_new

end Relocates

end Assembly

end BytecodeMutation
