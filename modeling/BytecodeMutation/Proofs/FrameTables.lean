import BytecodeMutation.Proofs.Frames

namespace BytecodeMutation

open Reader

def OffsetMap.IsIncreasing (map : OffsetMap) : Prop :=
  ∀ {s s' t t' : Nat}, map[s]? = some s' → map[t]? = some t' → s < t → s' < t'

variable {map : OffsetMap}

namespace VerificationType

def allocation? : VerificationType → Option Nat
  | .uninitialized offset => some offset
  | _ => none

inductive Moves (map : OffsetMap) : VerificationType → VerificationType → Prop where
  | simple (tag : UInt8) : Moves map (.simple tag) (.simple tag)
  | object (index : UInt16) : Moves map (.object index) (.object index)
  | uninitialized {offset moved : Nat} (h : map[offset]? = some moved) :
      Moves map (.uninitialized offset) (.uninitialized moved)

theorem move_iff {t u : VerificationType} : t.move map = .ok u ↔ Moves map t u := by
  constructor
  · intro h
    cases t with
    | simple tag =>
        cases h
        exact .simple tag
    | object index =>
        cases h
        exact .object index
    | uninitialized offset =>
        simp only [move] at h
        split at h
        · rename_i hmoved
          cases h
          exact .uninitialized hmoved
        · cases h
  · intro h
    cases h with
    | simple | object => rfl
    | uninitialized h => simp only [move, h]

theorem mapM_move_iff {ts us : List VerificationType} :
    ts.mapM (move map) = .ok us ↔ List.Forall₂ (Moves map) ts us := by
  simp only [Result.mapM_ok, move_iff]

theorem exists_moves {t : VerificationType}
    (h : ∀ offset, t.allocation? = some offset → ∃ moved : Nat, map[offset]? = some moved) :
    ∃ u, Moves map t u := by
  cases t with
  | simple tag => exact ⟨_, .simple tag⟩
  | object index => exact ⟨_, .object index⟩
  | uninitialized offset =>
      obtain ⟨moved, hmoved⟩ := h offset rfl
      exact ⟨_, .uninitialized hmoved⟩

theorem moves_self {t : VerificationType}
    (h : ∀ offset, t.allocation? = some offset → map[offset]? = some offset) : Moves map t t := by
  cases t with
  | simple tag => exact .simple tag
  | object index => exact .object index
  | uninitialized offset => exact .uninitialized (h offset rfl)

theorem Moves.allocation {t u : VerificationType} (h : Moves map t u) {moved : Nat}
    (hu : u.allocation? = some moved) : ∃ offset : Nat, map[offset]? = some moved := by
  cases h with
  | simple | object => cases hu
  | uninitialized h =>
      cases hu
      exact ⟨_, h⟩

end VerificationType

namespace FrameForm

def types : FrameForm → List VerificationType
  | .same _ | .chop _ => []
  | .sameLocals1 _ item => [item]
  | .append locals => locals
  | .full locals stack => locals ++ stack

inductive Moves (map : OffsetMap) : FrameForm → FrameForm → Prop where
  | same (compact compact' : Bool) : Moves map (.same compact) (.same compact')
  | sameLocals1 (compact compact' : Bool) {item item' : VerificationType}
      (h : item.Moves map item') :
      Moves map (.sameLocals1 compact item) (.sameLocals1 compact' item')
  | chop (count : UInt8) : Moves map (.chop count) (.chop count)
  | append {locals locals' : List VerificationType}
      (h : List.Forall₂ (VerificationType.Moves map) locals locals') :
      Moves map (.append locals) (.append locals')
  | full {locals locals' stack stack' : List VerificationType}
      (h : List.Forall₂ (VerificationType.Moves map) locals locals')
      (h' : List.Forall₂ (VerificationType.Moves map) stack stack') :
      Moves map (.full locals stack) (.full locals' stack')

theorem moves_of_move {f g : FrameForm} (h : f.move map = .ok g) : Moves map f g := by
  cases f with
  | same compact =>
      cases h
      exact .same compact compact
  | sameLocals1 compact item =>
      obtain ⟨item', hitem, rfl⟩ := Result.map_ok.1 h
      exact .sameLocals1 compact compact (VerificationType.move_iff.1 hitem)
  | chop count =>
      cases h
      exact .chop count
  | append locals =>
      obtain ⟨locals', hlocals, rfl⟩ := Result.map_ok.1 h
      exact .append (VerificationType.mapM_move_iff.1 hlocals)
  | full locals stack =>
      obtain ⟨locals', hlocals, h⟩ := Result.bind_ok.1 h
      obtain ⟨stack', hstack, h⟩ := Result.bind_ok.1 h
      cases h
      exact .full (VerificationType.mapM_move_iff.1 hlocals)
        (VerificationType.mapM_move_iff.1 hstack)

theorem exists_move {f : FrameForm} (h : ∀ t ∈ f.types, ∃ u, t.Moves map u) :
    ∃ g, f.move map = .ok g := by
  have hlist : ∀ {ts : List VerificationType}, (∀ t ∈ ts, ∃ u, t.Moves map u) →
      ∃ us, ts.mapM (VerificationType.move map) = .ok us := fun hts => by
    obtain ⟨us, hus⟩ := Result.exists_forall₂ hts
    exact ⟨us, VerificationType.mapM_move_iff.2 hus⟩
  cases f with
  | same compact => exact ⟨_, rfl⟩
  | sameLocals1 compact item =>
      obtain ⟨item', hitem⟩ := h item List.mem_cons_self
      exact ⟨_, Result.map_ok.2 ⟨item', VerificationType.move_iff.2 hitem, rfl⟩⟩
  | chop count => exact ⟨_, rfl⟩
  | append locals =>
      obtain ⟨locals', hlocals⟩ := hlist h
      exact ⟨_, Result.map_ok.2 ⟨locals', hlocals, rfl⟩⟩
  | full locals stack =>
      obtain ⟨locals', hlocals⟩ := hlist fun t ht => h t (List.mem_append_left _ ht)
      obtain ⟨stack', hstack⟩ := hlist fun t ht => h t (List.mem_append_right _ ht)
      exact ⟨_, Result.bind_ok.2 ⟨locals', hlocals, Result.bind_ok.2 ⟨stack', hstack, rfl⟩⟩⟩

theorem move_self {f : FrameForm} (h : ∀ t ∈ f.types, t.Moves map t) : f.move map = .ok f := by
  have hlist : ∀ {ts : List VerificationType}, (∀ t ∈ ts, t.Moves map t) →
      ts.mapM (VerificationType.move map) = .ok ts := fun hts =>
    VerificationType.mapM_move_iff.2 (List.forall₂_same.2 hts)
  cases f with
  | same compact => rfl
  | sameLocals1 compact item =>
      have hitem := VerificationType.move_iff.2 (h item List.mem_cons_self)
      exact Result.map_ok.2 ⟨item, hitem, rfl⟩
  | chop count => rfl
  | append locals => exact Result.map_ok.2 ⟨locals, hlist h, rfl⟩
  | full locals stack =>
      have hlocals := hlist fun t ht => h t (List.mem_append_left _ ht)
      have hstack := hlist fun t ht => h t (List.mem_append_right _ ht)
      exact Result.bind_ok.2 ⟨locals, hlocals, Result.bind_ok.2 ⟨stack, hstack, rfl⟩⟩

theorem Moves.exists_type {f g : FrameForm} (h : Moves map f g) {u : VerificationType}
    (hu : u ∈ g.types) : ∃ t ∈ f.types, t.Moves map u := by
  cases h with
  | same | chop => cases hu
  | sameLocals1 _ _ h =>
      obtain rfl := List.mem_singleton.1 hu
      exact ⟨_, List.mem_cons_self, h⟩
  | append h => exact Result.exists_left_of_mem h hu
  | full h h' =>
      rcases List.mem_append.1 hu with hu | hu
      · obtain ⟨t, ht, hmoves⟩ := Result.exists_left_of_mem h hu
        exact ⟨t, List.mem_append_left _ ht, hmoves⟩
      · obtain ⟨t, ht, hmoves⟩ := Result.exists_left_of_mem h' hu
        exact ⟨t, List.mem_append_right _ ht, hmoves⟩

end FrameForm

theorem DeltaFrame.delta_normal (d : DeltaFrame) : d.normal.delta = d.delta := by
  obtain ⟨delta, form⟩ := d
  cases form <;> rfl

theorem DeltaFrame.moves_normal {f : FrameForm} {d : DeltaFrame} (h : f.Moves map d.form) :
    f.Moves map d.normal.form := by
  obtain ⟨delta, form⟩ := d
  cases h with
  | same compact compact' => exact .same compact _
  | sameLocals1 compact compact' h => exact .sameLocals1 compact _ h
  | chop count => exact .chop count
  | append h => exact .append h
  | full h h' => exact .full h h'

namespace Frame

def offsets (f : Frame) : List Nat :=
  f.offset :: f.form.types.filterMap VerificationType.allocation?

structure Moves (map : OffsetMap) (f g : Frame) : Prop where
  offset : map[f.offset]? = some g.offset
  form : f.form.Moves map g.form

theorem Moves.exists_offset {f g : Frame} (h : Moves map f g) {t : Nat} (ht : t ∈ g.offsets) :
    ∃ s : Nat, map[s]? = some t := by
  rcases List.mem_cons.1 ht with rfl | ht
  · exact ⟨_, h.offset⟩
  · obtain ⟨u, hu, hallocation⟩ := List.mem_filterMap.1 ht
    obtain ⟨_, -, hmoves⟩ := h.form.exists_type hu
    exact hmoves.allocation hallocation

theorem place_eq (previous : Option Nat) (delta : UInt16) :
    place previous delta = base previous + delta.toNat := by
  cases previous with
  | none => exact (Nat.zero_add _).symm
  | some p => exact Nat.add_right_comm p delta.toNat 1

theorem delta_of_le {previous : Option Nat} {offset : Nat} (hle : base previous ≤ offset)
    (hlt : offset - base previous < 65536) :
    delta previous offset = .ok (.ofNat (offset - base previous)) := by
  cases previous with
  | none =>
      simp only [base, Nat.sub_zero] at hlt ⊢
      simp only [delta, pure_bind]
      rw [if_neg (by omega)]
      rfl
  | some p =>
      simp only [base] at hle hlt ⊢
      simp only [delta, pure_bind]
      rw [if_neg (by omega), if_neg (by omega)]
      rfl

theorem delta_place (previous : Option Nat) (d : UInt16) :
    delta previous (place previous d) = .ok d := by
  have hlt := d.toNat_lt
  have hsub : place previous d - base previous = d.toNat := by
    rw [place_eq, Nat.add_sub_cancel_left]
  rw [delta_of_le (place_eq previous d ▸ Nat.le_add_right _ _) (by omega), hsub,
    UInt16.ofNat_toNat]

theorem readAll_iff {body : Bytes} {frames : List Frame} :
    readAll body = .ok frames ↔ ∃ ds, DeltaFrame.AllValid ds ∧ body = DeltaFrame.writeAll ds ∧
      placeAll none ds = frames := by
  simp only [readAll, Result.map_ok, all_iff, DeltaFrame.counted_read_iff, List.append_nil,
    and_assoc]

theorem moveFrom_moves {previous previous' : Option Nat} {acc ds out : List DeltaFrame}
    (h : moveFrom map previous' acc (placeAll previous ds) = .ok out) :
    ∃ gs, out = acc.reverse ++ gs ∧
      List.Forall₂ (fun d g => d.form.move map = .ok g.form) ds gs ∧
      List.Forall₂ (Moves map) (placeAll previous ds)
        (placeAll previous' (gs.map DeltaFrame.normal)) := by
  induction ds generalizing previous previous' acc with
  | nil =>
      cases h
      exact ⟨[], by simp, .nil, .nil⟩
  | cons d ds ih =>
      simp only [placeAll, moveFrom] at h ⊢
      split at h
      · cases h
      · rename_i offset hoffset
        obtain ⟨delta, hdelta, h⟩ := Result.bind_ok.1 h
        obtain ⟨form, hform, h⟩ := Result.bind_ok.1 h
        obtain ⟨gs, rfl, hforms, hgs⟩ := ih h
        have hplace : place previous' (DeltaFrame.mk delta form).normal.delta = offset := by
          rw [DeltaFrame.delta_normal, place_eq, ← delta_ok hdelta]
        refine ⟨⟨delta, form⟩ :: gs, by simp, .cons hform hforms, ?_⟩
        rw [List.map_cons, placeAll, hplace]
        exact .cons ⟨hoffset, DeltaFrame.moves_normal (FrameForm.moves_of_move hform)⟩ hgs

theorem moveTable_moves {body moved : Bytes} (hm : map.IsShort)
    (h : moveTable map body = .ok moved) :
    ∃ frames frames', readAll body = .ok frames ∧ readAll moved = .ok frames' ∧
      List.Forall₂ (Moves map) frames frames' := by
  obtain ⟨frames, hframes, h⟩ := Result.bind_ok.1 h
  obtain ⟨out, hout, h⟩ := Result.bind_ok.1 h
  cases h
  obtain ⟨ds, ⟨hlt, hvalid⟩, -, rfl⟩ := readAll_iff.1 hframes
  obtain ⟨gs, hgs, hforms, hmoves⟩ := moveFrom_moves hout
  obtain rfl : out = gs := hgs
  obtain ⟨hlen, hform, -⟩ := moved_forms hm hforms hvalid
  refine ⟨_, _, hframes, readAll_iff.2 ⟨out.map DeltaFrame.normal, ⟨?_, ?_⟩, ?_, rfl⟩, hmoves⟩
  · rwa [List.length_map, hlen]
  · exact List.forall_mem_map.2 fun g hg => DeltaFrame.valid_normal (hform g hg)
  · simp only [DeltaFrame.writeAll, List.length_map, List.flatMap_map, DeltaFrame.write_normal]

theorem moveFrom_self {previous : Option Nat} {acc ds : List DeltaFrame}
    (h : ∀ f ∈ placeAll previous ds, ∀ t ∈ f.offsets, map[t]? = some t) :
    moveFrom map previous acc (placeAll previous ds) = .ok (acc.reverse ++ ds) := by
  induction ds generalizing previous acc with
  | nil => simp [placeAll, moveFrom]
  | cons d ds ih =>
      obtain ⟨hd, hds⟩ := List.forall_mem_cons.1 h
      obtain ⟨hoffset, htypes⟩ := List.forall_mem_cons.1 hd
      have hform : d.form.move map = .ok d.form := FrameForm.move_self fun t ht =>
        VerificationType.moves_self fun offset hallocation =>
          htypes offset (List.mem_filterMap.2 ⟨t, ht, hallocation⟩)
      simp only [placeAll, moveFrom, hoffset, delta_place, hform, bind, Except.bind, ih hds]
      simp

theorem moveTable_self {body : Bytes} {frames : List Frame} (h : readAll body = .ok frames)
    (hself : ∀ f ∈ frames, ∀ t ∈ f.offsets, map[t]? = some t) :
    moveTable map body = .ok body := by
  obtain ⟨ds, -, rfl, rfl⟩ := readAll_iff.1 h
  exact Result.bind_ok.2 ⟨_, h, Result.bind_ok.2 ⟨ds, moveFrom_self hself, rfl⟩⟩

theorem exists_moveFrom {previous previous' : Option Nat} {acc ds : List DeltaFrame}
    (hi : map.IsIncreasing) (hm : map.IsShort)
    (hbase : ∀ t t', base previous ≤ t → map[t]? = some t' → base previous' ≤ t')
    (h : ∀ f ∈ placeAll previous ds, ∀ t ∈ f.offsets, ∃ moved, map[t]? = some moved) :
    ∃ out, moveFrom map previous' acc (placeAll previous ds) = .ok out := by
  induction ds generalizing previous previous' acc with
  | nil => exact ⟨_, rfl⟩
  | cons d ds ih =>
      obtain ⟨hd, hds⟩ := List.forall_mem_cons.1 h
      obtain ⟨⟨offset, hoffset⟩, htypes⟩ := List.forall_mem_cons.1 hd
      obtain ⟨form, hform⟩ : ∃ g, d.form.move map = .ok g := FrameForm.exists_move fun t ht =>
        VerificationType.exists_moves fun allocation hallocation =>
          htypes allocation (List.mem_filterMap.2 ⟨t, ht, hallocation⟩)
      have hle := hbase _ _ (place_eq previous d.delta ▸ Nat.le_add_right _ _) hoffset
      have hlt := hm hoffset
      have hdelta := delta_of_le hle (by omega)
      -- every later frame stands past this one, and so does the place that it moves to
      have hnext : ∀ t t' : Nat, base (some (place previous d.delta)) ≤ t → map[t]? = some t' →
          base (some offset) ≤ t' := fun t t' ht ht' => hi hoffset ht' ht
      obtain ⟨out, hout⟩ : ∃ out, moveFrom map (some offset)
          (⟨.ofNat (offset - base previous'), form⟩ :: acc)
          (placeAll (some (place previous d.delta)) ds) = .ok out := ih hnext hds
      refine ⟨out, ?_⟩
      simp only [placeAll, moveFrom, hoffset, hdelta, hform, bind, Except.bind]
      exact hout

theorem exists_moveTable {body : Bytes} {frames : List Frame} (hi : map.IsIncreasing)
    (hm : map.IsShort) (h : readAll body = .ok frames)
    (hdefined : ∀ f ∈ frames, ∀ t ∈ f.offsets, ∃ moved, map[t]? = some moved) :
    ∃ moved, moveTable map body = .ok moved := by
  obtain ⟨ds, -, -, rfl⟩ := readAll_iff.1 h
  obtain ⟨out, hout⟩ : ∃ out, moveFrom map none [] (placeAll none ds) = .ok out :=
    exists_moveFrom hi hm (fun _ t' _ _ => Nat.zero_le t') hdefined
  exact ⟨_, Result.bind_ok.2 ⟨_, h, Result.bind_ok.2 ⟨out, hout, rfl⟩⟩⟩

/-- Moving a table along an order-preserving map gives the same frames at their new places. -/
theorem moveTable_relocates {body : Bytes} {frames : List Frame} (h : readAll body = .ok frames)
    (hi : map.IsIncreasing) (hm : map.IsShort)
    (hdefined : ∀ f ∈ frames, ∀ t ∈ f.offsets, ∃ moved, map[t]? = some moved) :
    ∃ moved frames', moveTable map body = .ok moved ∧ readAll moved = .ok frames' ∧
      List.Forall₂ (Moves map) frames frames' ∧
      ((∀ s t : Nat, map[s]? = some t → t = s) → moved = body) := by
  obtain ⟨moved, hmoved⟩ := exists_moveTable hi hm h hdefined
  obtain ⟨_, frames', hframes, hframes', hmoves⟩ := moveTable_moves hm hmoved
  cases h.symm.trans hframes
  refine ⟨moved, frames', hmoved, hframes', hmoves, fun hself => ?_⟩
  have hsame : moveTable map body = .ok body := moveTable_self h fun f hf t ht => by
    obtain ⟨t', ht'⟩ := hdefined f hf t ht
    rw [ht', hself t t' ht']
  exact Except.ok.inj (hmoved.symm.trans hsame)

end Frame

namespace Specimen

def frameTable : Bytes := [0, 2, 3, 255, 0, 4, 0, 0, 0, 1, 8, 0, 1]

def frames : List Frame := [⟨3, .same true⟩, ⟨8, .full [] [.uninitialized 1]⟩]

def shifts : OffsetMap := ((∅ : OffsetMap).insert 1 3).insert 3 70 |>.insert 8 90

theorem getElem?_shifts {t moved : Nat} :
    shifts[t]? = some moved ↔
      (t = 1 ∧ moved = 3) ∨ (t = 3 ∧ moved = 70) ∨ (t = 8 ∧ moved = 90) := by
  simp only [shifts, Std.TreeMap.getElem?_insert, Nat.compare_eq_eq, Std.TreeMap.getElem?_emptyc]
  split
  · simp; omega
  · split
    · simp; omega
    · split
      · simp; omega
      · simp; omega

end Specimen

theorem Frame.moveTable_relocates_shifts : ∃ moved frames',
    Frame.readAll Specimen.frameTable = .ok Specimen.frames ∧
      Frame.moveTable Specimen.shifts Specimen.frameTable = .ok moved ∧
      Frame.readAll moved = .ok frames' ∧ frames'.map (·.offset) = [70, 90] := by
  have hread : Frame.readAll Specimen.frameTable = .ok Specimen.frames := by decide +kernel
  have hincreasing : Specimen.shifts.IsIncreasing := by
    intro s s' t t' hs ht hlt
    rw [Specimen.getElem?_shifts] at hs ht
    omega
  have hshort : Specimen.shifts.IsShort := by
    intro t moved ht
    rw [Specimen.getElem?_shifts] at ht
    omega
  have hdefined : ∀ f ∈ Specimen.frames, ∀ t ∈ f.offsets, ∃ moved,
      Specimen.shifts[t]? = some moved := by
    intro f hf t ht
    have hmem : ∀ f ∈ Specimen.frames, ∀ t ∈ f.offsets, t = 1 ∨ t = 3 ∨ t = 8 := by decide
    simp only [Specimen.getElem?_shifts]
    rcases hmem f hf t ht with rfl | rfl | rfl
    · exact ⟨3, by omega⟩
    · exact ⟨70, by omega⟩
    · exact ⟨90, by omega⟩
  obtain ⟨moved, frames', hmoved, hframes', hmoves, -⟩ :=
    Frame.moveTable_relocates hread hincreasing hshort hdefined
  refine ⟨moved, frames', hread, hmoved, hframes', ?_⟩
  obtain ⟨g, gs, hg, hgs, rfl⟩ := List.forall₂_cons_left_iff.1 hmoves
  obtain ⟨g', gs', hg', hgs', rfl⟩ := List.forall₂_cons_left_iff.1 hgs
  obtain rfl := List.forall₂_nil_left_iff.1 hgs'
  have hfirst : g.offset = 70 := by simpa using Specimen.getElem?_shifts.1 hg.offset
  have hsecond : g'.offset = 90 := by simpa using Specimen.getElem?_shifts.1 hg'.offset
  rw [List.map_cons, List.map_cons, hfirst, hsecond, List.map_nil]

end BytecodeMutation
