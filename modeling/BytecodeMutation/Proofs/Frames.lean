import BytecodeMutation.Assembly.Frames
import BytecodeMutation.Proofs.Codec

namespace BytecodeMutation

open Reader

namespace VerificationType

def Valid : VerificationType → Prop
  | .simple tag => tag ≤ 6
  | .object _ => True
  | .uninitialized offset => offset < 65536

theorem read_iff : Inverts read write Valid := by
  intro s a t
  constructor
  · intro h
    obtain ⟨tag, u, htag, hrest⟩ := bind_ok.1 h
    obtain rfl := u1_iff.1 htag
    split at hrest
    · rename_i hle
      obtain ⟨rfl, rfl⟩ := pure_ok.1 hrest
      exact ⟨hle, rfl⟩
    split at hrest
    · rename_i heq
      obtain ⟨index, v, hindex, hrest⟩ := bind_ok.1 hrest
      obtain ⟨rfl, rfl⟩ := pure_ok.1 hrest
      obtain rfl := u2_iff.1 hindex
      exact ⟨trivial, by rw [beq_iff_eq.1 heq]; rfl⟩
    split at hrest
    · rename_i heq
      obtain ⟨offset, v, hoffset, hrest⟩ := bind_ok.1 hrest
      obtain ⟨rfl, rfl⟩ := pure_ok.1 hrest
      obtain rfl := u2_iff.1 hoffset
      refine ⟨offset.toNat_lt, ?_⟩
      rw [beq_iff_eq.1 heq, write, Bytes.ofNat16, UInt16.ofNat_toNat]
      rfl
    · cases hrest
  · rintro ⟨hv, rfl⟩
    cases a with
    | simple tag =>
        refine bind_ok.2 ⟨tag, t, rfl, ?_⟩
        rw [if_pos (show tag ≤ 6 from hv)]
        rfl
    | object index => exact bind_ok.2 ⟨7, _, rfl, bind_ok.2 ⟨index, t, u2_ofUInt16 index t, rfl⟩⟩
    | uninitialized offset =>
        refine bind_ok.2 ⟨8, _, rfl, bind_ok.2 ⟨_, t, u2_ofUInt16 (.ofNat offset) t, ?_⟩⟩
        rw [UInt16.toNat_ofNat', Nat.mod_eq_of_lt hv]
        rfl

end VerificationType

namespace FrameForm

def Valid : FrameForm → Prop
  | .same _ => True
  | .sameLocals1 _ item => item.Valid
  | .chop count => 1 ≤ count ∧ count ≤ 3
  | .append locals => 1 ≤ locals.length ∧ locals.length ≤ 3 ∧ ∀ t ∈ locals, t.Valid
  | .full locals stack => (locals.length < 65536 ∧ ∀ t ∈ locals, t.Valid) ∧
      stack.length < 65536 ∧ ∀ t ∈ stack, t.Valid

def isCompact : FrameForm → Bool
  | .same compact | .sameLocals1 compact _ => compact
  | _ => false

end FrameForm

namespace DeltaFrame

structure Valid (f : DeltaFrame) : Prop where
  form : f.form.Valid
  delta : f.form.isCompact = true → f.delta ≤ 63

theorem delta_same (type : UInt8) (h : type ≤ 63) :
    type.toUInt16 ≤ 63 ∧ type.toUInt16.toUInt8 = type := by
  rw [UInt16.le_iff_toNat_le, UInt8.toNat_toUInt16]
  exact ⟨UInt8.le_iff_toNat_le.1 h, UInt8.toUInt8_toUInt16 type⟩

theorem delta_sameLocals1 (type : UInt8) (h : type ≤ 127) (h' : ¬ type ≤ 63) :
    (type - 64).toUInt16 ≤ 63 ∧ 64 + (type - 64).toUInt16.toUInt8 = type := by
  obtain ⟨hdelta, hbyte⟩ := delta_same (type - 64) (by grind)
  exact ⟨hdelta, by grind⟩

theorem chop_count (type : UInt8) (h : type ≤ 250) (h' : ¬ type ≤ 246) (h'' : type ≠ 247) :
    (1 ≤ 251 - type ∧ 251 - type ≤ 3) ∧ 251 - (251 - type) = type := by
  grind

theorem append_count (type : UInt8) (h : type ≤ 254) (h' : ¬ type ≤ 250) (h'' : type ≠ 251) :
    1 ≤ (type - 251).toNat ∧ (type - 251).toNat ≤ 3 ∧ .ofNat (251 + (type - 251).toNat) = type := by
  have hlow : 1 ≤ type - 251 := by grind
  have hhigh : type - 251 ≤ 3 := by grind
  refine ⟨UInt8.le_iff_toNat_le.1 hlow, UInt8.le_iff_toNat_le.1 hhigh, ?_⟩
  rw [UInt8.ofNat_add, UInt8.ofNat_toNat]
  grind

theorem eq_full (type : UInt8) (h : ¬ type ≤ 254) : type = 255 := by grind

theorem valid_of_read {s t : Bytes} {f : DeltaFrame} (h : read s = .ok (f, t)) :
    f.Valid ∧ s = f.write ++ t := by
  obtain ⟨type, u, htype, hrest⟩ := bind_ok.1 h
  obtain rfl := u1_iff.1 htype
  split at hrest
  · rename_i hsame
    obtain ⟨rfl, rfl⟩ := pure_ok.1 hrest
    obtain ⟨hdelta, hbyte⟩ := delta_same type hsame
    exact ⟨⟨trivial, fun _ => hdelta⟩, by simp [write, isShort, hdelta, hbyte]⟩
  split at hrest
  · rename_i hsame hlocals
    simp only [bind_ok, pure_ok, VerificationType.read_iff] at hrest
    obtain ⟨item, v, ⟨hitem, rfl⟩, rfl, rfl⟩ := hrest
    obtain ⟨hdelta, hbyte⟩ := delta_sameLocals1 type hlocals hsame
    refine ⟨⟨hitem, fun _ => hdelta⟩, ?_⟩
    simp only [write, isShort, Bool.true_and, hdelta, decide_true, if_true, hbyte, List.cons_append,
      List.nil_append]
  split at hrest
  · cases hrest
  rename_i hreserved
  obtain ⟨delta, v, hd, hlong⟩ := bind_ok.1 hrest
  obtain rfl := u2_iff.1 hd
  split at hlong
  · rename_i hlocals
    simp only [bind_ok, pure_ok, VerificationType.read_iff] at hlong
    obtain ⟨item, v, ⟨hitem, rfl⟩, rfl, rfl⟩ := hlong
    exact ⟨⟨hitem, nofun⟩, by simp [write, isShort, beq_iff_eq.1 hlocals]⟩
  rename_i hne
  split at hlong
  · rename_i hchop
    obtain ⟨rfl, rfl⟩ := pure_ok.1 hlong
    obtain ⟨hcount, hbyte⟩ := chop_count type hchop hreserved (by simpa using hne)
    exact ⟨⟨hcount, nofun⟩, by simp [write, hbyte]⟩
  rename_i hchop
  split at hlong
  · rename_i heq
    obtain ⟨rfl, rfl⟩ := pure_ok.1 hlong
    exact ⟨⟨trivial, nofun⟩, by simp [write, isShort, beq_iff_eq.1 heq]⟩
  rename_i hext
  split at hlong
  · rename_i happend
    simp only [bind_ok, pure_ok, times_iff VerificationType.read_iff] at hlong
    obtain ⟨locals, v, ⟨hlen, hlocals, rfl⟩, rfl, rfl⟩ := hlong
    obtain ⟨hone, hthree, hbyte⟩ := append_count type happend hchop (by simpa using hext)
    rw [← hlen] at hone hthree hbyte
    exact ⟨⟨⟨hone, hthree, hlocals⟩, nofun⟩, by simp [write, hbyte]⟩
  · rename_i happend
    simp only [bind_ok, pure_ok, counted_iff VerificationType.read_iff] at hlong
    obtain ⟨locals, v, ⟨hlocals, rfl⟩, stack, w, ⟨hstack, rfl⟩, rfl, rfl⟩ := hlong
    exact ⟨⟨⟨hlocals, hstack⟩, nofun⟩, by simp [write, eq_full type happend]⟩

theorem short_delta {delta : UInt16} (h : delta ≤ 63) :
    (delta.toUInt8 ≤ 63 ∧ delta.toUInt8.toUInt16 = delta) ∧ ¬ 64 + delta.toUInt8 ≤ 63 ∧
      64 + delta.toUInt8 ≤ 127 ∧ (64 + delta.toUInt8 - 64).toUInt16 = delta := by
  have hall : ∀ n < 64, (UInt16.ofNat n).toUInt8 ≤ 63 ∧
      (UInt16.ofNat n).toUInt8.toUInt16 = .ofNat n ∧ ¬ 64 + (UInt16.ofNat n).toUInt8 ≤ 63 ∧
      64 + (UInt16.ofNat n).toUInt8 ≤ 127 ∧
      (64 + (UInt16.ofNat n).toUInt8 - 64).toUInt16 = .ofNat n := by decide +kernel
  have hn := hall delta.toNat (Nat.lt_succ_of_le (UInt16.le_iff_toNat_le.1 h))
  rw [UInt16.ofNat_toNat] at hn
  exact ⟨⟨hn.1, hn.2.1⟩, hn.2.2⟩

theorem eq_of_count {count : UInt8} (h : 1 ≤ count ∧ count ≤ 3) :
    count = 1 ∨ count = 2 ∨ count = 3 := by
  grind

theorem read_of_valid {f : DeltaFrame} (h : f.Valid) (t : Bytes) :
    read (f.write ++ t) = .ok (f, t) := by
  obtain ⟨delta, form⟩ := f
  obtain ⟨hform, hdelta⟩ := h
  cases form with
  | same compact =>
      cases compact with
      | true =>
          have hdelta := hdelta rfl
          simp only [write, isShort, Bool.true_and, hdelta, decide_true, if_true,
            List.cons_append, List.nil_append]
          obtain ⟨hle, heq⟩ := (short_delta hdelta).1
          refine bind_ok.2 ⟨delta.toUInt8, t, rfl, ?_⟩
          rw [if_pos hle, heq]
          rfl
      | false => exact bind_ok.2 ⟨251, _, rfl, bind_ok.2 ⟨delta, t, u2_ofUInt16 delta t, rfl⟩⟩
  | sameLocals1 compact item =>
      have hread := VerificationType.read_iff.write hform t
      cases compact with
      | true =>
          simp only [write, isShort, Bool.true_and, hdelta rfl, decide_true, if_true,
            List.cons_append, List.nil_append]
          obtain ⟨hnot, hle, heq⟩ := (short_delta (hdelta rfl)).2
          refine bind_ok.2 ⟨64 + delta.toUInt8, item.write ++ t, rfl, ?_⟩
          rw [if_neg hnot, if_pos hle, heq]
          exact bind_ok.2 ⟨item, t, hread, rfl⟩
      | false =>
          exact bind_ok.2 ⟨247, _, rfl, bind_ok.2 ⟨delta, item.write ++ t,
            u2_iff.2 (List.append_assoc ..), bind_ok.2 ⟨item, t, hread, rfl⟩⟩⟩
  | chop count =>
      rcases eq_of_count hform with rfl | rfl | rfl <;>
        exact bind_ok.2 ⟨_, _, rfl, bind_ok.2 ⟨delta, t, u2_ofUInt16 delta t, rfl⟩⟩
  | append locals =>
      obtain ⟨hone, hthree, hlocals⟩ := hform
      have hread {n : Nat} (hn : locals.length = n) :=
        (times_iff VerificationType.read_iff (n := n) (t := t)).2 ⟨hn, hlocals, rfl⟩
      have hlen : locals.length = 1 ∨ locals.length = 2 ∨ locals.length = 3 := by omega
      simp only [write]
      rcases hlen with hn | hn | hn <;> rw [hn] <;>
        exact bind_ok.2 ⟨_, _, rfl, bind_ok.2 ⟨delta, _, u2_iff.2 (List.append_assoc ..),
          bind_ok.2 ⟨locals, t, hread hn, rfl⟩⟩⟩
  | full locals stack =>
      obtain ⟨hlocals, hstack⟩ := hform
      refine bind_ok.2 ⟨255, _, rfl, bind_ok.2 ⟨delta, _, u2_iff.2 ?_,
        bind_ok.2 ⟨locals, _, (counted_iff VerificationType.read_iff).2 ⟨hlocals, rfl⟩,
          bind_ok.2 ⟨stack, t, (counted_iff VerificationType.read_iff).2 ⟨hstack, rfl⟩, rfl⟩⟩⟩⟩
      simp only [List.append_eq, List.append_assoc]

theorem read_iff : Inverts read write Valid := by
  intro s f t
  refine ⟨valid_of_read, ?_⟩
  rintro ⟨hv, rfl⟩
  exact read_of_valid hv t

def normal (f : DeltaFrame) : DeltaFrame :=
  match f.form with
  | .same compact => ⟨f.delta, .same (isShort compact f.delta)⟩
  | .sameLocals1 compact item => ⟨f.delta, .sameLocals1 (isShort compact f.delta) item⟩
  | _ => f

theorem isShort_isShort (compact : Bool) (delta : UInt16) :
    isShort (isShort compact delta) delta = isShort compact delta := by
  simp [isShort]

theorem write_normal (f : DeltaFrame) : f.normal.write = f.write := by
  obtain ⟨delta, form⟩ := f
  cases form <;> simp only [normal, write, isShort_isShort]

theorem valid_normal {f : DeltaFrame} (h : f.form.Valid) : f.normal.Valid := by
  obtain ⟨delta, form⟩ := f
  cases form with
  | same compact => exact ⟨trivial, fun hs => by simp_all [normal, isShort, FrameForm.isCompact]⟩
  | sameLocals1 compact item =>
      exact ⟨h, fun hs => by simp_all [normal, isShort, FrameForm.isCompact]⟩
  | chop count => exact ⟨h, nofun⟩
  | append locals => exact ⟨h, nofun⟩
  | full locals stack => exact ⟨h, nofun⟩

def writeAll (fs : List DeltaFrame) : Bytes := Bytes.ofNat16 fs.length ++ fs.flatMap write

def AllValid (fs : List DeltaFrame) : Prop := fs.length < 65536 ∧ ∀ f ∈ fs, f.Valid

theorem counted_read_iff : Inverts (counted read) writeAll AllValid := counted_iff read_iff

end DeltaFrame

def OffsetMap.IsShort (map : OffsetMap) : Prop :=
  ∀ {t moved : Nat}, map[t]? = some moved → moved < 65536

variable {map : OffsetMap}

namespace VerificationType

theorem move_ok {t u : VerificationType} (hm : map.IsShort) (h : t.move map = .ok u)
    (ht : t.Valid) : u.Valid ∧ u.write.length = t.write.length := by
  unfold move at h
  split at h
  · split at h
    · rename_i hmoved
      cases h
      exact ⟨hm hmoved, rfl⟩
    · cases h
  · cases h
    exact ⟨ht, rfl⟩

theorem mapM_move_ok {ts us : List VerificationType} (hm : map.IsShort)
    (h : ts.mapM (move map) = .ok us) (ht : ∀ t ∈ ts, t.Valid) :
    us.length = ts.length ∧ (∀ u ∈ us, u.Valid) ∧
      (us.flatMap write).length = (ts.flatMap write).length := by
  have hf := Result.mapM_ok.1 h
  clear h
  induction hf with
  | nil => exact ⟨rfl, nofun, rfl⟩
  | cons hmove _ ih =>
      obtain ⟨ht, hts⟩ := List.forall_mem_cons.1 ht
      obtain ⟨hu, hlen⟩ := move_ok hm hmove ht
      obtain ⟨hlens, hus, hbytes⟩ := ih hts
      refine ⟨congrArg (· + 1) hlens, List.forall_mem_cons.2 ⟨hu, hus⟩, ?_⟩
      simp only [List.flatMap_cons, List.length_append, hlen, hbytes]

end VerificationType

namespace FrameForm

def size : FrameForm → Nat
  | .same _ | .chop _ => 0
  | .sameLocals1 _ item => item.write.length
  | .append locals => (locals.flatMap VerificationType.write).length
  | .full locals stack => 4 + (locals.flatMap VerificationType.write).length
      + (stack.flatMap VerificationType.write).length

theorem move_ok {f g : FrameForm} (hm : map.IsShort) (h : f.move map = .ok g) (hf : f.Valid) :
    g.Valid ∧ g.isCompact = f.isCompact ∧ g.size = f.size := by
  cases f with
  | same compact =>
      cases h
      exact ⟨trivial, rfl, rfl⟩
  | sameLocals1 compact item =>
      obtain ⟨item', hitem, rfl⟩ := Result.map_ok.1 h
      obtain ⟨hvalid, hbytes⟩ := VerificationType.move_ok hm hitem hf
      exact ⟨hvalid, rfl, hbytes⟩
  | chop count =>
      cases h
      exact ⟨hf, rfl, rfl⟩
  | append locals =>
      obtain ⟨hone, hthree, hlocals⟩ := hf
      obtain ⟨locals', hmove, rfl⟩ := Result.map_ok.1 h
      obtain ⟨hlen, hvalid, hbytes⟩ := VerificationType.mapM_move_ok hm hmove hlocals
      exact ⟨⟨hlen ▸ hone, hlen ▸ hthree, hvalid⟩, rfl, hbytes⟩
  | full locals stack =>
      obtain ⟨⟨hlt, hlocals⟩, hlt', hstack⟩ := hf
      obtain ⟨locals', hmove, h⟩ := Result.bind_ok.1 h
      obtain ⟨stack', hmove', h⟩ := Result.bind_ok.1 h
      cases h
      obtain ⟨hlen, hvalid, hbytes⟩ := VerificationType.mapM_move_ok hm hmove hlocals
      obtain ⟨hlen', hvalid', hbytes'⟩ := VerificationType.mapM_move_ok hm hmove' hstack
      exact ⟨⟨⟨hlen ▸ hlt, hvalid⟩, hlen' ▸ hlt', hvalid'⟩, rfl, by
        simp only [size, hbytes, hbytes']⟩

end FrameForm

theorem DeltaFrame.length_write (f : DeltaFrame) :
    f.write.length = (if isShort f.form.isCompact f.delta then 1 else 3) + f.form.size := by
  obtain ⟨delta, form⟩ := f
  have hsplit : ∀ {c : Bool} {s t : Bytes},
      (if c then s else t).length = if c then s.length else t.length := fun {c s t} =>
    apply_ite List.length (c = true) s t
  cases form with
  | same compact =>
      simp only [write, FrameForm.size, FrameForm.isCompact, hsplit]
      rfl
  | sameLocals1 compact item =>
      simp only [write, FrameForm.size, FrameForm.isCompact, List.length_append, hsplit]
      rfl
  | chop count => rfl
  | append locals =>
      simp only [write, FrameForm.size, FrameForm.isCompact, isShort, Bool.false_and,
        Bool.false_eq_true, if_false, List.length_append, List.length_cons, Bytes.length_ofUInt16]
  | full locals stack =>
      simp only [write, FrameForm.size, FrameForm.isCompact, isShort, Bool.false_and,
        Bool.false_eq_true, if_false, Bytes.ofNat16, List.length_append, List.length_cons,
        Bytes.length_ofUInt16]
      omega

namespace Frame

theorem placeAll_form (previous : Option Nat) (ds : List DeltaFrame) :
    (placeAll previous ds).map (·.form) = ds.map (·.form) := by
  induction ds generalizing previous with
  | nil => rfl
  | cons d ds ih => simp only [placeAll, List.map_cons, ih]

def base : Option Nat → Nat
  | none => 0
  | some p => p + 1

theorem delta_ok {previous : Option Nat} {offset : Nat} {d : UInt16}
    (h : delta previous offset = .ok d) : offset = base previous + d.toNat := by
  have hle : ∀ {n : Nat}, n ≤ 65535 → (UInt16.ofNat n).toNat = n := fun hn => by
    rw [UInt16.toNat_ofNat', Nat.mod_eq_of_lt (by omega)]
  unfold delta at h
  cases previous with
  | none =>
      simp only [bind, Except.bind, pure, Except.pure] at h
      split at h
      · cases h
      · cases h
        rw [hle (by omega), base, Nat.zero_add]
  | some p =>
      simp only at h
      split at h
      · cases h
      · simp only [bind, Except.bind, pure, Except.pure] at h
        split at h
        · cases h
        · cases h
          rw [hle (by omega), base]
          omega

def growth : List DeltaFrame → Nat
  | [] => 0
  | g :: gs => (if g.delta ≤ 63 then 0 else 2) + growth gs

theorem moveFrom_ok {previous : Option Nat} {acc out : List DeltaFrame} {fs : List Frame}
    (hm : map.IsShort) (hbase : base previous ≤ 65536)
    (h : moveFrom map previous acc fs = .ok out) :
    ∃ gs, out = acc.reverse ++ gs ∧ List.Forall₂ (fun f g => f.form.move map = .ok g.form) fs gs ∧
      32 * growth gs + base previous ≤ 65536 := by
  induction fs generalizing previous acc with
  | nil =>
      cases h
      exact ⟨[], by simp, .nil, by simpa [growth] using hbase⟩
  | cons f fs ih =>
      unfold moveFrom at h
      split at h
      · cases h
      · rename_i offset hoffset
        obtain ⟨delta, hdelta, h⟩ := Result.bind_ok.1 h
        obtain ⟨form, hform, h⟩ := Result.bind_ok.1 h
        have hlt := hm hoffset
        have heq := delta_ok hdelta
        have hnext : base (some offset) = offset + 1 := rfl
        obtain ⟨gs, rfl, hgs, hgrowth⟩ := ih (by omega) h
        refine ⟨⟨delta, form⟩ :: gs, by simp, .cons hform hgs, ?_⟩
        have hcons : growth (⟨delta, form⟩ :: gs) = (if delta ≤ 63 then 0 else 2) + growth gs := rfl
        rw [hcons]
        -- a frame that grows is 64 offsets past the last one, so one in 64 offsets can grow
        split
        · omega
        · rename_i hfar
          have hlong : ¬ delta.toNat ≤ 63 := fun h => hfar (UInt16.le_iff_toNat_le.2 h)
          omega

theorem length_moved {d g : DeltaFrame} (hm : map.IsShort) (h : d.form.move map = .ok g.form)
    (hd : d.Valid) : g.form.Valid ∧
      g.write.length ≤ d.write.length + if g.delta ≤ 63 then 0 else 2 := by
  obtain ⟨hg, hcompact, hsize⟩ := FrameForm.move_ok hm h hd.form
  refine ⟨hg, ?_⟩
  have hdelta := hd.delta
  rw [DeltaFrame.length_write, DeltaFrame.length_write, hcompact, hsize]
  cases hc : d.form.isCompact with
  | false =>
      simp only [DeltaFrame.isShort, Bool.false_and, Bool.false_eq_true, if_false]
      omega
  | true =>
      simp only [DeltaFrame.isShort, Bool.true_and, decide_eq_true_eq, hdelta hc, if_true]
      split <;> omega

theorem moved_forms {ds gs : List DeltaFrame} (hm : map.IsShort)
    (h : List.Forall₂ (fun d g => d.form.move map = .ok g.form) ds gs) (hv : ∀ d ∈ ds, d.Valid) :
    gs.length = ds.length ∧ (∀ g ∈ gs, g.form.Valid) ∧
      (gs.flatMap DeltaFrame.write).length ≤ (ds.flatMap DeltaFrame.write).length + growth gs := by
  induction h with
  | nil => exact ⟨rfl, nofun, Nat.le_refl _⟩
  | @cons d g ds gs hmove _ ih =>
      obtain ⟨hd, hds⟩ := List.forall_mem_cons.1 hv
      obtain ⟨hlen, hgs, hbytes⟩ := ih hds
      obtain ⟨hg, hwrite⟩ := length_moved hm hmove hd
      have hcons : growth (g :: gs) = (if g.delta ≤ 63 then 0 else 2) + growth gs := rfl
      refine ⟨congrArg (· + 1) hlen, List.forall_mem_cons.2 ⟨hg, hgs⟩, ?_⟩
      rw [List.flatMap_cons, List.flatMap_cons, List.length_append, List.length_append, hcons]
      omega

theorem moveTable_ok {body moved : Bytes} (hm : map.IsShort) (h : moveTable map body = .ok moved) :
    ∃ gs, DeltaFrame.AllValid gs ∧ moved = DeltaFrame.writeAll gs ∧
      moved.length ≤ body.length + 2048 := by
  obtain ⟨frames, hframes, h⟩ := Result.bind_ok.1 h
  obtain ⟨gs, hgs, h⟩ := Result.bind_ok.1 h
  cases h
  obtain ⟨ds, hds, rfl⟩ := Result.map_ok.1 hframes
  obtain ⟨⟨hlt, hvalid⟩, rfl⟩ := DeltaFrame.counted_read_iff.1 (all_iff.1 hds)
  obtain ⟨_, rfl, hplaced, hgrowth⟩ := moveFrom_ok hm (Nat.zero_le _) hgs
  have hforms : List.Forall₂ (fun (d g : DeltaFrame) => d.form.move map = .ok g.form) ds gs := by
    rw [← List.forall₂_map_left_iff (f := Frame.form)
      (R := fun form (g : DeltaFrame) => form.move map = .ok g.form), placeAll_form,
      List.forall₂_map_left_iff] at hplaced
    exact hplaced
  obtain ⟨hlen, hform, hbytes⟩ := moved_forms hm hforms hvalid
  refine ⟨gs.map DeltaFrame.normal, ⟨by simpa [hlen] using hlt, ?_⟩, ?_, ?_⟩
  · exact List.forall_mem_map.2 fun g hg => DeltaFrame.valid_normal (hform g hg)
  · simp only [DeltaFrame.writeAll, List.length_map, List.flatMap_map, DeltaFrame.write_normal]
  · simp only [DeltaFrame.writeAll, Bytes.ofNat16, List.length_append, Bytes.length_ofUInt16,
      List.length_nil]
    omega

end Frame

end BytecodeMutation
