import BytecodeMutation.Proofs.FrameTables
import BytecodeMutation.Proofs.Structures

namespace BytecodeMutation

open Reader

variable {P : Nat → Prop} {map : OffsetMap} {body moved : Bytes}

/-- A map that leaves the offsets of a kind, and nothing else, where they are. -/
structure OffsetMap.Keeps (map : OffsetMap) (P : Nat → Prop) : Prop where
  stays : ∀ {t : Nat}, P t → map[t]? = some t
  identity : ∀ {s t : Nat}, map[s]? = some t → t = s

theorem OffsetMap.image_self {pc : UInt16} (h : map[pc.toNat]? = some pc.toNat) :
    map.image pc = .ok pc := by
  simp only [image, h, UInt16.ofNat_toNat]

theorem OffsetMap.image_ok {pc v : UInt16} (hm : map.IsShort) (h : map.image pc = .ok v) :
    map[pc.toNat]? = some v.toNat := by
  unfold image at h
  split at h
  · rename_i offset hoffset
    cases h
    rw [hoffset, UInt16.toNat_ofNat', Nat.mod_eq_of_lt (hm hoffset)]
  · cases h

namespace Reader

variable {α : Type} {r : Reader α} {s t : Bytes}

theorem lift_of_ok {x : Except Fault α} {a : α} (h : x = .ok a) (s : Bytes) :
    (liftM x : Reader α) s = .ok (a, s) := by
  rw [h]
  rfl

theorem forall_timesAfter {Q : α → Prop} (hr : ∀ {s a t}, r s = .ok (a, t) → Q a) {n : Nat}
    {acc as : List α} (hacc : ∀ a ∈ acc, Q a) (h : timesAfter r n acc s = .ok (as, t)) :
    ∀ a ∈ as, Q a := by
  induction n generalizing acc s with
  | zero =>
      cases h
      simpa using hacc
  | succ n ih =>
      unfold timesAfter at h
      split at h
      · rename_i a u ha
        exact ih (List.forall_mem_cons.2 ⟨hr ha, hacc⟩) h
      · cases h

end Reader

namespace LineTable

def IsAligned (P : Nat → Prop) (body : Bytes) : Prop :=
  ∃ es, es.length < 65536 ∧ body = writeAll es ∧ ∀ e ∈ es, P e.start.toNat

theorem move_self (hstays : ∀ {t : Nat}, P t → map[t]? = some t) (h : IsAligned P body) :
    move map body = .ok body := by
  obtain ⟨es, hlt, rfl, hes⟩ := h
  have hread : counted Entry.read (writeAll es) = .ok (es.map id, []) :=
    counted_map hlt fun e _ t => Entry.read_iff.2 ⟨trivial, rfl⟩
  rw [List.map_id] at hread
  have hsame : es.filterMap (Entry.move? map) = es := by
    have hmoved : ∀ e ∈ es, Entry.move? map e = some e := fun e he => by
      simp only [Entry.move?, OffsetMap.image_self (hstays (hes e he))]
    rw [List.filterMap_congr hmoved, List.filterMap_some]
  refine Result.bind_ok.2 ⟨(es, []), hread, ?_⟩
  simp only [hsame]
  rfl

theorem move_aligned (hm : map.IsShort) (hP : ∀ {s t : Nat}, map[s]? = some t → P t)
    (h : move map body = .ok moved) : IsAligned P moved := by
  obtain ⟨⟨es, rest⟩, hread, h⟩ := Result.bind_ok.1 h
  cases h
  obtain ⟨⟨hlt, -⟩, rfl⟩ := (counted_iff Entry.read_iff).1 hread
  have hle := List.length_filterMap_le (Entry.move? map) es
  refine ⟨es.filterMap (Entry.move? map), by omega, rfl, fun e he => ?_⟩
  obtain ⟨e₀, -, hmoved⟩ := List.mem_filterMap.1 he
  unfold Entry.move? at hmoved
  split at hmoved
  · rename_i start hstart
    cases hmoved
    exact hP (OffsetMap.image_ok hm hstart)
  · cases hmoved

end LineTable

namespace VariableTable

def IsAligned (P : Nat → Prop) (body : Bytes) : Prop :=
  ∃ es, es.length < 65536 ∧ body = writeAll es ∧
    ∀ e ∈ es, P e.start.toNat ∧ P (e.start.toNat + e.length.toNat)

theorem moveRange_of_image {start length first last : UInt16}
    (hlt : start.toNat + length.toNat < 65536) (hfirst : map.image start = .ok first)
    (hlast : map.image (start + length) = .ok last) (hle : first ≤ last) :
    moveRange map start length = .ok (first, last - first) := by
  have hend : attempt .moveVariableEnd (map.image (start + length)) = .ok last :=
    attempt_ok.2 hlast
  simp only [moveRange, hfirst, bind, Except.bind]
  rw [if_neg (by omega)]
  simp only [hend, pure, Except.pure]
  rw [if_neg (UInt16.not_lt.2 hle)]

theorem moveRange_self {start length : UInt16} (hlt : start.toNat + length.toNat < 65536)
    (hstart : map[start.toNat]? = some start.toNat)
    (hstop : map[start.toNat + length.toNat]? = some (start.toNat + length.toNat)) :
    moveRange map start length = .ok (start, length) := by
  have hsum : (start + length).toNat = start.toNat + length.toNat := by
    rw [UInt16.toNat_add, Nat.mod_eq_of_lt hlt]
  rw [← hsum] at hstop
  have hle : start ≤ start + length := by
    rw [UInt16.le_iff_toNat_le, hsum]
    omega
  have hback : start + length - start = length := by
    rw [UInt16.add_comm, UInt16.add_sub_cancel]
  rw [moveRange_of_image hlt (OffsetMap.image_self hstart) (OffsetMap.image_self hstop) hle, hback]

theorem readMoved_write {e : Entry} {first distance : UInt16}
    (h : moveRange map e.start e.length = .ok (first, distance)) (t : Bytes) :
    readMoved map (e.write ++ t) = .ok ({ e with start := first, length := distance }, t) := by
  simp only [Entry.write, List.append_assoc]
  refine bind_ok.2 ⟨_, _, u2_ofUInt16 _ _, bind_ok.2 ⟨_, _, u2_ofUInt16 _ _, ?_⟩⟩
  refine bind_ok.2 ⟨_, _, lift_of_ok h _, ?_⟩
  exact bind_ok.2 ⟨_, _, u2_ofUInt16 _ _, bind_ok.2 ⟨_, _, u2_ofUInt16 _ _,
    bind_ok.2 ⟨_, _, u2_ofUInt16 _ _, rfl⟩⟩⟩

theorem move_self (hk : map.Keeps P) (hlt : ∀ {t : Nat}, P t → t < 65536)
    (h : IsAligned P body) : move map body = .ok body := by
  obtain ⟨es, hcount, rfl, hes⟩ := h
  have hread : counted (readMoved map) (writeAll es) = .ok (es.map id, []) :=
    counted_map hcount fun e he t => by
      obtain ⟨hstart, hstop⟩ := hes e he
      exact readMoved_write (moveRange_self (hlt hstop) (hk.stays hstart) (hk.stays hstop)) t
  rw [List.map_id] at hread
  exact Result.bind_ok.2 ⟨(es, []), hread, rfl⟩

theorem moveRange_ok {start length first distance : UInt16} (hm : map.IsShort)
    (h : moveRange map start length = .ok (first, distance)) :
    map[start.toNat]? = some first.toNat ∧
      map[start.toNat + length.toNat]? = some (first.toNat + distance.toNat) := by
  obtain ⟨first', hfirst, h⟩ := Result.bind_ok.1 h
  simp only at h
  split at h
  · cases h
  rename_i hlt
  obtain ⟨last, hlast, h⟩ := Result.bind_ok.1 h
  split at h
  · cases h
  rename_i horder
  cases h
  have hsum : (start + length).toNat = start.toNat + length.toNat := by
    rw [UInt16.toNat_add, Nat.mod_eq_of_lt (by omega)]
  have hle : first ≤ last := UInt16.not_lt.1 horder
  have hback : first.toNat + (last - first).toNat = last.toNat := by
    rw [UInt16.toNat_sub_of_le last first hle]
    have := UInt16.le_iff_toNat_le.1 hle
    omega
  rw [hback, ← hsum]
  exact ⟨OffsetMap.image_ok hm hfirst, OffsetMap.image_ok hm (attempt_ok.1 hlast)⟩

theorem moveRange_aligned {start length first distance : UInt16} (hm : map.IsShort)
    (hP : ∀ {s t : Nat}, map[s]? = some t → P t)
    (h : moveRange map start length = .ok (first, distance)) :
    P first.toNat ∧ P (first.toNat + distance.toNat) := by
  obtain ⟨hfirst, hlast⟩ := moveRange_ok hm h
  exact ⟨hP hfirst, hP hlast⟩

theorem readMoved_aligned (hm : map.IsShort) (hP : ∀ {s t : Nat}, map[s]? = some t → P t)
    {s t : Bytes} {e : Entry} (h : readMoved map s = .ok (e, t)) :
    P e.start.toNat ∧ P (e.start.toNat + e.length.toNat) := by
  simp only [readMoved, bind_ok, pure_ok] at h
  obtain ⟨start, _, -, length, _, -, range, _, hrange, name, _, -, type, _, -, index, _, -, rfl,
    -⟩ := h
  exact moveRange_aligned hm hP (lift_ok hrange).1

theorem move_aligned (hm : map.IsShort) (hP : ∀ {s t : Nat}, map[s]? = some t → P t)
    (h : move map body = .ok moved) : IsAligned P moved := by
  obtain ⟨⟨es, rest⟩, hread, h⟩ := Result.bind_ok.1 h
  cases h
  obtain ⟨n, s, hn, htimes⟩ := bind_ok.1 hread
  have hlen := (length_times length_readMoved htimes).1
  have hlt := n.toNat_lt
  simp only [List.length_nil] at hlen
  exact ⟨es, by omega, rfl, forall_timesAfter (readMoved_aligned hm hP)
    (List.forall_mem_nil _) htimes⟩

end VariableTable

namespace Frame

def IsAligned (P : Nat → Prop) (body : Bytes) : Prop :=
  ∃ frames, readAll body = .ok frames ∧ ∀ f ∈ frames, ∀ t ∈ f.offsets, P t

theorem moveTable_aligned_self (hk : map.Keeps P) (h : IsAligned P body) :
    moveTable map body = .ok body := by
  obtain ⟨frames, hread, hframes⟩ := h
  exact moveTable_self hread fun f hf t ht => hk.stays (hframes f hf t ht)

theorem moveTable_aligned (hm : map.IsShort) (hP : ∀ {s t : Nat}, map[s]? = some t → P t)
    (h : moveTable map body = .ok moved) : IsAligned P moved := by
  obtain ⟨frames, frames', -, hread, hmoves⟩ := moveTable_moves hm h
  refine ⟨frames', hread, fun g hg t ht => ?_⟩
  obtain ⟨f, -, hfg⟩ := Result.exists_left_of_mem hmoves hg
  obtain ⟨s, hs⟩ := hfg.exists_offset ht
  exact hP hs

end Frame

/-- An attribute of the code: a table that is moved names offsets of a kind only. -/
structure RawAttribute.IsAligned (l : ClassFile) (P : Nat → Prop) (a : RawAttribute) : Prop where
  lines : l.named "LineNumberTable" a = true → LineTable.IsAligned P a.body
  ranges : l.named "LocalVariableTable" a = true ∨ l.named "LocalVariableTypeTable" a = true →
    VariableTable.IsAligned P a.body
  frames : l.named "StackMapTable" a = true → Frame.IsAligned P a.body

namespace Assembly

variable {l l' : ClassFile} {a b : RawAttribute}

theorem isIdentity_iff : isIdentity map = true ↔ ∀ {s t : Nat}, map[s]? = some t → t = s := by
  simp only [isIdentity, List.all_eq_true, beq_iff_eq, Prod.forall,
    Std.TreeMap.mem_toList_iff_getElem?_eq_some]
  exact ⟨fun h s t hst => (h s t hst).symm, fun h s t hst => (h hst).symm⟩

theorem moveAttribute_self (hk : map.Keeps P) (hlt : ∀ {t : Nat}, P t → t < 65536)
    (h : a.IsAligned l P) : moveAttribute l map a = .ok (some a) := by
  have hsame : ∀ {x : Except Fault Bytes}, x = .ok a.body →
      x.map (fun b => some (⟨a.name, b⟩ : RawAttribute)) = .ok (some a) := fun hx => by
    rw [hx]
    rfl
  unfold moveAttribute
  simp only
  split
  · rename_i hname
    exact hsame (LineTable.move_self hk.stays (h.lines (beq_iff_eq.2 hname)))
  · rename_i hname
    exact hsame (VariableTable.move_self hk hlt (h.ranges (.inl (beq_iff_eq.2 hname))))
  · rename_i hname
    exact hsame (VariableTable.move_self hk hlt (h.ranges (.inr (beq_iff_eq.2 hname))))
  · rename_i hname
    exact hsame (Frame.moveTable_aligned_self hk (h.frames (beq_iff_eq.2 hname)))
  · rw [isIdentity_iff.2 hk.identity]
    rfl

theorem moveAttribute_aligned (hm : map.IsShort) (hP : ∀ {s t : Nat}, map[s]? = some t → P t)
    (hnamed : ∀ {name}, ClassFile.IsPlain name → l'.named name a = l.named name a)
    (h : moveAttribute l map a = .ok (some b)) : b.IsAligned l' P := by
  have hsame : b.name = a.name := by
    have hmoves := (moveAttribute_ok hm h).1
    cases hmoves <;> rfl
  have hold : ∀ {name}, ClassFile.IsPlain name → l'.named name b = true →
      l.utf8? a.name = some name := by
    intro name hplain hname
    rw [ClassFile.named, hsame] at hname
    exact beq_iff_eq.1 ((hnamed hplain).symm.trans hname)
  have hmoved : ∀ {x : Except Fault Bytes},
      x.map (fun body => some (⟨a.name, body⟩ : RawAttribute)) = .ok (some b) →
        x = .ok b.body := by
    intro x hx
    obtain ⟨body, hbody, hb⟩ := Result.map_ok.1 hx
    cases hb
    exact hbody
  refine ⟨fun hname => ?_, fun hname => ?_, fun hname => ?_⟩
  · simp only [moveAttribute, hold (by decide) hname] at h
    exact LineTable.move_aligned hm hP (hmoved h)
  · rcases hname with hname | hname
    · simp only [moveAttribute, hold (by decide) hname] at h
      exact VariableTable.move_aligned hm hP (hmoved h)
    · simp only [moveAttribute, hold (by decide) hname] at h
      exact VariableTable.move_aligned hm hP (hmoved h)
  · simp only [moveAttribute, hold (by decide) hname] at h
    exact Frame.moveTable_aligned hm hP (hmoved h)

end Assembly

end BytecodeMutation
