import BytecodeMutation.Assembly
import BytecodeMutation.Proofs.Frames

namespace BytecodeMutation

open Reader

variable {map : OffsetMap} {body moved : Bytes}

theorem Reader.lift_ok {α : Type} {x : Except Fault α} {a : α} {s t : Bytes}
    (h : (liftM x : Reader α) s = .ok (a, t)) : x = .ok a ∧ t = s := by
  cases x with
  | error e => cases h
  | ok b =>
      cases h
      exact ⟨rfl, rfl⟩

theorem Reader.length_times {α : Type} {r : Reader α} {k : Nat}
    (hr : ∀ {s a t}, r s = .ok (a, t) → s.length = k + t.length) {n : Nat} {acc as : List α}
    {s t : Bytes} (h : timesAfter r n acc s = .ok (as, t)) :
    as.length = acc.length + n ∧ s.length = n * k + t.length := by
  induction n generalizing acc s with
  | zero =>
      cases h
      simp
  | succ n ih =>
      unfold timesAfter at h
      split at h
      · rename_i a u ha
        obtain ⟨hlen, hs⟩ := ih h
        rw [hr ha, hs, hlen, List.length_cons, Nat.succ_mul]
        omega
      · cases h

theorem length_flatMap_const {α : Type} {w : α → Bytes} {k : Nat} (hw : ∀ a, (w a).length = k)
    (as : List α) : (as.flatMap w).length = as.length * k := by
  induction as with
  | nil => simp
  | cons a as ih =>
      rw [List.flatMap_cons, List.length_append, hw, ih, List.length_cons, Nat.succ_mul]
      omega

namespace LineTable

def writeAll (es : List Entry) : Bytes := Bytes.ofNat16 es.length ++ es.flatMap Entry.write

theorem Entry.read_iff : Inverts Entry.read Entry.write fun _ => True := by
  intro s e t
  simp only [Entry.read, bind_ok, pure_ok, u2_iff, true_and]
  constructor
  · rintro ⟨start, _, rfl, line, _, rfl, rfl, rfl⟩
    simp [Entry.write]
  · rintro rfl
    exact ⟨_, _, List.append_assoc .., _, _, rfl, rfl, rfl⟩

theorem Entry.length_write (e : Entry) : e.write.length = 4 := rfl

theorem move_ok (h : move map body = .ok moved) :
    ∃ es, es.length < 65536 ∧ moved = writeAll es ∧ moved.length ≤ body.length := by
  obtain ⟨⟨es, rest⟩, hread, h⟩ := Result.bind_ok.1 h
  cases h
  obtain ⟨⟨hlt, -⟩, rfl⟩ := (counted_iff Entry.read_iff).1 hread
  have hle := List.length_filterMap_le (Entry.move? map) es
  refine ⟨es.filterMap (Entry.move? map), by omega, rfl, ?_⟩
  simp only [Bytes.ofNat16, List.length_append, Bytes.length_ofUInt16,
    length_flatMap_const Entry.length_write]
  omega

end LineTable

namespace VariableTable

def writeAll (es : List Entry) : Bytes := Bytes.ofNat16 es.length ++ es.flatMap Entry.write

theorem Entry.length_write (e : Entry) : e.write.length = 10 := rfl

theorem length_readMoved {s t : Bytes} {e : Entry} (h : readMoved map s = .ok (e, t)) :
    s.length = 10 + t.length := by
  simp only [readMoved, bind_ok, pure_ok, u2_iff] at h
  obtain ⟨start, _, rfl, length, u, rfl, range, _, hrange, name, _, rfl, type, _, rfl, index, _,
    rfl, rfl, rfl⟩ := h
  obtain rfl := (lift_ok hrange).2
  simp only [List.length_append, Bytes.length_ofUInt16]
  omega

theorem move_ok (h : move map body = .ok moved) :
    ∃ es, es.length < 65536 ∧ moved = writeAll es ∧ moved.length ≤ body.length := by
  obtain ⟨⟨es, rest⟩, hread, h⟩ := Result.bind_ok.1 h
  cases h
  obtain ⟨n, s, hn, htimes⟩ := bind_ok.1 hread
  obtain rfl := u2_iff.1 hn
  obtain ⟨hlen, hs⟩ := length_times length_readMoved htimes
  have hlt := n.toNat_lt
  refine ⟨es, by simp only [List.length_nil] at hlen; omega, rfl, ?_⟩
  simp only [Bytes.ofNat16, List.length_append, Bytes.length_ofUInt16, hs,
    length_flatMap_const Entry.length_write]
  simp only [List.length_nil] at hlen
  omega

end VariableTable

namespace Assembly

inductive Moves (l : ClassFile) (map : OffsetMap) (a : RawAttribute) : RawAttribute → Prop where
  | kept (h : isIdentity map = true) : Moves l map a a
  | lines (es : List LineTable.Entry) (hname : l.utf8? a.name = some "LineNumberTable")
      (hes : es.length < 65536) : Moves l map a ⟨a.name, LineTable.writeAll es⟩
  | variables (es : List VariableTable.Entry)
      (hname : l.utf8? a.name = some "LocalVariableTable" ∨
        l.utf8? a.name = some "LocalVariableTypeTable")
      (hes : es.length < 65536) : Moves l map a ⟨a.name, VariableTable.writeAll es⟩
  | frames (gs : List DeltaFrame) (hname : l.utf8? a.name = some "StackMapTable")
      (hgs : DeltaFrame.AllValid gs) : Moves l map a ⟨a.name, DeltaFrame.writeAll gs⟩

theorem moveAttribute_ok {l : ClassFile} {a b : RawAttribute} (hm : map.IsShort)
    (h : moveAttribute l map a = .ok (some b)) :
    Moves l map a b ∧ b.body.length ≤ a.body.length + 2048 := by
  unfold moveAttribute at h
  simp only at h
  split at h
  · rename_i hname
    obtain ⟨body, hbody, hb⟩ := Result.map_ok.1 h
    cases hb
    obtain ⟨es, hes, rfl, hlen⟩ := LineTable.move_ok hbody
    exact ⟨.lines es hname hes, by simp only; omega⟩
  · rename_i hname
    obtain ⟨body, hbody, hb⟩ := Result.map_ok.1 h
    cases hb
    obtain ⟨es, hes, rfl, hlen⟩ := VariableTable.move_ok hbody
    exact ⟨.variables es (.inl hname) hes, by simp only; omega⟩
  · rename_i hname
    obtain ⟨body, hbody, hb⟩ := Result.map_ok.1 h
    cases hb
    obtain ⟨es, hes, rfl, hlen⟩ := VariableTable.move_ok hbody
    exact ⟨.variables es (.inr hname) hes, by simp only; omega⟩
  · rename_i hname
    obtain ⟨body, hbody, hb⟩ := Result.map_ok.1 h
    cases hb
    obtain ⟨gs, hgs, rfl, hlen⟩ := Frame.moveTable_ok hm hbody
    exact ⟨.frames gs hname hgs, hlen⟩
  · split at h
    · rename_i hid
      cases h
      exact ⟨.kept hid, by omega⟩
    · cases h

end Assembly

end BytecodeMutation
