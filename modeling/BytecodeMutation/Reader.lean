import BytecodeMutation.Fault

namespace BytecodeMutation

abbrev Reader := StateT Bytes (Except Fault)

namespace Reader

def u1 : Reader UInt8
  | a :: s => .ok (a, s)
  | [] => .error .classTruncated

def u2 : Reader UInt16
  | a :: b :: s => .ok (Bytes.word16 a b, s)
  | _ => .error .classTruncated

def u4 : Reader UInt32
  | a :: b :: c :: d :: s => .ok (Bytes.word32 a b c d, s)
  | _ => .error .classTruncated

def take (n : Nat) : Reader Bytes := fun s =>
  match Bytes.split? n s with
  | some p => .ok p
  | none => .error .classTruncated

def skip (n : Nat) : Reader Unit := fun s => (take n s).map fun (_, r) => ((), r)

def timesAfter {α : Type} (r : Reader α) : Nat → List α → Reader (List α)
  | 0, acc, s => .ok (acc.reverse, s)
  | n + 1, acc, s => match r s with
      | .ok (a, s) => timesAfter r n (a :: acc) s
      | .error e => .error e

def times {α : Type} (n : Nat) (r : Reader α) : Reader (List α) := timesAfter r n []

def counted {α : Type} (r : Reader α) : Reader (List α) := do
  times (← u2).toNat r

theorem u2_ofUInt16 (v : UInt16) (s : Bytes) : u2 (Bytes.ofUInt16 v ++ s) = .ok (v, s) := by
  show Except.ok (Bytes.word16 _ _, s) = _
  rw [Bytes.word16_ofUInt16]

theorem u4_ofUInt32 (v : UInt32) (s : Bytes) : u4 (Bytes.ofUInt32 v ++ s) = .ok (v, s) := by
  show Except.ok (Bytes.word32 _ _ _ _, s) = _
  rw [Bytes.word32_ofUInt32]

theorem take_append (a s : Bytes) : take a.length (a ++ s) = .ok (a, s) := by
  simp [take, Bytes.split?_append]

theorem length_u2 {s r : Bytes} {v : UInt16} (h : u2 s = .ok (v, r)) :
    r.length ≤ s.length := by
  unfold u2 at h
  split at h
  · simp_all only [Except.ok.injEq, Prod.mk.injEq, List.length_cons]; omega
  · simp at h

theorem length_take {n : Nat} {s a r : Bytes} (h : take n s = .ok (a, r)) :
    r.length ≤ s.length := by
  unfold take at h
  split at h
  · rename_i p hp
    obtain ⟨rfl⟩ : p = (a, r) := by simpa using h
    have := (Bytes.append_of_split? hp).1
    simp_all only [List.length_append]; omega
  · simp at h

theorem bind_ok {α β : Type} {x : Reader α} {f : α → Reader β} {s r : Bytes} {b : β} :
    (x >>= f) s = .ok (b, r) ↔ ∃ a t, x s = .ok (a, t) ∧ f a t = .ok (b, r) := by
  show Except.bind (x s) _ = _ ↔ _
  cases x s with
  | error e => simp [Except.bind]
  | ok p =>
      obtain ⟨a, t⟩ := p
      simp only [Except.bind, Except.ok.injEq, Prod.mk.injEq]
      exact ⟨fun h => ⟨a, t, ⟨rfl, rfl⟩, h⟩, fun ⟨_, _, ⟨ha, ht⟩, h⟩ => ha ▸ ht ▸ h⟩

theorem pure_ok {α : Type} {a b : α} {s r : Bytes} :
    (pure a : Reader α) s = .ok (b, r) ↔ a = b ∧ s = r := by
  show Except.ok (a, s) = _ ↔ _
  simp

def all {α : Type} (r : Reader α) (left : Nat → Fault) (s : Bytes) : Except Fault α :=
  match r s with
  | .ok (a, []) => .ok a
  | .ok (_, rest) => .error (left rest.length)
  | .error e => .error e

end Reader

end BytecodeMutation
