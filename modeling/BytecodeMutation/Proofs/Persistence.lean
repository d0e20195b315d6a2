import BytecodeMutation.ClassFile.Structure
import BytecodeMutation.Proofs.Frames
import BytecodeMutation.Proofs.Layout

namespace BytecodeMutation

namespace Reader

variable {α β : Type}

def Persists (r r' : Reader α) : Prop :=
  ∀ s t u a, r s = .ok (a, t) → r' (s ++ u) = .ok (a, t ++ u)

variable {r r' q q' : Reader α} {w : α → Bytes} {valid : α → Prop}

theorem Inverts.persists (h : Inverts r w valid) : Persists r r := by
  intro s t u a hr
  obtain ⟨ha, rfl⟩ := h.1 hr
  rw [List.append_assoc]
  exact h.write ha (t ++ u)

theorem persists_pure (a : α) : Persists (pure a) (pure a) := by
  intro s t u b hr
  obtain ⟨rfl, rfl⟩ := pure_ok.1 hr
  rfl

theorem persists_throw (e : Fault) : Persists (throw e : Reader α) r :=
  fun _ _ _ _ hr => nomatch hr

theorem Persists.bind {f f' : α → Reader β} (h : Persists r r') (hf : ∀ a, Persists (f a) (f' a)) :
    Persists (r >>= f) (r' >>= f') := by
  intro s t u b hr
  obtain ⟨a, v, ha, hb⟩ := bind_ok.1 hr
  exact bind_ok.2 ⟨a, v ++ u, h s v u a ha, hf a v t u b hb⟩

theorem Persists.ite {c : Prop} [Decidable c] (h : Persists r r') (h' : Persists q q') :
    Persists (if c then r else q) (if c then r' else q') := by
  split
  · exact h
  · exact h'

theorem persists_u1 : Persists u1 u1 := by
  intro s t u a hr
  rw [u1_iff.1 hr]
  rfl

theorem persists_u2 : Persists u2 u2 := u2_inverts.persists

theorem persists_u4 : Persists u4 u4 := by
  intro s t u a hr
  rw [u4_iff.1 hr, List.append_assoc]
  exact u4_ofUInt32 a (t ++ u)

theorem persists_take (n : Nat) : Persists (take n) (take n) := by
  intro s t u a hr
  obtain ⟨rfl, rfl⟩ := take_iff.1 hr
  rw [List.append_assoc]
  exact take_append a (t ++ u)

theorem persists_skip (n : Nat) : Persists (skip n) (skip n) := by
  intro s t u a hr
  obtain ⟨b, hb, rfl⟩ := skip_iff.1 hr
  exact skip_iff.2 ⟨b, hb, List.append_assoc ..⟩

theorem Persists.timesAfter (h : Persists r r') (n : Nat) (acc : List α) :
    Persists (timesAfter r n acc) (timesAfter r' n acc) := by
  induction n generalizing acc with
  | zero =>
      intro s t u as hr
      cases hr
      rfl
  | succ n ih =>
      intro s t u as hr
      unfold Reader.timesAfter at hr
      split at hr
      · rename_i a v ha
        have hrest := ih (a :: acc) v t u as hr
        simpa only [Reader.timesAfter, h s v u a ha] using hrest
      · cases hr

theorem Persists.times (h : Persists r r') (n : Nat) : Persists (times n r) (times n r') :=
  h.timesAfter n []

theorem Persists.counted (h : Persists r r') : Persists (counted r) (counted r') :=
  persists_u2.bind fun n => h.times n.toNat

theorem persists_sized {f f' : Nat → Reader α} (h : ∀ {n n'}, n ≤ n' → Persists (f n) (f' n')) :
    Persists (fun s => f s.length s) fun s => f' s.length s := by
  intro s t u a hr
  have hle : s.length ≤ (s ++ u).length := by
    rw [List.length_append]
    exact Nat.le_add_right ..
  exact h hle s t u a hr

end Reader

open Reader

namespace Annotations

theorem persists_skipPairs {value value' : Reader Unit} (h : Persists value value') :
    Persists (skipPairs value) (skipPairs value') :=
  ((persists_skip 2).bind fun _ => h).counted.bind fun _ => persists_pure ()

theorem persists_skipNested {depth depth' : Nat} (h : depth ≤ depth') :
    Persists (skipNested depth) (skipNested depth') := by
  induction depth generalizing depth' with
  | zero => exact persists_throw .classTruncated
  | succ depth ih =>
      obtain ⟨depth', rfl⟩ : ∃ k, depth' = k + 1 := ⟨depth' - 1, by omega⟩
      have hnested := ih (Nat.le_of_succ_le_succ h)
      refine persists_u1.bind fun tag => ?_
      refine (persists_skip 2).ite ((persists_skip 4).ite (.ite ?_ (.ite ?_ ?_)))
      · exact (persists_skip 2).bind fun _ => persists_skipPairs hnested
      · exact hnested.counted.bind fun _ => persists_pure ()
      · exact persists_throw _

theorem persists_readType {depth depth' : Nat} (h : depth ≤ depth') :
    Persists (readType depth) (readType depth') :=
  persists_u2.bind fun type =>
    (persists_skipPairs (persists_skipNested h)).bind fun _ => persists_pure type

theorem persists_readTypes : Persists readTypes readTypes :=
  persists_sized fun h => (persists_readType h).counted

end Annotations

namespace Attribute

theorem persists_words (n : Nat) : Persists (words n) (words n) := persists_skip (2 * n)

theorem persists_rows (n : Nat) : Persists (rows n) (rows n) :=
  (persists_words n).counted.bind fun _ => persists_pure ()

theorem persists_lineEntry : Persists lineEntry lineEntry :=
  persists_u2.bind fun _ => persists_u2.bind fun _ => persists_pure _

theorem persists_annotations : Persists annotations annotations :=
  Annotations.persists_readTypes.bind fun _ => persists_pure ()

theorem persists_parameterAnnotations : Persists parameterAnnotations parameterAnnotations :=
  persists_u1.bind fun n => (persists_annotations.times n.toNat).bind fun _ => persists_pure ()

theorem persists_typeTarget (target : UInt8) : Persists (typeTarget target) (typeTarget target) :=
  (persists_skip 1).ite <| (persists_skip 2).ite <| (persists_skip 2).ite <|
    (persists_skip 0).ite <| (persists_skip 1).ite <| (persists_skip 2).ite <|
    (persists_rows 3).ite <| (persists_skip 2).ite <| (persists_skip 3).ite (persists_throw _)

theorem persists_skipTypeUse {depth depth' : Nat} (h : depth ≤ depth') :
    Persists (skipTypeUse depth) (skipTypeUse depth') :=
  persists_u1.bind fun target => (persists_typeTarget target).bind fun _ =>
    persists_u1.bind fun n => (persists_skip (2 * n.toNat)).bind fun _ =>
      (Annotations.persists_readType h).bind fun _ => persists_pure ()

theorem persists_skipTypeUses : Persists skipTypeUses skipTypeUses := by
  have hcounted := fun {depth depth' : Nat} (h : depth ≤ depth') =>
    (persists_skipTypeUse h).counted
  intro s t u a hr
  obtain ⟨⟨as, v⟩, has, hr⟩ := Result.bind_ok.1 hr
  cases hr
  exact Result.bind_ok.2 ⟨_, persists_sized hcounted s t u as has, rfl⟩

theorem persists_bootstrapMethods : Persists bootstrapMethods bootstrapMethods :=
  ((persists_skip 2).bind fun _ => persists_rows 1).counted.bind fun _ => persists_pure ()

theorem persists_methodParameters : Persists methodParameters methodParameters :=
  persists_u1.bind fun n => ((persists_words 2).times n.toNat).bind fun _ => persists_pure ()

theorem persists_frames : Persists frames frames :=
  (Inverts.persists DeltaFrame.read_iff).counted.bind fun _ => persists_pure ()

theorem persists_present (n : Nat) : Persists (present n) (present n) := by
  intro s t u a hr
  obtain ⟨⟨b, v⟩, hb, hr⟩ := Result.map_ok.1 hr
  cases hr
  exact Result.map_ok.2 ⟨_, persists_take n s v u b hb, rfl⟩

theorem persists_skipBody (name : String) (length : Nat) :
    Persists (skipBody name length) (skipBody name length) := by
  unfold skipBody
  split
  · exact persists_words 1
  · exact persists_words 1
  · exact persists_words 1
  · exact persists_words 1
  · exact persists_words 2
  · exact persists_words 0
  · exact persists_words 0
  · exact persists_rows 1
  · exact persists_rows 1
  · exact persists_rows 1
  · exact persists_rows 5
  · exact persists_rows 5
  · exact persists_rows 4
  · exact (persists_present length).bind fun _ => persists_annotations
  · exact persists_annotations
  · exact persists_parameterAnnotations
  · exact persists_skipTypeUses
  · exact (persists_present length).bind fun _ =>
      persists_sized Annotations.persists_skipNested
  · exact persists_frames
  · exact persists_bootstrapMethods
  · exact persists_methodParameters
  · exact persists_throw _

theorem persists_readBody {inner inner' : Reader (List Attribute)} (h : Persists inner inner')
    (name : String) (length : Nat) :
    Persists (readBody inner name length) (readBody inner' name length) := by
  unfold readBody
  split
  · exact (persists_skip 4).bind fun _ => persists_u4.bind fun n =>
      (persists_take n.toNat).bind fun code =>
        (Inverts.persists RawHandler.read_iff).counted.bind fun handlers =>
          h.bind fun _ => persists_pure _
  · exact persists_lineEntry.counted.bind fun _ => persists_pure _
  · exact ((persists_words 2).bind fun _ => h).counted.bind fun _ => persists_pure _
  · exact (persists_skipBody _ length).bind fun _ => persists_pure _

theorem persists_readList {p p' : Pool}
    (hp : ∀ {i : UInt16} {name : String}, p.utf8 i = .ok name → p'.utf8 i = .ok name)
    {depth depth' : Nat} (h : depth ≤ depth') :
    Persists (readList p depth) (readList p' depth') := by
  induction depth generalizing depth' with
  | zero => exact persists_throw .classTruncated
  | succ depth ih =>
      obtain ⟨depth', rfl⟩ : ∃ k, depth' = k + 1 := ⟨depth' - 1, by omega⟩
      have hinner := ih (Nat.le_of_succ_le_succ h)
      refine Persists.counted (persists_u2.bind fun index => persists_u4.bind fun length => ?_)
      intro s t u a hr
      obtain ⟨name, hname, hr⟩ := Result.bind_ok.1 hr
      exact Result.bind_ok.2 ⟨name, hp hname, persists_readBody hinner name length.toNat s t u a hr⟩

end Attribute

end BytecodeMutation
