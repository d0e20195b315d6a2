import BytecodeMutation.Assembly.PoolTail
import BytecodeMutation.ClassFile.Pool
import BytecodeMutation.Proofs.Layout
import BytecodeMutation.Proofs.Results
import BytecodeMutation.Proofs.Strings

namespace BytecodeMutation

namespace Constant

variable {count next index : UInt16} {cs ds : List (UInt16 × Constant)}

def slotCount : List (UInt16 × Constant) → Nat
  | [] => 0
  | d :: cs => d.2.slots.toNat + slotCount cs

theorem slotCount_append : slotCount (cs ++ ds) = slotCount cs + slotCount ds := by
  induction cs with
  | nil => simp [slotCount]
  | cons d cs ih => simp only [List.cons_append, slotCount, ih, Nat.add_assoc]

theorem slotCount_cons {slot : UInt16} {c : Constant} :
    slotCount ((slot, c) :: cs) = c.slots.toNat + slotCount cs := rfl

theorem toNat_add_slots {c : Constant} (h : index.toNat + c.slots.toNat < 65536) :
    (index + c.slots).toNat = index.toNat + c.slots.toNat := by
  rw [UInt16.toNat_add, Nat.mod_eq_of_lt h]

theorem cover_append (h : Cover count index cs) (hfull : index.toNat + slotCount cs = count.toNat)
    (hds : Cover next count ds) (hle : count ≤ next) : Cover next index (cs ++ ds) := by
  induction cs generalizing index with
  | nil =>
      obtain rfl : index = count := UInt16.toNat_inj.1 (by simpa [slotCount] using hfull)
      exact hds
  | cons d cs ih =>
      obtain ⟨slot, c⟩ := d
      obtain ⟨hlt, rfl, hv, hnext, hcs⟩ := h
      refine ⟨UInt16.lt_of_lt_of_le hlt hle, rfl, hv, hnext, ih hcs ?_⟩
      rw [toNat_add_slots hnext, Nat.add_assoc]
      exact hfull

end Constant

/-- The constants of a table end at the slot that its count announces. -/
def ConstantTable.IsFull (t : ConstantTable) : Prop :=
  1 + Constant.slotCount t.constants = t.count.toNat

instance (t : ConstantTable) : Decidable t.IsFull :=
  inferInstanceAs (Decidable (1 + Constant.slotCount t.constants = t.count.toNat))

namespace PoolTail

def Holds (cs : List (UInt16 × Constant)) : NewConstant → UInt16 → Prop
  | .integer value, i => (i, .other 3 (Bytes.ofInt32 value)) ∈ cs
  | .method m, i => ∃ owner ownerName signature name descriptor,
      (i, .member 10 owner signature) ∈ cs ∧ (owner, .class ownerName) ∈ cs ∧
      (ownerName, .utf8 (Text.modifiedUtf8 m.owner)) ∈ cs ∧
      (signature, .nameAndType name descriptor) ∈ cs ∧
      (name, .utf8 (Text.modifiedUtf8 m.name)) ∈ cs ∧
      (descriptor, .utf8 (Text.modifiedUtf8 m.descriptor)) ∈ cs

theorem Holds.mono {cs ds : List (UInt16 × Constant)} {r : NewConstant} {i : UInt16}
    (h : Holds cs r i) (hs : cs ⊆ ds) : Holds ds r i := by
  cases r with
  | integer value => exact hs h
  | method m =>
      obtain ⟨owner, ownerName, signature, name, descriptor, h₁, h₂, h₃, h₄, h₅, h₆⟩ := h
      exact ⟨owner, ownerName, signature, name, descriptor, hs h₁, hs h₂, hs h₃, hs h₄, hs h₅,
        hs h₆⟩

structure Extends (start : UInt16) (t : PoolTail) : Prop where
  cover : Constant.Cover t.next start t.constants.reverse
  full : start.toNat + Constant.slotCount t.constants.reverse = t.next.toNat
  readable : ∀ d ∈ t.constants, ∃ items, Pool.slotsOf d.2 = .ok items
  strings : ∀ s i, (s, i) ∈ t.strings → (i, .utf8 (Text.modifiedUtf8 s)) ∈ t.constants
  requests : ∀ r i, (r, i) ∈ t.requests → Holds t.constants r i

variable {start : UInt16} {t u : PoolTail} {c : Constant} {i : UInt16}

theorem extends_nil (start : UInt16) : Extends start ⟨start, [], [], []⟩ where
  cover := UInt16.lt_irrefl start
  full := rfl
  readable := by simp
  strings := by simp
  requests := by simp

theorem Extends.start_le (h : t.Extends start) : start ≤ t.next := by
  have := h.full
  rw [UInt16.le_iff_toNat_le]
  omega

structure Step (start : UInt16) (t u : PoolTail) : Prop where
  holds : u.Extends start
  subset : t.constants ⊆ u.constants

theorem Extends.push {item : PoolItem} (h : t.Extends start) (hv : c.Valid) (hs : c.slots = 1)
    (hread : Pool.slotsOf c = .ok [item]) (hp : t.push c = .ok (i, u)) :
    Step start t u ∧ (i, c) ∈ u.constants := by
  unfold PoolTail.push at hp
  split at hp
  · cases hp
  · rename_i hnext
    cases hp
    have hnat : (t.next + 1).toNat = t.next.toNat + 1 := by
      have hne : t.next.toNat ≠ 65535 := fun h => hnext (beq_iff_eq.2 (UInt16.toNat_inj.1 h))
      have hlt := t.next.toNat_lt
      rw [UInt16.toNat_add, UInt16.toNat_one, Nat.mod_eq_of_lt (by omega)]
    have hsub : t.constants ⊆ (t.next, c) :: t.constants := List.subset_cons_self _ _
    have hlt : t.next < t.next + 1 := by
      rw [UInt16.lt_iff_toNat_lt, hnat]
      omega
    refine ⟨⟨⟨?_, ?_, ?_, ?_, ?_⟩, hsub⟩, List.mem_cons_self⟩
    · rw [List.reverse_cons]
      have hsum : t.next.toNat + c.slots.toNat < 65536 := by
        rw [hs, UInt16.toNat_one, ← hnat]
        exact (t.next + 1).toNat_lt
      refine Constant.cover_append h.cover h.full ⟨hlt, rfl, hv, hsum, ?_⟩ (UInt16.le_of_lt hlt)
      rw [hs]
      exact UInt16.lt_irrefl _
    · rw [List.reverse_cons, Constant.slotCount_append, Constant.slotCount_cons, hs, hnat]
      have := h.full
      simp only [Constant.slotCount, UInt16.toNat_one] at this ⊢
      omega
    · exact List.forall_mem_cons.2 ⟨⟨_, hread⟩, h.readable⟩
    · exact fun s i hi => hsub (h.strings s i hi)
    · exact fun r i hi => (h.requests r i hi).mono hsub

theorem mem_of_lookup {α β : Type} [BEq α] [LawfulBEq α] {l : List (α × β)} {a : α} {b : β}
    (h : l.lookup a = some b) : (a, b) ∈ l := by
  obtain ⟨l₁, l₂, rfl, -⟩ := List.lookup_eq_some_iff.1 h
  simp

theorem Extends.pushString {s : String} (h : t.Extends start) (hp : t.pushString s = .ok (i, u)) :
    Step start t u ∧ (i, .utf8 (Text.modifiedUtf8 s)) ∈ u.constants := by
  unfold PoolTail.pushString at hp
  split at hp
  · rename_i hl
    cases hp
    exact ⟨⟨h, List.Subset.refl _⟩, h.strings s i (mem_of_lookup hl)⟩
  · simp only at hp
    split at hp
    · cases hp
    · rename_i hlen
      obtain ⟨⟨j, v⟩, hpush, hv⟩ := Result.bind_ok.1 hp
      cases hv
      have hv : (Constant.utf8 (Text.modifiedUtf8 s)).Valid :=
        Nat.lt_succ_of_le (Nat.le_of_not_lt hlen)
      have hread : Pool.slotsOf (.utf8 (Text.modifiedUtf8 s)) = .ok [.utf8 s] := by
        simp only [Pool.slotsOf, Text.constantString?_modifiedUtf8]
      obtain ⟨⟨⟨hc, hf, ht, hs, hr⟩, hsub⟩, hmem⟩ := h.push hv rfl hread hpush
      refine ⟨⟨⟨hc, hf, ht, ?_, hr⟩, hsub⟩, hmem⟩
      intro s' i' hi
      rcases List.mem_cons.1 hi with heq | hi
      · cases heq
        exact hmem
      · exact hs s' i' hi

theorem Step.trans {v : PoolTail} (h : Step start t u) (h' : Step start u v) : Step start t v :=
  ⟨h'.holds, List.Subset.trans h.subset h'.subset⟩

theorem Extends.pushMethod {m : MemberRef} (h : t.Extends start)
    (hp : t.pushMethod m = .ok (i, u)) : Step start t u ∧ Holds u.constants (.method m) i := by
  simp only [PoolTail.pushMethod, Result.bind_ok, Prod.exists] at hp
  obtain ⟨ownerName, t₁, h₁, owner, t₂, h₂, name, t₃, h₃, descriptor, t₄, h₄, signature, t₅, h₅,
    h₆⟩ := hp
  obtain ⟨s₁, m₁⟩ := h.pushString h₁
  obtain ⟨s₂, m₂⟩ := s₁.holds.push (c := .class ownerName) trivial rfl rfl h₂
  obtain ⟨s₃, m₃⟩ := s₂.holds.pushString h₃
  obtain ⟨s₄, m₄⟩ := s₃.holds.pushString h₄
  obtain ⟨s₅, m₅⟩ := s₄.holds.push (c := .nameAndType name descriptor) trivial rfl rfl h₅
  have hmember : (Constant.member 10 owner signature).Valid := ⟨by decide, by decide⟩
  obtain ⟨s₆, m₆⟩ := s₅.holds.push hmember rfl rfl h₆
  have s₃₆ := (s₄.trans s₅).trans s₆
  have s₂₆ := s₃.trans s₃₆
  exact ⟨(s₁.trans s₂).trans s₂₆, owner, ownerName, signature, name, descriptor, m₆,
    s₂₆.subset m₂, (s₂.trans s₂₆).subset m₁, s₆.subset m₅, s₃₆.subset m₃,
    (s₅.trans s₆).subset m₄⟩

theorem Extends.request {r : NewConstant} (h : t.Extends start)
    (hp : t.request r = .ok (i, u)) : Step start t u ∧ Holds u.constants r i := by
  unfold PoolTail.request at hp
  split at hp
  · rename_i hl
    cases hp
    exact ⟨⟨h, List.Subset.refl _⟩, h.requests r i (mem_of_lookup hl)⟩
  · have hadded : ∃ v, u = { v with requests := (r, i) :: v.requests } ∧
        Step start t v ∧ Holds v.constants r i := by
      cases r with
      | integer value =>
          obtain ⟨⟨j, v⟩, hpush, hv⟩ := Result.bind_ok.1 hp
          cases hv
          exact ⟨v, rfl, h.push (c := .other 3 (Bytes.ofInt32 value)) rfl rfl rfl hpush⟩
      | method m =>
          obtain ⟨⟨j, v⟩, hpush, hv⟩ := Result.bind_ok.1 hp
          cases hv
          exact ⟨v, rfl, h.pushMethod hpush⟩
    obtain ⟨v, rfl, ⟨⟨hc, hf, ht, hs, hr⟩, hsub⟩, hmem⟩ := hadded
    refine ⟨⟨⟨hc, hf, ht, hs, ?_⟩, hsub⟩, hmem⟩
    intro r' i' hi
    rcases List.mem_cons.1 hi with heq | hi
    · cases heq
      exact hmem
    · exact hr r' i' hi

inductive Resolves (cs : List (UInt16 × Constant)) : Instruction → Instruction → Prop where
  | same {i : Instruction} (h : ∀ r, i.operand ≠ .newConstant r) : Resolves cs i i
  | constant {opcode : UInt8} {r : NewConstant} {index : UInt16} (h : Holds cs r index) :
      Resolves cs ⟨opcode, .newConstant r⟩ ⟨opcode, .constant index⟩

theorem Resolves.mono {cs ds : List (UInt16 × Constant)} {i j : Instruction}
    (h : Resolves cs i j) (hs : cs ⊆ ds) : Resolves ds i j := by
  cases h with
  | same h => exact .same h
  | constant h => exact .constant (h.mono hs)

theorem Extends.resolve {i j : Instruction} (h : t.Extends start)
    (hp : t.resolve i = .ok (j, u)) : Step start t u ∧ Resolves u.constants i j := by
  obtain ⟨opcode, operand⟩ := i
  unfold PoolTail.resolve at hp
  split at hp
  · rename_i r hr
    obtain rfl : operand = .newConstant r := hr
    obtain ⟨⟨index, v⟩, hreq, hv⟩ := Result.bind_ok.1 hp
    cases hv
    obtain ⟨hstep, hmem⟩ := h.request hreq
    exact ⟨hstep, .constant hmem⟩
  · rename_i hne
    cases hp
    exact ⟨⟨h, List.Subset.refl _⟩, .same hne⟩

theorem Extends.isFull_extend {table : ConstantTable} (hfull : table.IsFull)
    (h : t.Extends table.count) : (t.extend table).IsFull := by
  have hcount : 1 + Constant.slotCount table.constants = table.count.toNat := hfull
  have htail := h.full
  simp only [ConstantTable.IsFull, extend, Constant.slotCount_append]
  omega

theorem Extends.valid_extend {table : ConstantTable} (hv : table.Valid) (hfull : table.IsFull)
    (h : t.Extends table.count) : (t.extend table).Valid :=
  Constant.cover_append hv hfull h.cover h.start_le

end PoolTail

end BytecodeMutation
