import BytecodeMutation.Proofs.Pieces
import BytecodeMutation.Proofs.Placing

namespace BytecodeMutation

def StreamItem.ordinal : StreamItem → Nat
  | .kept ordinal | .replaced ordinal _ => ordinal

inductive Instruction.IsReplacement : Instruction → Prop where
  | legal {i : Instruction} (h : i.Legal) (hconstant : ∀ index, i.operand ≠ .constant index)
      (hinterface : ∀ index count, i.operand ≠ .invokeInterface index count) : IsReplacement i
  | integer (value : Int32) : IsReplacement ⟨Opcode.ldcW, .newConstant (.integer value)⟩
  | call (member : MemberRef) : IsReplacement ⟨Opcode.invokestatic, .newConstant (.method member)⟩

namespace Assembly

/-- A stream that has one item for each instruction of a method, in order, and puts something in the
place of each. -/
structure InOrder (code : List Site) (stream : List StreamItem) : Prop where
  ordinals : stream.map StreamItem.ordinal = List.range code.length
  nonempty : ∀ ordinal is, .replaced ordinal is ∈ stream → is ≠ []

/-- A stream that has one item for each instruction of a method, in order, and whose replacements
jump to instructions of the method only. -/
structure Rewrites (code : List Site) (stream : List StreamItem) : Prop where
  ordinals : stream.map StreamItem.ordinal = List.range code.length
  nonempty : ∀ ordinal is, .replaced ordinal is ∈ stream → is ≠ []
  replacement : ∀ ordinal is, .replaced ordinal is ∈ stream → ∀ i ∈ is, i.IsReplacement
  targets : ∀ ordinal is, .replaced ordinal is ∈ stream → ∀ i ∈ is, ∀ t ∈ i.targets,
    ∃ s ∈ code, s.offset = t

variable {code : List Site} {stream : List StreamItem} {e s q : Piece}

def isPlain : StreamItem → Bool
  | .kept _ => true
  | .replaced _ is => !is.isEmpty && is.all fun i =>
      i == .plain i.opcode && Format.ofOpcode? i.opcode == some .plain

theorem Rewrites.of_isPlain (hordinals : stream.map StreamItem.ordinal = List.range code.length)
    (h : ∀ item ∈ stream, isPlain item = true) : Rewrites code stream := by
  have hplain : ∀ ordinal is, .replaced ordinal is ∈ stream → is ≠ [] ∧ ∀ i ∈ is,
      i = .plain i.opcode ∧ Format.ofOpcode? i.opcode = some .plain := by
    intro ordinal is his
    have hitem := h _ his
    simp only [isPlain, Bool.and_eq_true, Bool.not_eq_true', List.isEmpty_eq_false_iff,
      List.all_eq_true, beq_iff_eq] at hitem
    exact hitem
  refine ⟨hordinals, fun ordinal is his => (hplain ordinal is his).1,
    fun ordinal is his i hi => ?_, fun ordinal is his i hi t ht => ?_⟩
  · obtain ⟨hi, hop⟩ := (hplain ordinal is his).2 i hi
    rw [hi]
    exact .legal hop nofun nofun
  · rw [((hplain ordinal is his).2 i hi).1] at ht
    cases ht

theorem origins_marked {origin : Nat} {is : List Instruction} (h : is ≠ []) :
    (marked origin is).filterMap (·.origin) = [origin] := by
  cases is with
  | nil => exact absurd rfl h
  | cons i is => simp [marked, List.filterMap_map]

theorem origins_emitted {item : StreamItem}
    (h : ∀ ordinal is, item = .replaced ordinal is → is ≠ []) :
    (emitted code item).filterMap (·.origin) = code[item.ordinal]?.toList.map (·.offset) := by
  cases item with
  | kept ordinal =>
      simp only [emitted, StreamItem.ordinal]
      cases code[ordinal]? <;> rfl
  | replaced ordinal is =>
      have his := h ordinal is rfl
      simp only [emitted, StreamItem.ordinal]
      cases code[ordinal]? with
      | none => rfl
      | some s => simpa using origins_marked his

theorem flatMap_range {α β : Type} (f : α → β) (as : List α) :
    (List.range as.length).flatMap (fun k => as[k]?.toList.map f) = as.map f := by
  induction as with
  | nil => rfl
  | cons a as ih =>
      rw [List.length_cons, List.range_succ_eq_map, List.flatMap_cons, List.flatMap_map]
      simpa using ih

theorem Rewrites.inOrder (h : Rewrites code stream) : InOrder code stream :=
  ⟨h.ordinals, h.nonempty⟩

theorem InOrder.origins (h : InOrder code stream) :
    (stream.flatMap (emitted code)).filterMap (·.origin) = code.map (·.offset) := by
  rw [← flatMap_range, ← h.ordinals, List.flatMap_map, List.filterMap_flatMap]
  refine List.flatMap_congr fun item hitem => origins_emitted fun ordinal is heq => ?_
  exact h.nonempty ordinal is (heq ▸ hitem)

theorem Rewrites.origins (h : Rewrites code stream) :
    (stream.flatMap (emitted code)).filterMap (·.origin) = code.map (·.offset) :=
  h.inOrder.origins

theorem mem_marked {origin : Nat} {is : List Instruction} (h : e ∈ marked origin is) :
    e.instruction ∈ is := by
  cases is with
  | nil => cases h
  | cons i is =>
      rcases List.mem_cons.1 h with rfl | h
      · exact List.mem_cons_self
      · obtain ⟨j, hj, rfl⟩ := List.mem_map.1 h
        exact List.mem_cons_of_mem _ hj

theorem mem_emitted (h : e ∈ stream.flatMap (emitted code)) :
    (∃ s ∈ code, e.instruction = s.instruction) ∨
      ∃ ordinal is, .replaced ordinal is ∈ stream ∧ e.instruction ∈ is := by
  obtain ⟨item, hitem, he⟩ := List.mem_flatMap.1 h
  cases item with
  | kept ordinal =>
      obtain ⟨s, hs, rfl⟩ := List.mem_map.1 he
      exact .inl ⟨s, List.mem_of_getElem? (Option.mem_toList.1 hs), rfl⟩
  | replaced ordinal is =>
      obtain ⟨s, -, he⟩ := List.mem_flatMap.1 he
      exact .inr ⟨ordinal, is, hitem, mem_marked he⟩

def Stands (cs : List (UInt16 × Constant)) (e q : Piece) : Prop :=
  ∃ s, Settles cs e s ∧ Placement.Widens s q

inductive Becomes (cs : List (UInt16 × Constant)) (f : Nat → Nat) : Instruction → Instruction → Prop
  where
  | same {i : Instruction} (h : ∀ r, i.operand ≠ .newConstant r) :
      Becomes cs f i ⟨i.opcode, i.operand.mapTargets f⟩
  | goto (target : Nat) :
      Becomes cs f ⟨Opcode.goto, .branch target⟩ ⟨Opcode.gotoW, .branch (f target)⟩
  | jsr (target : Nat) :
      Becomes cs f ⟨Opcode.jsr, .branch target⟩ ⟨Opcode.jsrW, .branch (f target)⟩
  | constant {opcode : UInt8} {r : NewConstant} {index : UInt16} (h : PoolTail.Holds cs r index) :
      Becomes cs f ⟨opcode, .newConstant r⟩ ⟨opcode, .constant index⟩

variable {cs : List (UInt16 × Constant)}

theorem Stands.origin (h : Stands cs e q) : q.origin = e.origin := by
  obtain ⟨s, hs, hw⟩ := h
  rw [hw.origin, hs.origin]

theorem Stands.becomes (h : Stands cs e q) (f : Nat → Nat) : Becomes cs f e.instruction
    ⟨q.instruction.opcode, q.instruction.operand.mapTargets f⟩ := by
  obtain ⟨eorigin, j⟩ := e
  obtain ⟨⟨origin, i⟩, ⟨-, hi⟩, hw⟩ := h
  cases hw with
  | same =>
      cases hi with
      | same h => exact .same h
      | constant h => exact .constant h
  | goto origin target =>
      cases hi with
      | same h => exact .goto target
  | jsr origin target =>
      cases hi with
      | same h => exact .jsr target

theorem Stands.targets (h : Stands cs e q) : q.instruction.targets = e.instruction.targets := by
  obtain ⟨eorigin, j⟩ := e
  obtain ⟨⟨origin, i⟩, ⟨-, hi⟩, hw⟩ := h
  have hsame : q.instruction.targets = i.targets := by cases hw <;> rfl
  rw [hsame]
  cases hi <;> rfl

theorem Stands.keys (h : Stands cs e q) :
    q.instruction.operand.keys? = e.instruction.operand.keys? := by
  obtain ⟨eorigin, j⟩ := e
  obtain ⟨⟨origin, i⟩, ⟨-, hi⟩, hw⟩ := h
  have hsame : q.instruction.operand.keys? = i.operand.keys? := by cases hw <;> rfl
  rw [hsame]
  cases hi <;> rfl

theorem Stands.legal (h : Stands cs e q)
    (he : e.instruction.Legal ∨ e.instruction.IsReplacement) : q.instruction.Legal := by
  obtain ⟨eorigin, j⟩ := e
  obtain ⟨⟨origin, i⟩, ⟨-, hi⟩, hw⟩ := h
  have hlegal : i.Legal := by
    cases hi with
    | same hne =>
        rcases he with he | he
        · exact he
        · cases he with
          | legal he => exact he
          | integer value => exact absurd rfl (hne _)
          | call member => exact absurd rfl (hne _)
    | @constant opcode r index =>
        rcases he with he | he
        · exact he.elim
        · cases he with
          | legal he => exact he.elim
          | integer value => exact .inl rfl
          | call member => exact .inl rfl
  cases hw with
  | same => exact hlegal
  | goto origin target => exact .inr rfl
  | jsr origin target => exact .inr rfl

end Assembly

end BytecodeMutation
