import BytecodeMutation.Proofs.Execution
import BytecodeMutation.Proofs.Replacements

namespace BytecodeMutation

open Instruction
open Opcode (isConditional test? typing?)

namespace Comparison

def opposite : Comparison → Comparison
  | equal => different
  | different => equal
  | less => atLeast
  | atLeast => less
  | greater => atMost
  | atMost => greater

def moved? : Comparison → Option Comparison
  | equal => none
  | different => none
  | less => some atMost
  | atLeast => some greater
  | greater => some atLeast
  | atMost => some less

theorem holds_opposite (c : Comparison) (a b : Int32) : c.opposite.holds a b = !c.holds a b := by
  cases c with
  | equal | different => simp [opposite, holds, bne]
  | less | atMost => simp [opposite, holds, ← decide_not, Int32.not_lt, Int32.not_le]
  | greater | atLeast => simp [opposite, holds, ← decide_not, Int32.not_lt, Int32.not_le]

theorem le_eq_lt_xor (a b : Int32) : decide (a ≤ b) = (decide (a < b) ^^ a == b) := by
  by_cases heq : a = b
  · simp [heq]
  · have hle : a ≤ b ↔ a < b := by
      have hne := mt Int32.toInt_inj.1 heq
      rw [Int32.le_iff_toInt_le, Int32.lt_iff_toInt_lt]
      omega
    simp [hle, beq_eq_false_iff_ne.2 heq]

theorem holds_moved {c c' : Comparison} (h : c.moved? = some c') (a b : Int32) :
    c'.holds a b = (c.holds a b ^^ a == b) := by
  cases c with
  | equal | different => cases h
  | less =>
      cases h
      exact le_eq_lt_xor a b
  | atMost =>
      cases h
      rw [holds, holds, le_eq_lt_xor, Bool.xor_assoc, Bool.xor_self, Bool.xor_false]
  -- the same with the operands exchanged
  | greater =>
      cases h
      rw [BEq.comm]
      exact le_eq_lt_xor b a
  | atLeast =>
      cases h
      rw [holds, holds, le_eq_lt_xor, BEq.comm, Bool.xor_assoc, Bool.xor_self, Bool.xor_false]

end Comparison

namespace Test

def opposite : Test → Test
  | zero c => zero c.opposite
  | ints c => ints c.opposite
  | null sense => null !sense
  | same sense => same !sense

def moved? : Test → Option Test
  | zero c => c.moved?.map zero
  | ints c => c.moved?.map ints
  | null _ => none
  | same _ => none

def condition (t : Test) : Condition := if t.moved?.isSome then .ordering else .equality

end Test

def comparesEqual : List Value → Bool
  | [v] => v == .int 0 || v == .reference none
  | [w, v] => v == w
  | _ => false

inductive Test.Applies : Test → List Value → Prop where
  | zero (c : Comparison) (a : Int32) : Applies (.zero c) [.int a]
  | ints (c : Comparison) (a b : Int32) : Applies (.ints c) [.int b, .int a]
  | null (sense : Bool) (a : Option Nat) : Applies (.null sense) [.reference a]
  | same (sense : Bool) (a b : Option Nat) : Applies (.same sense) [.reference b, .reference a]

theorem Value.kind_eq_int {v : Value} (h : v.kind = .int) : ∃ a, v = .int a := by
  cases v with
  | int a => exact ⟨a, rfl⟩
  | _ => cases h

theorem Value.kind_eq_reference {v : Value} (h : v.kind = .reference) :
    ∃ a, v = .reference a := by
  cases v with
  | reference a => exact ⟨a, rfl⟩
  | _ => cases h

namespace Test

variable {t t' : Test} {operands rest : List Value} {jumping : Bool}

theorem applies_of_takes (h : operands.map Value.kind = t.takes) : t.Applies operands := by
  cases t with
  | zero c =>
      obtain ⟨v, rfl, hv⟩ := List.map_eq_singleton_iff.1 h
      obtain ⟨a, rfl⟩ := Value.kind_eq_int hv
      exact .zero c a
  | null sense =>
      obtain ⟨v, rfl, hv⟩ := List.map_eq_singleton_iff.1 h
      obtain ⟨a, rfl⟩ := Value.kind_eq_reference hv
      exact .null sense a
  | ints c =>
      obtain ⟨w, ws, rfl, hw, hws⟩ := List.map_eq_cons_iff.1 h
      obtain ⟨v, rfl, hv⟩ := List.map_eq_singleton_iff.1 hws
      obtain ⟨b, rfl⟩ := Value.kind_eq_int hw
      obtain ⟨a, rfl⟩ := Value.kind_eq_int hv
      exact .ints c a b
  | same sense =>
      obtain ⟨w, ws, rfl, hw, hws⟩ := List.map_eq_cons_iff.1 h
      obtain ⟨v, rfl, hv⟩ := List.map_eq_singleton_iff.1 hws
      obtain ⟨b, rfl⟩ := Value.kind_eq_reference hw
      obtain ⟨a, rfl⟩ := Value.kind_eq_reference hv
      exact .same sense a b

theorem Applies.decided (h : t.Applies operands) (rest : List Value) :
    ∃ jumping, t.decide? (operands ++ rest) = some (jumping, rest) := by
  cases h <;> exact ⟨_, rfl⟩

theorem Applies.opposite (h : t.Applies operands)
    (ht : t.decide? (operands ++ rest) = some (jumping, rest)) :
    t.opposite.decide? (operands ++ rest) = some (!jumping, rest) := by
  have hsense : ∀ b sense : Bool, (b == !sense) = !(b == sense) := by decide
  cases h with
  | zero c a =>
      cases ht
      exact congrArg (fun b => some (b, rest)) (c.holds_opposite a 0)
  | ints c a b =>
      cases ht
      exact congrArg (fun b => some (b, rest)) (c.holds_opposite a b)
  | null sense a =>
      cases ht
      exact congrArg (fun b => some (b, rest)) (hsense _ sense)
  | same sense a b =>
      cases ht
      exact congrArg (fun b => some (b, rest)) (hsense _ sense)

theorem Applies.moved (h : t.Applies operands) (hmoved : t.moved? = some t')
    (ht : t.decide? (operands ++ rest) = some (jumping, rest)) :
    t'.decide? (operands ++ rest) = some (jumping ^^ comparesEqual operands, rest) := by
  cases h with
  | zero c a =>
      obtain ⟨c', hc, rfl⟩ := Option.map_eq_some_iff.1 hmoved
      cases ht
      have hequal : comparesEqual [.int a] = (a == 0) := by
        rw [Bool.eq_iff_iff]
        simp [comparesEqual]
      rw [hequal]
      exact congrArg (fun b => some (b, rest)) (Comparison.holds_moved hc a 0)
  | ints c a b =>
      obtain ⟨c', hc, rfl⟩ := Option.map_eq_some_iff.1 hmoved
      cases ht
      have hequal : comparesEqual [.int b, .int a] = (a == b) := by
        rw [Bool.eq_iff_iff]
        simp [comparesEqual]
      rw [hequal]
      exact congrArg (fun b => some (b, rest)) (Comparison.holds_moved hc a b)
  | null | same => cases hmoved

end Test

namespace Conditional

variable {op op' : UInt8} {t : Test} {operands : List Value}

theorem test?_isSome (op : UInt8) : (test? op).isSome = isConditional op := by
  revert op
  exact Format.forall_opcode (by decide +kernel)

theorem test?_typing (op : UInt8) : (test? op).all (fun t =>
    typing? op = some (.test t.takes) ∧ comparesTwo op = decide (t.takes.length = 2)) = true := by
  revert op
  exact Format.forall_opcode (by decide +kernel)

theorem condition?_eq (op : UInt8) : condition? op = (test? op).map Test.condition := by
  revert op
  exact Format.forall_opcode (by decide +kernel)

theorem map_negated? (op : UInt8) :
    (negated? op).map test? = (test? op).map fun t => some t.opposite := by
  revert op
  exact Format.forall_opcode (by decide +kernel)

theorem map_boundaryMoved? (op : UInt8) :
    (boundaryMoved? op).map test? = (test? op).bind fun t => t.moved?.map some := by
  revert op
  exact Format.forall_opcode (by decide +kernel)

theorem exists_negated (ht : test? op = some t) :
    ∃ op', negated? op = some op' ∧ test? op' = some t.opposite := by
  have hmap := map_negated? op
  rw [ht] at hmap
  exact Option.map_eq_some_iff.1 hmap

theorem boundaryMoved?_isSome (ht : test? op = some t) :
    (boundaryMoved? op).isSome = t.moved?.isSome := by
  have hmap := congrArg Option.isSome (map_boundaryMoved? op)
  rw [ht, Option.isSome_map, Option.bind_some, Option.isSome_map] at hmap
  exact hmap

theorem exists_moved (ht : test? op = some t) (h : boundaryMoved? op = some op') :
    ∃ t', t.moved? = some t' ∧ test? op' = some t' := by
  have hmap := map_boundaryMoved? op
  rw [ht, h] at hmap
  obtain ⟨t', hmoved, htest⟩ := Option.map_eq_some_iff.1 hmap.symm
  exact ⟨t', hmoved, htest.symm⟩

theorem execute?_drop (ht : test? op = some t) (h : t.Applies operands) (rest : List Value) :
    (plain (if comparesTwo op then Opcode.pop2 else Opcode.pop)).execute? (operands ++ rest)
      = some (.falls rest) := by
  have htwo := test?_typing op
  rw [ht, Option.all_some, decide_eq_true_iff] at htwo
  rw [htwo.2]
  cases h <;> rfl

theorem run?_jump (target : Nat) (rest : List Value) :
    run? [plain Opcode.iconst0, ⟨Opcode.ifeq, .branch target⟩] rest
      = some (.jumps target rest) := rfl

end Conditional

open Conditional

variable {i : Instruction} {p : Proposal} {t : Test} {operands rest : List Value}
  {jumping : Bool} {target : Nat}

namespace Conditional

theorem negate_decides (ht : test? i.opcode = some t) (hi : i.operand = .branch target)
    (h : t.Applies operands) (hd : t.decide? (operands ++ rest) = some (jumping, rest)) :
    ∃ p, negate i = some p ∧
      run? p.replacement (operands ++ rest) = some (.decided (!jumping) target rest) := by
  obtain ⟨op, hop, htest⟩ := exists_negated ht
  refine ⟨_, congrArg (Option.map _) hop, ?_⟩
  rw [hi]
  exact run?_decided (execute?_branch target htest (h.opposite hd))

theorem moveBoundary_decides (ht : test? i.opcode = some t) (hi : i.operand = .branch target)
    (h : t.Applies operands) (hd : t.decide? (operands ++ rest) = some (jumping, rest))
    (hp : moveBoundary i = some p) :
    run? p.replacement (operands ++ rest)
      = some (.decided (jumping ^^ comparesEqual operands) target rest) := by
  obtain ⟨op, hop, rfl⟩ := Option.map_eq_some_iff.1 hp
  obtain ⟨t', hmoved, htest⟩ := exists_moved ht hop
  rw [hi]
  exact run?_decided (execute?_branch target htest (h.moved hmoved hd))

theorem remove_decides {condition : Condition} {route : Route} (ht : test? i.opcode = some t)
    (hi : i.operand = .branch target) (h : t.Applies operands)
    (hp : remove condition route i = .ok (some p)) :
    run? p.replacement (operands ++ rest) = some (.decided (route == .jump) target rest) := by
  obtain ⟨-, target', hi', hreplacement⟩ := remove_some hp
  cases hi.symm.trans hi'
  rw [hreplacement, run?_falls (execute?_drop ht h rest)]
  cases route with
  | fallThrough => rfl
  | jump => exact run?_jump target rest

theorem moveBoundary_isSome (ht : test? i.opcode = some t) :
    (moveBoundary i).isSome = true ↔ t.condition = .ordering := by
  rw [moveBoundary, Option.isSome_map, boundaryMoved?_isSome ht, Test.condition]
  cases t.moved?.isSome <;> simp

theorem exists_remove (ht : test? i.opcode = some t) (hi : i.operand = .branch target)
    (condition : Condition) (route : Route) :
    ∃ r, remove condition route i = .ok r ∧ (r.isSome = true ↔ condition = t.condition) := by
  have hcondition : condition? i.opcode = some t.condition := by
    rw [condition?_eq, ht]
    rfl
  unfold remove
  rw [hcondition, hi]
  split
  · rename_i heq
    cases heq
    exact ⟨_, rfl, iff_of_true rfl rfl⟩
  · rename_i hne
    exact ⟨_, rfl, iff_of_false nofun fun heq => hne (congrArg some heq.symm)⟩

end Conditional

/-- On all operands of a conditional jump, its negation decides the opposite, its moved boundary the
opposite where they compare equal, and its removal always the same; it is of one family. -/
theorem Operator.propose_decides (m : MethodHeader) {s : Site}
    (hop : isConditional s.opcode = true) (hi : s.instruction.operand = .branch target) :
    (∀ operands rest, typing? s.opcode = some (.test (operands.map Value.kind)) →
      ∃ jumping, s.instruction.execute? (operands ++ rest) = some (.decided jumping target rest) ∧
        (∃ p, negateConditionals.propose m s = .ok (some p) ∧
          run? p.replacement (operands ++ rest) = some (.decided (!jumping) target rest)) ∧
        (∀ p, conditionalsBoundary.propose m s = .ok (some p) →
          run? p.replacement (operands ++ rest)
            = some (.decided (jumping ^^ comparesEqual operands) target rest)) ∧
        ∀ condition p,
          ((removeConditionals condition .fallThrough).propose m s = .ok (some p) →
            run? p.replacement (operands ++ rest) = some (.falls rest)) ∧
          ((removeConditionals condition .jump).propose m s = .ok (some p) →
            run? p.replacement (operands ++ rest) = some (.jumps target rest))) ∧
    ∃ family,
      (∀ condition route, ∃ r, (removeConditionals condition route).propose m s = .ok r ∧
        (r.isSome = true ↔ condition = family)) ∧
      ∃ r, conditionalsBoundary.propose m s = .ok r ∧ (r.isSome = true ↔ family = .ordering) := by
  obtain ⟨t, ht⟩ := Option.isSome_iff_exists.1 ((test?_isSome s.opcode).trans hop)
  refine ⟨fun operands rest htyping => ?_, t.condition, exists_remove ht hi, _, rfl,
    moveBoundary_isSome ht⟩
  have htakes := test?_typing s.opcode
  rw [ht, Option.all_some, decide_eq_true_iff, htyping] at htakes
  have happlies := Test.applies_of_takes (Typing.test.inj (Option.some.inj htakes.1))
  obtain ⟨jumping, hd⟩ := happlies.decided rest
  obtain ⟨p, hp, hrun⟩ := negate_decides ht hi happlies hd
  have hs : s.instruction = ⟨s.opcode, .branch target⟩ := congrArg (mk s.opcode) hi
  refine ⟨jumping, ?_, ⟨p, congrArg _ hp, hrun⟩, fun p hp => ?_, fun condition p => ⟨?_, ?_⟩⟩
  · rw [hs]
    exact execute?_branch target ht hd
  · exact moveBoundary_decides ht hi happlies hd (Except.ok.inj hp)
  · exact remove_decides ht hi happlies
  · exact remove_decides ht hi happlies

theorem Operator.decides_one_less_one :
    let m : MethodHeader := ⟨"A", 0x21, "f", "(II)V", 9⟩
    let s : Site := ⟨2, ⟨Opcode.ifIcmplt, .branch 7⟩, .other⟩
    isConditional s.opcode = true ∧ s.instruction.operand = .branch 7 ∧
    typing? s.opcode = some (.test ([Value.int 1, .int 1].map Value.kind)) ∧
    s.instruction.execute? [.int 1, .int 1] = some (.falls []) ∧
    (∃ p, negateConditionals.propose m s = .ok (some p) ∧
      run? p.replacement [.int 1, .int 1] = some (.jumps 7 [])) ∧
    (∀ p, conditionalsBoundary.propose m s = .ok (some p) →
      run? p.replacement [.int 1, .int 1] = some (.jumps 7 [])) ∧
    ∃ family, ∃ r, conditionalsBoundary.propose m s = .ok r ∧
      (r.isSome = true ↔ family = Condition.ordering) := by
  intro m s
  have hbranch : s.instruction.operand = .branch 7 := rfl
  obtain ⟨hdecides, family, -, hfamily⟩ := Operator.propose_decides m (s := s) rfl hbranch
  obtain ⟨jumping, hfalls, hnegate, hmove, -⟩ := hdecides [.int 1, .int 1] [] rfl
  have hjumping : jumping = false := by
    cases jumping with
    | false => rfl
    | true => exact absurd hfalls (by decide)
  subst hjumping
  exact ⟨rfl, rfl, rfl, hfalls, hnegate, hmove, family, hfamily⟩

end BytecodeMutation
