import BytecodeMutation.Proofs.Execution
import BytecodeMutation.Proofs.Replacements

namespace BytecodeMutation

open Instruction

namespace Return

theorem toBitVec_unsignedShift (a : Int32) :
    (unsignedShift a 31).toBitVec = a.toBitVec >>> 31 := rfl

theorem unsignedShift_sign (a : Int32) :
    unsignedShift a 31 = if a.toBitVec.msb then 1 else 0 := by
  rw [← Int32.toBitVec_inj, toBitVec_unsignedShift, ← BitVec.toNat_inj, BitVec.toNat_ushiftRight]
  have hbound := a.toBitVec.isLt
  rw [BitVec.msb_eq_decide, Nat.shiftRight_eq_div_pow]
  split
  · rename_i hsign
    have hle := of_decide_eq_true hsign
    change _ = 1
    omega
  · rename_i hsign
    have hlt := of_decide_eq_false (Bool.eq_false_iff.2 hsign)
    change _ = 0
    omega

theorem msb_or_neg (x : Int32) : (x ||| -x).toBitVec.msb = (x != 0) := by
  rw [Int32.toBitVec_or, Int32.toBitVec_neg, BitVec.msb_or, BitVec.msb_neg]
  by_cases hzero : x = 0
  · subst hzero
    rfl
  · by_cases hleast : x.toBitVec = BitVec.intMin 32
    · rw [hleast, bne_iff_ne.2 hzero]
      rfl
    · have hne : x.toBitVec ≠ 0#32 := mt (Int32.toBitVec_inj (b := 0)).1 hzero
      rw [bne_iff_ne.2 hzero, bne_iff_ne.2 hne, bne_iff_ne.2 hleast]
      cases x.toBitVec.msb <;> rfl

theorem sign_xor_one (x : Int32) :
    unsignedShift (x ||| -x) 31 ^^^ 1 = if x = 0 then 1 else 0 := by
  rw [unsignedShift_sign, msb_or_neg]
  by_cases hzero : x = 0
  · subst hzero
    rfl
  · rw [if_neg hzero, if_pos (bne_iff_ne.2 hzero)]
    rfl

theorem isZero_concat : isZero = isZero.take 7 ++ [plain Opcode.ireturn] := rfl

theorem run?_take_isZero (x : Int32) :
    run? (isZero.take 7) [.int x] = some (.falls [.int (if x = 0 then 1 else 0)]) := by
  rw [← sign_xor_one]
  rfl

theorem run?_isZero (x : Int32) (below : List Value) :
    run? isZero (.int x :: below) = some (.returns (.int (if x = 0 then 1 else 0)) below) := by
  have hrun : run? (isZero.take 7) (.int x :: below)
      = some (.falls (.int (if x = 0 then 1 else 0) :: below)) :=
    run?_append (run?_take_isZero x)
  rw [isZero_concat]
  exact run?_concat hrun

theorem run?_prefix_isZero (x : Int32) {k : Nat} (hk : k < isZero.length) :
    ∃ top, ∀ below, run? (isZero.take k) (.int x :: below) = some (.falls (top ++ below)) := by
  obtain ⟨top, htop⟩ := run?_take (run?_take_isZero x) k
  have hmin : min k 7 = k := Nat.min_eq_left (Nat.le_of_lt_succ hk)
  rw [List.take_take, hmin] at htop
  exact ⟨top, fun below => run?_append htop⟩

theorem isZero_straight : ∀ j ∈ isZero, Opcode.branches j.opcode = false ∧ j.targets = [] := by
  decide

end Return

/-- An integer is returned as whether it is zero, without a jump, and nothing below it is touched. -/
theorem Operator.propose_isZero {m : MethodHeader} {s : Site} (hm : m.isVoid = false)
    (hop : s.opcode = Opcode.ireturn) : ∃ p, returnVals.propose m s = .ok (some p) ∧
    (∀ j ∈ p.replacement, Opcode.branches j.opcode = false ∧ j.targets = []) ∧
    ∀ x : Int32,
      (∀ below, run? p.replacement (.int x :: below)
        = some (.returns (.int (if x = 0 then 1 else 0)) below)) ∧
      ∀ k < p.replacement.length, ∃ top, ∀ below,
        run? (p.replacement.take k) (.int x :: below) = some (.falls (top ++ below)) := by
  have hpropose : returnVals.propose m s = .ok (Return.change s.opcode) := by
    rw [propose, hm]
    rfl
  rw [hpropose, hop]
  exact ⟨_, rfl, Return.isZero_straight,
    fun x => ⟨Return.run?_isZero x, fun _ => Return.run?_prefix_isZero x⟩⟩

theorem Operator.isZero_least :
    let m : MethodHeader := ⟨"A", 0x21, "f", "(I)I", 9⟩
    let s : Site := ⟨1, .plain Opcode.ireturn, .other⟩
    m.isVoid = false ∧ s.opcode = Opcode.ireturn ∧
    ∃ p, returnVals.propose m s = .ok (some p) ∧
      run? p.replacement [.int (-2147483648), .reference none]
        = some (.returns (.int 0) [.reference none]) := by
  intro m s
  obtain ⟨p, hp, -, hrun⟩ := Operator.propose_isZero (m := m) (s := s) (by decide) rfl
  exact ⟨by decide, rfl, p, hp, (hrun (-2147483648)).1 [.reference none]⟩

end BytecodeMutation
