import BytecodeMutation.Instruction.Decode
import BytecodeMutation.Proofs.Readers
import BytecodeMutation.Proofs.Results

namespace BytecodeMutation

namespace Format

theorem forall_opcode {P : UInt8 → Prop} (h : ∀ n < 256, P (.ofNat n)) (op : UInt8) : P op := by
  have := h op.toNat op.toNat_lt
  rwa [UInt8.ofNat_toNat] at this

/-- What a function on opcodes gives. The values are taken from the function, since trying all
opcodes as values as well takes long. -/
theorem forall_opcode_mem {α : Type} {f : UInt8 → List α} {P : UInt8 → α → Prop}
    [∀ op a, Decidable (P op a)]
    (h : ∀ n < 256, ((f (.ofNat n)).all fun a => decide (P (.ofNat n) a)) = true) (op : UInt8) :
    ∀ a ∈ f op, P op a := by
  intro a ha
  have hall := forall_opcode (P := fun op => ((f op).all fun a => decide (P op a)) = true) h op
  exact of_decide_eq_true (List.all_eq_true.1 hall a ha)

theorem ofOpcode?_iff (op : UInt8) :
    (ofOpcode? op = some .increment ↔ op = Opcode.iinc) ∧
    (ofOpcode? op = some .shortConstant ↔ op = Opcode.ldc) ∧
    (ofOpcode? op = some .wide ↔ op = Opcode.wide) ∧
    (ofOpcode? op = some .farBranch ↔ Opcode.isFarJump op = true) := by
  revert op
  exact forall_opcode (by decide +kernel)

theorem increment_iff (op : UInt8) : ofOpcode? op = some .increment ↔ op = Opcode.iinc :=
  (ofOpcode?_iff op).1

theorem shortConstant_iff (op : UInt8) : ofOpcode? op = some .shortConstant ↔ op = Opcode.ldc :=
  (ofOpcode?_iff op).2.1

theorem wide_iff (op : UInt8) : ofOpcode? op = some .wide ↔ op = Opcode.wide :=
  (ofOpcode?_iff op).2.2.1

theorem farBranch_iff (op : UInt8) :
    ofOpcode? op = some .farBranch ↔ Opcode.isFarJump op = true :=
  (ofOpcode?_iff op).2.2.2

end Format

namespace Operand

def mapTargets (f : Nat → Nat) : Operand → Operand
  | .branch target => .branch (f target)
  | .tableSwitch default low targets => .tableSwitch (f default) low (targets.map f)
  | .lookupSwitch default cases =>
      .lookupSwitch (f default) (cases.map fun (key, target) => (key, f target))
  | o => o

theorem mapTargets_id (o : Operand) : o.mapTargets id = o := by
  cases o <;> simp [mapTargets]

/-- The lowest key of a switch whose keys follow one another, and how many there are. -/
def keys? : Operand → Option (Int32 × Nat)
  | .tableSwitch _ low targets => some (low, targets.length)
  | _ => none

end Operand

namespace Instruction

theorem signed32_inverts {v : Int32} {a b c d : UInt8} :
    signed32 a b c d = v ↔ [a, b, c, d] = Bytes.ofInt32 v := by
  constructor
  · rintro rfl
    rw [signed32, Bytes.ofInt32, UInt32.toUInt32_toInt32, Bytes.ofUInt32_word32]
  · intro h
    have hw := Bytes.word32_ofUInt32 v.toUInt32
    simp only [Bytes.ofInt32, Bytes.ofUInt32, List.cons.injEq, and_true] at h
    obtain ⟨rfl, rfl, rfl, rfl⟩ := h
    rw [signed32, hw, Int32.toInt32_toUInt32]

theorem words?_append (vs acc : List Int32) (r : Bytes) :
    words? vs.length acc (vs.flatMap Bytes.ofInt32 ++ r) = some (acc.reverse ++ vs, r) := by
  induction vs generalizing acc with
  | nil => simp [words?]
  | cons v vs ih =>
      have hv : signed32 _ _ _ _ = v := signed32_inverts.2 rfl
      simp only [List.flatMap_cons, Bytes.ofInt32, Bytes.ofUInt32, List.cons_append,
        List.nil_append, List.length_cons, words?, hv]
      simpa using ih (v :: acc)

theorem words?_some {n : Nat} {acc ws : List Int32} {s r : Bytes}
    (h : words? n acc s = some (ws, r)) : ∃ vs, ws = acc.reverse ++ vs ∧ vs.length = n ∧
      s = vs.flatMap Bytes.ofInt32 ++ r := by
  fun_induction words? n acc s with
  | case1 acc s =>
      cases h
      exact ⟨[], by simp⟩
  | case2 n acc a b c d s ih =>
      obtain ⟨vs, rfl, rfl, rfl⟩ := ih h
      exact ⟨signed32 a b c d :: vs, by simp, rfl, by simp [← signed32_inverts.1 rfl]⟩
  | case3 => cases h

def Legal (i : Instruction) : Prop :=
  match i.operand with
  | .absent => Format.ofOpcode? i.opcode = some .plain
  | .byte _ => Format.ofOpcode? i.opcode = some .signedByte
  | .short _ => Format.ofOpcode? i.opcode = some .signedShort
  | .arrayType _ => Format.ofOpcode? i.opcode = some .arrayType
  | .variable _ => Format.ofOpcode? i.opcode = some .variable
  | .increment .. => Format.ofOpcode? i.opcode = some .increment
  | .constant index => Format.ofOpcode? i.opcode = some .constant ∨
      Format.ofOpcode? i.opcode = some .shortConstant ∧ index ≤ 255
  | .newConstant _ => False
  | .branch _ => Format.ofOpcode? i.opcode = some .branch ∨
      Format.ofOpcode? i.opcode = some .farBranch
  | .tableSwitch _ low targets => Format.ofOpcode? i.opcode = some .tableSwitch ∧
      -2147483648 ≤ low.toInt + targets.length - 1 ∧
      low.toInt + targets.length - 1 < 2147483648 ∧ targets.length < 2147483648
  | .lookupSwitch _ cases => Format.ofOpcode? i.opcode = some .lookupSwitch ∧
      cases.length < 2147483648
  | .invokeInterface .. => Format.ofOpcode? i.opcode = some .invokeInterface
  | .invokeDynamic _ => Format.ofOpcode? i.opcode = some .invokeDynamic
  | .multiArray .. => Format.ofOpcode? i.opcode = some .multiArray

/-- The sums that lead to the highest key of a switch stay in their range. -/
def KeysInRange (i : Instruction) : Prop :=
  ∀ k ∈ i.operand.keys?, -2147483648 ≤ k.1.toInt + k.2 - 1 ∧ k.1.toInt + k.2 < 2147483648

instance (i : Instruction) : Decidable i.KeysInRange :=
  inferInstanceAs (Decidable (∀ k ∈ i.operand.keys?, _ ∧ _))

theorem int32_ok {v : Int} {w : Int32} :
    int32 v = .ok w ↔ -2147483648 ≤ v ∧ v < 2147483648 ∧ w = .ofInt v := by
  unfold int32
  split
  · rename_i hv
    simp only [Except.ok.injEq, hv.1, hv.2, true_and]
    exact eq_comm
  · rename_i hv
    simp only [reduceCtorEq, false_iff]
    exact fun h => hv ⟨h.1, h.2.1⟩

theorem highest_ok {low high : Int32} {n : Nat} (hn : n < 2147483648) :
    highest low n = .ok high ↔ -2147483648 ≤ low.toInt + n - 1 ∧ low.toInt + n < 2147483648 ∧
      high = .ofInt (low.toInt + n - 1) := by
  have hlow := low.le_toInt
  simp only [highest, Result.bind_ok, int32_ok, Int32.toInt_ofNat_of_lt hn]
  constructor
  · rintro ⟨next, ⟨-, hnext, rfl⟩, hleast, -, rfl⟩
    rw [Int32.toInt_ofInt_of_le (by omega) (by omega)] at hleast ⊢
    exact ⟨hleast, hnext, rfl⟩
  · rintro ⟨hleast, hnext, rfl⟩
    refine ⟨.ofInt (low.toInt + n), ⟨by omega, hnext, rfl⟩, ?_⟩
    rw [Int32.toInt_ofInt_of_le (by omega) (by omega)]
    exact ⟨hleast, by omega, rfl⟩

theorem toInt_highest {low high : Int32} {n : Nat} (hn : n < 2147483648)
    (h : highest low n = .ok high) : high.toInt = low.toInt + n - 1 := by
  obtain ⟨hleast, hnext, rfl⟩ := (highest_ok hn).1 h
  exact Int32.toInt_ofInt_of_le (by omega) (by omega)

theorem int32_error {v : Int} {e : Fault} (h : int32 v = .error e) : e = .overflow := by
  unfold int32 at h
  split at h <;> cases h
  rfl

theorem highest_error {low : Int32} {n : Nat} {e : Fault} (h : highest low n = .error e) :
    e = .overflow := by
  rcases Result.bind_error.1 h with h | ⟨next, -, h⟩
  · exact int32_error h
  · exact int32_error h

theorem highest_overflow {low : Int32} {n : Nat} (hn : n < 2147483648)
    (h : ¬ (-2147483648 ≤ low.toInt + n - 1 ∧ low.toInt + n < 2147483648)) :
    highest low n = .error .overflow := by
  cases hhigh : highest low n with
  | error e => rw [highest_error hhigh]
  | ok high =>
      obtain ⟨hleast, hnext, -⟩ := (highest_ok hn).1 hhigh
      exact absurd ⟨hleast, hnext⟩ h

theorem length_ofInt32 (v : Int32) : (Bytes.ofInt32 v).length = 4 := rfl

theorem length_flatMap_ofInt32 (vs : List Int32) :
    (vs.flatMap Bytes.ofInt32).length = vs.length * 4 := by
  induction vs with
  | nil => rfl
  | cons v vs ih =>
      simp only [List.flatMap_cons, List.length_append, ih, List.length_cons, length_ofInt32]
      omega

variable {offset : Nat} {op : UInt8} {s r : Bytes} {i : Instruction}

theorem tableWords_ok {default low : Int32} {ds : List Int32}
    (h : tableWords offset s = .ok (default, low, ds, r)) : ∃ high,
      s = ([default, low, high] ++ ds).flatMap Bytes.ofInt32 ++ r ∧
      high.toInt - low.toInt + 1 = ds.length ∧ ds.length < 2147483648 := by
  unfold tableWords at h
  split at h
  · rename_i d l high rest h₁
    split at h
    · rename_i hcount
      split at h
      · rename_i ds' r' h₂
        cases h
        obtain ⟨vs, hvs, -, rfl⟩ := words?_some h₁
        obtain ⟨ds, rfl, hlen, rfl⟩ := words?_some h₂
        simp only [List.reverse_nil, List.nil_append] at hvs ⊢
        obtain rfl := hvs
        simp only [tableCount] at hcount hlen
        exact ⟨high, by simp, by omega, by omega⟩
      · cases h
    · cases h
  · cases h

theorem lookupWords_ok {default : Int32} {ws : List Int32}
    (h : lookupWords offset s = .ok (default, ws, r)) : ∃ count,
      s = ([default, count] ++ ws).flatMap Bytes.ofInt32 ++ r ∧
      (ws.length : Int) = count.toInt * 2 := by
  unfold lookupWords at h
  split at h
  · rename_i d count rest h₁
    split at h
    · rename_i hcount
      split at h
      · rename_i ws' r' h₂
        cases h
        obtain ⟨vs, hvs, -, rfl⟩ := words?_some h₁
        obtain ⟨ws, rfl, hlen, rfl⟩ := words?_some h₂
        simp only [List.reverse_nil, List.nil_append] at hvs ⊢
        obtain rfl := hvs
        exact ⟨count, by simp, by omega⟩
      · cases h
    · cases h
  · cases h

theorem length_pairs : ∀ ws : List Int32, (pairs ws).length = ws.length / 2
  | [] => rfl
  | [_] => by simp [pairs]
  | _ :: _ :: ws => by
      simp only [pairs, List.length_cons, length_pairs ws]
      omega

theorem length_mapM_ok {α β : Type} {f : α → Except Fault β} {xs : List α} {ys : List β}
    (h : xs.mapM f = .ok ys) : ys.length = xs.length :=
  (Result.mapM_ok.1 h).length_eq.symm

theorem length_of_drop {n k : Nat} {t : Bytes} (h : s.drop n = t) (hk : t.length = k)
    (hpos : 0 < k) : s.length = n + k := by
  have := List.length_drop (i := n) (l := s)
  rw [h] at this
  omega

theorem toUInt16_le (a : UInt8) : a.toUInt16 ≤ 255 := by
  rw [UInt16.le_iff_toNat_le, UInt8.toNat_toUInt16]
  exact Nat.le_of_lt_succ a.toNat_lt

theorem not_isWide_variable (a : UInt8) : isWide (.variable a.toUInt16) = false := by
  simp only [isWide, decide_eq_false_iff_not, UInt16.not_lt]
  exact toUInt16_le a

theorem fitsByte_toInt16 (b : UInt8) : Operand.fitsByte b.toInt8.toInt16 = true := by
  have hlow := b.toInt8.le_toInt
  have hhigh := b.toInt8.toInt_le
  simp only [Operand.fitsByte, Bool.and_eq_true, decide_eq_true_eq, Int16.le_iff_toInt_le,
    Int8.toInt_toInt16]
  exact ⟨hlow, hhigh⟩

theorem not_isWide_increment (a b : UInt8) :
    isWide (.increment a.toUInt16 b.toInt8.toInt16) = false := by
  simpa [isWide, fitsByte_toInt16] using toUInt16_le a

theorem ne_ldc (hf : Format.ofOpcode? op = some .constant) : (op == Opcode.ldc) = false := by
  rw [Bool.eq_false_iff, ne_eq, beq_iff_eq, ← Format.shortConstant_iff, hf]
  exact nofun

theorem not_isFarJump (hf : Format.ofOpcode? op = some .branch) : Opcode.isFarJump op = false := by
  rw [Bool.eq_false_iff, ne_eq, ← Format.farBranch_iff, hf]
  exact nofun

def IsReadAs (offset : Nat) (op : UInt8) (s r : Bytes) (i : Instruction) : Prop :=
  i.opcode = op ∧ i.Legal ∧ s.length + 1 = i.encodedLength offset + r.length

theorem decodeOperand_variable (hf : Format.ofOpcode? op = some .variable)
    (h : decodeOperand .variable offset op s = .ok (i, r)) : IsReadAs offset op s r i := by
  cases s with
  | nil => cases h
  | cons a s =>
      cases h
      refine ⟨rfl, hf, ?_⟩
      simp only [encodedLength, not_isWide_variable, List.length_cons, Bool.false_eq_true, if_false]
      omega

theorem decodeOperand_increment (hf : Format.ofOpcode? op = some .increment)
    (h : decodeOperand .increment offset op s = .ok (i, r)) : IsReadAs offset op s r i := by
  rcases s with _ | ⟨a, _ | ⟨b, s⟩⟩
  · cases h
  · cases h
  · cases h
    refine ⟨rfl, hf, ?_⟩
    simp only [encodedLength, not_isWide_increment, List.length_cons, Bool.false_eq_true, if_false]
    omega

theorem decodeOperand_shortConstant (hf : Format.ofOpcode? op = some .shortConstant)
    (h : decodeOperand .shortConstant offset op s = .ok (i, r)) : IsReadAs offset op s r i := by
  cases s with
  | nil => cases h
  | cons a s =>
      cases h
      obtain rfl := (Format.shortConstant_iff op).1 hf
      refine ⟨rfl, .inr ⟨hf, toUInt16_le a⟩, ?_⟩
      simp only [encodedLength, beq_self_eq_true, Bool.true_and, toUInt16_le, decide_true, if_true,
        List.length_cons]
      omega

theorem decodeOperand_constant (hf : Format.ofOpcode? op = some .constant)
    (h : decodeOperand .constant offset op s = .ok (i, r)) : IsReadAs offset op s r i := by
  rcases s with _ | ⟨a, _ | ⟨b, s⟩⟩
  · cases h
  · cases h
  · cases h
    refine ⟨rfl, .inl hf, ?_⟩
    simp only [encodedLength, ne_ldc hf, Bool.false_and, Bool.false_eq_true, if_false,
      List.length_cons]
    omega

theorem decodeOperand_branch (hf : Format.ofOpcode? op = some .branch)
    (h : decodeOperand .branch offset op s = .ok (i, r)) : IsReadAs offset op s r i := by
  rcases s with _ | ⟨a, _ | ⟨b, s⟩⟩
  · cases h
  · cases h
  · obtain ⟨t, -, h⟩ := Result.bind_ok.1 h
    cases h
    refine ⟨rfl, .inl hf, ?_⟩
    simp only [encodedLength, not_isFarJump hf, List.length_cons, Bool.false_eq_true, if_false]
    omega

theorem decodeOperand_farBranch (hf : Format.ofOpcode? op = some .farBranch)
    (h : decodeOperand .farBranch offset op s = .ok (i, r)) : IsReadAs offset op s r i := by
  rcases s with _ | ⟨a, _ | ⟨b, _ | ⟨c, _ | ⟨d, s⟩⟩⟩⟩
  · cases h
  · cases h
  · cases h
  · cases h
  · obtain ⟨t, -, h⟩ := Result.bind_ok.1 h
    cases h
    refine ⟨rfl, .inr hf, ?_⟩
    simp only [encodedLength, (Format.farBranch_iff op).1 hf, List.length_cons, if_true]
    omega

theorem decodeOperand_tableSwitch (hf : Format.ofOpcode? op = some .tableSwitch)
    (h : decodeOperand .tableSwitch offset op s = .ok (i, r)) : IsReadAs offset op s r i := by
  obtain ⟨⟨default, low, ds, r'⟩, htable, h⟩ := Result.bind_ok.1 h
  obtain ⟨target, -, h⟩ := Result.bind_ok.1 h
  obtain ⟨targets, htargets, h⟩ := Result.bind_ok.1 h
  cases h
  obtain ⟨high, hs, hcount, hlt⟩ := tableWords_ok htable
  have hlen := length_of_drop hs rfl
    (by simp only [List.length_append, length_flatMap_ofInt32, List.length_cons]; omega)
  have hds := length_mapM_ok htargets
  simp only [List.length_append, length_flatMap_ofInt32, List.length_cons,
    List.length_nil] at hlen
  have hlow := high.le_toInt
  have hhigh := high.toInt_lt
  refine ⟨rfl, ⟨hf, ?_, ?_, ?_⟩, ?_⟩
  · omega
  · omega
  · omega
  · simp only [encodedLength]
    omega

theorem decodeOperand_lookupSwitch (hf : Format.ofOpcode? op = some .lookupSwitch)
    (h : decodeOperand .lookupSwitch offset op s = .ok (i, r)) : IsReadAs offset op s r i := by
  obtain ⟨⟨default, ws, r'⟩, htable, h⟩ := Result.bind_ok.1 h
  obtain ⟨target, -, h⟩ := Result.bind_ok.1 h
  obtain ⟨cases, hcases, h⟩ := Result.bind_ok.1 h
  cases h
  obtain ⟨count, hs, hcount⟩ := lookupWords_ok htable
  have hlen := length_of_drop hs rfl
    (by simp only [List.length_append, length_flatMap_ofInt32, List.length_cons]; omega)
  have hpairs := length_mapM_ok hcases
  rw [length_pairs] at hpairs
  simp only [List.length_append, length_flatMap_ofInt32, List.length_cons,
    List.length_nil] at hlen
  have hlt := count.toInt_lt
  refine ⟨rfl, ⟨hf, ?_⟩, ?_⟩
  · omega
  · simp only [encodedLength]
    omega

theorem decodeOperand_legal {format : Format} (hf : Format.ofOpcode? op = some format)
    (hw : format ≠ .wide) (h : decodeOperand format offset op s = .ok (i, r)) :
    IsReadAs offset op s r i := by
  cases format with
  | «variable» => exact decodeOperand_variable hf h
  | increment => exact decodeOperand_increment hf h
  | shortConstant => exact decodeOperand_shortConstant hf h
  | constant => exact decodeOperand_constant hf h
  | branch => exact decodeOperand_branch hf h
  | farBranch => exact decodeOperand_farBranch hf h
  | tableSwitch => exact decodeOperand_tableSwitch hf h
  | lookupSwitch => exact decodeOperand_lookupSwitch hf h
  | wide => exact absurd rfl hw
  | plain =>
      cases h
      exact ⟨rfl, hf, Nat.add_comm ..⟩
  | signedByte | arrayType =>
      rcases s with _ | ⟨a, s⟩ <;> cases h
      exact ⟨rfl, hf, by simp only [encodedLength, List.length_cons]; omega⟩
  | signedShort =>
      rcases s with _ | ⟨a, _ | ⟨b, s⟩⟩ <;> cases h
      exact ⟨rfl, hf, by simp only [encodedLength, List.length_cons]; omega⟩
  | invokeInterface | invokeDynamic =>
      rcases s with _ | ⟨a, _ | ⟨b, _ | ⟨c, _ | ⟨d, s⟩⟩⟩⟩ <;> cases h
      exact ⟨rfl, hf, by simp only [encodedLength, List.length_cons]; omega⟩
  | multiArray =>
      rcases s with _ | ⟨a, _ | ⟨b, _ | ⟨c, s⟩⟩⟩ <;> cases h
      exact ⟨rfl, hf, by simp only [encodedLength, List.length_cons]; omega⟩

/-- The wide form stands before an opcode that has a short form. -/
def IsLegalWide (i : Instruction) : Prop :=
  ∀ index, i.operand = .variable index → Format.ofOpcode? i.opcode = some .variable

theorem isLegalWide_iff (i : Instruction) : i.IsLegalWide ↔
    (i.operand matches .variable _) = true → Format.ofOpcode? i.opcode = some .variable := by
  obtain ⟨op, operand⟩ := i
  cases operand <;> simp [IsLegalWide]

instance (i : Instruction) : Decidable i.IsLegalWide := decidable_of_iff _ i.isLegalWide_iff.symm

theorem decodeWide_ok (h : decodeOperand .wide offset op s = .ok (i, r)) :
    s.length = (if i.opcode == Opcode.iinc then 5 else 3) + r.length ∧
      (i.IsLegalWide → i.Legal) := by
  cases s with
  | nil => cases h
  | cons inner s =>
      unfold decodeOperand at h
      simp only at h
      split at h
      · rename_i hinc
        split at h
        · cases h
          refine ⟨by simp only [hinc, if_true, List.length_cons]; omega, fun _ => ?_⟩
          exact (Format.increment_iff inner).2 (beq_iff_eq.1 hinc)
        · cases h
      · rename_i hinc
        split at h
        · cases h
          refine ⟨by simp only [hinc, Bool.false_eq_true, if_false, List.length_cons]; omega,
            fun hw => ?_⟩
          exact hw _ rfl
        · cases h

theorem decodeNext_ok (h : decodeNext offset op s = .ok (i, r)) :
    s.length + 1 = readLength offset op i + r.length ∧ (i.IsLegalWide → i.Legal) := by
  unfold decodeNext at h
  split at h
  · rename_i format hf
    by_cases hw : format = .wide
    · subst hw
      obtain rfl := (Format.wide_iff op).1 hf
      obtain ⟨hlen, hlegal⟩ := decodeWide_ok h
      refine ⟨?_, hlegal⟩
      simp only [readLength, beq_self_eq_true, if_true]
      split <;> simp_all <;> omega
    · obtain ⟨-, hlegal, hlen⟩ := decodeOperand_legal hf hw h
      have hne : (op == Opcode.wide) = false := by
        rw [Bool.eq_false_iff, ne_eq, beq_iff_eq, ← Format.wide_iff, hf]
        exact fun heq => hw (Option.some.inj heq)
      exact ⟨by simp only [readLength, hne, Bool.false_eq_true, if_false, hlen], fun _ => hlegal⟩
  · cases h

inductive Decodes : Nat → Bytes → List (Nat × Instruction) → Prop where
  | nil {offset : Nat} : Decodes offset [] []
  | cons {offset : Nat} {op : UInt8} {s r : Bytes} {i : Instruction} {is : List (Nat × Instruction)}
      (h : decodeNext offset op s = .ok (i, r))
      (hs : Decodes (offset + readLength offset op i) r is) :
      Decodes offset (op :: s) ((offset, i) :: is)

theorem decodeFrom_iff {acc out : List (Nat × Instruction)} : decodeFrom offset acc s = .ok out ↔
    ∃ is, out = acc.reverse ++ is ∧ Decodes offset s is := by
  constructor
  · intro h
    fun_induction decodeFrom offset acc s with
    | case1 offset acc =>
        cases h
        exact ⟨[], by simp, .nil⟩
    | case2 offset acc op s e he => cases h
    | case3 offset acc op s i r hi ih =>
        obtain ⟨is, rfl, his⟩ := ih h
        exact ⟨(offset, i) :: is, by simp, .cons hi his⟩
  · rintro ⟨is, rfl, his⟩
    induction his generalizing acc with
    | nil => simp [decodeFrom]
    | cons h _ ih =>
        rw [decodeFrom]
        split
        · rename_i heq
          rw [h] at heq
          cases heq
        · rename_i heq
          rw [h] at heq
          cases heq
          simpa using @ih (_ :: acc)

theorem decode_iff {code : Bytes} {is : List (Nat × Instruction)} :
    decode code = .ok is ↔ Decodes 0 code is := by
  simp [decode, decodeFrom_iff]

variable {moved : TargetMap} {f : Nat → Nat} {bytes : Bytes}

def ReachesFar (offset target : Nat) : Prop :=
  target < 2147483648 ∧ offset ≤ target + 2147483648

theorem ReachesFar.of_lt {offset target : Nat} (ho : offset < 2147483648)
    (ht : target < 2147483648) : ReachesFar offset target :=
  ⟨ht, by omega⟩

theorem distance_toInt {offset target : Nat} (h : ReachesFar offset target) :
    (distance offset target).toInt = (target : Int) - offset := by
  obtain ⟨ht, ho⟩ := h
  rw [distance, Int32.toInt_ofInt_of_le]
  · omega
  · omega

theorem targetOf_distance {offset target : Nat} (h : ReachesFar offset target) :
    targetOf offset (distance offset target) = .ok target := by
  have hd := distance_toInt h
  have ht := h.1
  simp only [targetOf, hd]
  rw [if_pos (by omega)]
  congr 1
  omega

theorem tableWords_append (offset : Nat) (default low high : Int32) (ds : List Int32) (r : Bytes)
    (hcount : high.toInt - low.toInt + 1 = ds.length) (hlt : ds.length < 2147483648) :
    tableWords offset (([default, low, high] ++ ds).flatMap Bytes.ofInt32 ++ r)
      = .ok (default, low, ds, r) := by
  have h₁ := words?_append [default, low, high] [] (ds.flatMap Bytes.ofInt32 ++ r)
  have h₂ := words?_append ds [] r
  have hn : (tableCount low high).toNat = ds.length := by
    simp only [tableCount]
    omega
  rw [List.flatMap_append, List.append_assoc]
  simp only [tableWords]
  rw [show (3 : Nat) = [default, low, high].length from rfl, h₁]
  simp only [List.reverse_nil, List.nil_append, hn, h₂]
  rw [if_pos (by simp only [tableCount]; omega)]

theorem lookupWords_append (offset : Nat) (default count : Int32) (ws : List Int32) (r : Bytes)
    (hcount : (ws.length : Int) = count.toInt * 2) :
    lookupWords offset (([default, count] ++ ws).flatMap Bytes.ofInt32 ++ r)
      = .ok (default, ws, r) := by
  have h₁ := words?_append [default, count] [] (ws.flatMap Bytes.ofInt32 ++ r)
  have h₂ := words?_append ws [] r
  have hn : count.toInt.toNat * 2 = ws.length := by omega
  rw [List.flatMap_append, List.append_assoc]
  simp only [lookupWords]
  rw [show (2 : Nat) = [default, count].length from rfl, h₁]
  simp only [List.reverse_nil, List.nil_append, List.length_cons, List.length_nil, hn, h₂]
  rw [if_pos (by omega)]

theorem pairs_flatMap {cases : List (Int32 × Int32)} :
    pairs (cases.flatMap fun (key, d) => [key, d]) = cases := by
  induction cases with
  | nil => rfl
  | cons c cases ih =>
      obtain ⟨key, d⟩ := c
      simp only [List.flatMap_cons, List.cons_append, List.nil_append, pairs, ih]

theorem distanceTo_ok {target : Nat} (h : moved target = .ok (f target)) :
    distanceTo moved offset target = .ok (distance offset (f target)) := by
  rw [distanceTo, h]
  rfl

theorem targetOf_distances {targets : List Nat} (hf : ∀ t ∈ targets, ReachesFar offset (f t)) :
    (targets.map fun t => distance offset (f t)).mapM (targetOf offset) = .ok (targets.map f) := by
  rw [Result.mapM_ok, List.forall₂_map_left_iff, List.forall₂_map_right_iff, List.forall₂_same]
  exact fun t ht => targetOf_distance (hf t ht)

theorem decodeNext_eq {format : Format} (hf : Format.ofOpcode? op = some format) :
    decodeNext offset op s = decodeOperand format offset op s := by
  simp only [decodeNext, hf]

theorem signed16_ofInt16 (v : Int16) :
    signed16 (.ofNat (v.toUInt16.toNat / 256)) (.ofNat v.toUInt16.toNat) = v := by
  rw [signed16, Bytes.word16_ofUInt16, Int16.toInt16_toUInt16]

theorem signed32_ofInt32 (v : Int32) :
    signed32 (.ofNat (v.toUInt32.toNat / 16777216)) (.ofNat (v.toUInt32.toNat / 65536))
      (.ofNat (v.toUInt32.toNat / 256)) (.ofNat v.toUInt32.toNat) = v :=
  signed32_inverts.2 rfl

theorem fitsShort_iff {d : Int32} :
    Operand.fitsShort d = true ↔ -32768 ≤ d.toInt ∧ d.toInt ≤ 32767 := by
  have hl : (-32768 : Int32).toInt = -32768 := by decide
  have hu : (32767 : Int32).toInt = 32767 := by decide
  rw [Operand.fitsShort, Bool.and_eq_true, decide_eq_true_eq, decide_eq_true_eq,
    Int32.le_iff_toInt_le, Int32.le_iff_toInt_le, hl, hu]

theorem toInt16_toInt32 {d : Int32} (h : Operand.fitsShort d = true) : d.toInt16.toInt32 = d := by
  rw [fitsShort_iff] at h
  apply Int32.toInt_inj.1
  rw [Int16.toInt_toInt32, Int32.toInt_toInt16, Int.bmod_eq_of_le]
  · omega
  · omega

theorem toUInt8_toUInt16 {index : UInt16} (h : ¬ 255 < index) : index.toUInt8.toUInt16 = index := by
  rw [UInt16.lt_iff_toNat_lt] at h
  apply UInt16.toNat_inj.1
  simp at h ⊢
  omega

theorem toInt8_toInt16 {d : Int16} (h : Operand.fitsByte d = true) : d.toInt8.toInt16 = d := by
  simp only [Operand.fitsByte, Bool.and_eq_true, decide_eq_true_eq, Int16.le_iff_toInt_le] at h
  have hl : (-128 : Int16).toInt = -128 := by decide
  have hu : (127 : Int16).toInt = 127 := by decide
  apply Int16.toInt_inj.1
  rw [Int8.toInt_toInt16, Int16.toInt_toInt8, Int.bmod_eq_of_le]
  · omega
  · omega

def ReadsBack (offset : Nat) (bytes : Bytes) (i : Instruction) : Prop :=
  ∃ op s, bytes = op :: s ∧ ∀ rest, decodeNext offset op (s ++ rest) = .ok (i, rest)

theorem readsBack_short {opcode : UInt8} {value : Int16}
    (hi : Format.ofOpcode? opcode = some .signedShort) :
    ReadsBack offset (opcode :: Bytes.ofInt16 value) ⟨opcode, .short value⟩ := by
  refine ⟨_, _, rfl, fun rest => ?_⟩
  rw [decodeNext_eq hi]
  simp only [Bytes.ofInt16, Bytes.ofUInt16, List.cons_append, List.nil_append, decodeOperand,
    signed16_ofInt16]

theorem readsBack_word {format : Format} {opcode : UInt8} (operand : UInt16 → Operand)
    (hi : Format.ofOpcode? opcode = some format) (tail : Bytes)
    (h : ∀ a b rest, decodeOperand format offset opcode (a :: b :: (tail ++ rest))
      = .ok (⟨opcode, operand (Bytes.word16 a b)⟩, rest)) (index : UInt16) :
    ReadsBack offset (opcode :: (Bytes.ofUInt16 index ++ tail)) ⟨opcode, operand index⟩ := by
  refine ⟨_, _, rfl, fun rest => ?_⟩
  have hread := h (.ofNat (index.toNat / 256)) (.ofNat index.toNat) rest
  rw [Bytes.word16_ofUInt16] at hread
  rw [decodeNext_eq hi]
  exact hread

theorem readsBack_variable {opcode : UInt8} {index : UInt16}
    (hi : Format.ofOpcode? opcode = some .variable)
    (h : encode moved offset ⟨opcode, .variable index⟩ = .ok bytes) :
    ReadsBack offset bytes ⟨opcode, .variable index⟩ := by
  simp only [encode] at h
  split at h
  · cases h
    refine ⟨_, _, rfl, fun rest => ?_⟩
    have hne : (opcode == Opcode.iinc) = false := by
      rw [Bool.eq_false_iff, ne_eq, beq_iff_eq, ← Format.increment_iff, hi]
      intro heq
      cases heq
    rw [decodeNext_eq ((Format.wide_iff _).2 rfl)]
    simp only [Bytes.ofUInt16, List.cons_append, List.nil_append, decodeOperand, hne,
      Bool.false_eq_true, if_false, Bytes.word16_ofUInt16]
  · rename_i hw
    cases h
    refine ⟨_, _, rfl, fun rest => ?_⟩
    rw [decodeNext_eq hi]
    have hindex : index.toUInt8.toUInt16 = index := toUInt8_toUInt16 (by simpa [isWide] using hw)
    simp only [List.cons_append, List.nil_append, decodeOperand, hindex]

theorem readsBack_increment {opcode : UInt8} {index : UInt16} {delta : Int16}
    (hi : Format.ofOpcode? opcode = some .increment)
    (h : encode moved offset ⟨opcode, .increment index delta⟩ = .ok bytes) :
    ReadsBack offset bytes ⟨opcode, .increment index delta⟩ := by
  obtain rfl := (Format.increment_iff opcode).1 hi
  simp only [encode] at h
  split at h
  · cases h
    refine ⟨_, Opcode.iinc :: Bytes.ofUInt16 index ++ Bytes.ofInt16 delta, rfl, fun rest => ?_⟩
    rw [decodeNext_eq ((Format.wide_iff _).2 rfl)]
    simp only [Bytes.ofUInt16, Bytes.ofInt16, List.cons_append, List.nil_append, decodeOperand,
      beq_self_eq_true, if_true, Bytes.word16_ofUInt16, signed16_ofInt16]
  · rename_i hw
    cases h
    refine ⟨_, _, rfl, fun rest => ?_⟩
    rw [decodeNext_eq hi]
    obtain ⟨hindex, hdelta⟩ : ¬ 255 < index ∧ Operand.fitsByte delta = true := by
      simpa [isWide] using hw
    simp only [List.cons_append, List.nil_append, decodeOperand, toUInt8_toUInt16 hindex,
      Int8.toInt8_toUInt8, toInt8_toInt16 hdelta]

theorem readsBack_constant {opcode : UInt8} {index : UInt16}
    (hi : (⟨opcode, .constant index⟩ : Instruction).Legal)
    (h : encode moved offset ⟨opcode, .constant index⟩ = .ok bytes) :
    ReadsBack offset bytes ⟨opcode, .constant index⟩ := by
  simp only [encode] at h
  rcases hi with hi | ⟨hi, hindex⟩
  · simp only [ne_ldc hi] at h
    cases h
    exact readsBack_word .constant hi [] (fun _ _ _ => rfl) index
  · obtain rfl := (Format.shortConstant_iff opcode).1 hi
    simp only [beq_self_eq_true, if_true, hindex] at h
    cases h
    refine ⟨_, _, rfl, fun rest => ?_⟩
    rw [decodeNext_eq hi]
    have hindex' := toUInt8_toUInt16 (UInt16.not_lt.2 hindex)
    simp only [List.cons_append, List.nil_append, decodeOperand, hindex']

theorem readsBack_branch {opcode : UInt8} {target : Nat}
    (hi : (⟨opcode, .branch target⟩ : Instruction).Legal)
    (hf : moved target = .ok (f target)) (ht : ReachesFar offset (f target))
    (h : encodeBranch moved opcode offset target = .ok bytes) :
    ReadsBack offset bytes ⟨opcode, .branch (f target)⟩ := by
  unfold encodeBranch at h
  obtain ⟨d, hd, h⟩ := Result.bind_ok.1 h
  rw [distanceTo_ok hf] at hd
  cases hd
  split at h
  · rename_i hfar
    cases h
    refine ⟨_, _, rfl, fun rest => ?_⟩
    rw [decodeNext_eq ((Format.farBranch_iff opcode).2 hfar)]
    simp only [Bytes.ofInt32, Bytes.ofUInt32, List.cons_append, List.nil_append, decodeOperand,
      signed32_ofInt32, targetOf_distance ht]
    rfl
  · rename_i hnear
    split at h
    · rename_i hfits
      cases h
      refine ⟨_, _, rfl, fun rest => ?_⟩
      have hshort : Format.ofOpcode? opcode = some .branch :=
        hi.resolve_right fun h => hnear ((Format.farBranch_iff opcode).1 h)
      rw [decodeNext_eq hshort]
      simp only [Bytes.ofInt16, Bytes.ofUInt16, List.cons_append, List.nil_append, decodeOperand,
        signed16_ofInt16, toInt16_toInt32 hfits, targetOf_distance ht]
      rfl
    · cases h

theorem highest_eq (low : Int32) (n : Nat) :
    low + .ofNat n - 1 = .ofInt (low.toInt + n - 1) := by
  rw [Int32.ofInt_sub, Int32.ofInt_add, Int32.ofInt_toInt, Int32.ofInt_eq_ofNat]
  rfl

theorem encodeTable_ok {default : Nat} {low : Int32} {targets : List Nat}
    (h : encodeTable moved offset low default targets = .ok bytes) : ∃ high d ds,
      highest low targets.length = .ok high ∧ distanceTo moved offset default = .ok d ∧
      targets.mapM (distanceTo moved offset) = .ok ds ∧
      bytes = List.replicate (switchPadding offset) 0 ++ Bytes.ofInt32 d ++ Bytes.ofInt32 low
        ++ Bytes.ofInt32 high ++ ds.flatMap Bytes.ofInt32 := by
  obtain ⟨high, hhigh, h⟩ := Result.bind_ok.1 h
  obtain ⟨d, hd, h⟩ := Result.bind_ok.1 h
  obtain ⟨ds, hds, h⟩ := Result.bind_ok.1 h
  exact ⟨high, d, ds, hhigh, hd, hds, (Except.ok.inj h).symm⟩

theorem readsBack_table {opcode : UInt8} {default : Nat} {low : Int32} {targets : List Nat}
    (hi : (⟨opcode, .tableSwitch default low targets⟩ : Instruction).Legal)
    (hf : ∀ t ∈ default :: targets, moved t = .ok (f t) ∧ ReachesFar offset (f t))
    (h : encodeTable moved offset low default targets = .ok bytes) :
    ReadsBack offset (opcode :: bytes)
      ⟨opcode, .tableSwitch (f default) low (targets.map f)⟩ := by
  obtain ⟨hformat, -, -, hlt⟩ := hi
  obtain ⟨hdefault, htargets⟩ := List.forall_mem_cons.1 hf
  have hmap : targets.mapM (distanceTo moved offset)
      = .ok (targets.map fun t => distance offset (f t)) :=
    Result.mapM_eq_map fun t ht => distanceTo_ok (htargets t ht).1
  obtain ⟨high, d, ds, hhigh, hd, hds, rfl⟩ := encodeTable_ok h
  cases (distanceTo_ok hdefault.1).symm.trans hd
  cases hmap.symm.trans hds
  refine ⟨_, _, rfl, fun rest => ?_⟩
  rw [decodeNext_eq hformat]
  have hdrop : ∀ t : Bytes, (List.replicate (switchPadding offset) 0 ++ t).drop
      (switchPadding offset) = t := fun t => by simp
  have htable := tableWords_append offset (distance offset (f default)) low high
    (targets.map fun t => distance offset (f t)) rest
    (by rw [toInt_highest hlt hhigh, List.length_map]; omega) (by simpa using hlt)
  simp only [List.append_assoc, decodeOperand, hdrop]
  simp only [List.flatMap_append, List.flatMap_cons, List.flatMap_nil, List.append_nil,
    List.append_assoc] at htable
  rw [htable]
  simp only [bind, Except.bind, targetOf_distance hdefault.2,
    targetOf_distances fun t ht => (htargets t ht).2]

theorem length_flatMap_pair (cases : List (Int32 × Int32)) :
    (cases.flatMap fun (key, d) => [key, d]).length = cases.length * 2 := by
  induction cases with
  | nil => rfl
  | cons c cases ih =>
      simp only [List.flatMap_cons, List.length_append, ih, List.length_cons, List.length_nil]
      omega

theorem readsBack_lookup {opcode : UInt8} {default : Nat} {cases : List (Int32 × Nat)}
    (hi : (⟨opcode, .lookupSwitch default cases⟩ : Instruction).Legal)
    (hf : ∀ t ∈ default :: cases.map (·.2), moved t = .ok (f t) ∧ ReachesFar offset (f t))
    (h : encodeLookup moved offset default cases = .ok bytes) :
    ReadsBack offset (opcode :: bytes)
      ⟨opcode, .lookupSwitch (f default) (cases.map fun (key, target) => (key, f target))⟩ := by
  obtain ⟨hformat, hlt⟩ := hi
  obtain ⟨hdefault, htargets⟩ := List.forall_mem_cons.1 hf
  have hcases : ∀ c ∈ cases, moved c.2 = .ok (f c.2) ∧ ReachesFar offset (f c.2) := fun c hc =>
    htargets c.2 (List.mem_map_of_mem hc)
  have hds : (cases.mapM fun (key, target) => (distanceTo moved offset target).map (key, ·))
      = .ok (cases.map fun (key, target) => (key, distance offset (f target))) := by
    refine Result.mapM_eq_map ?_
    rintro ⟨key, target⟩ hc
    simp only [distanceTo_ok (hcases _ hc).1]
    rfl
  simp only [encodeLookup, distanceTo_ok hdefault.1, hds] at h
  cases h
  refine ⟨_, _, rfl, fun rest => ?_⟩
  have hcount : (Int32.ofNat cases.length).toInt = cases.length :=
    Int32.toInt_ofNat_of_lt hlt
  have htable := lookupWords_append offset (distance offset (f default)) (.ofNat cases.length)
    ((cases.map fun (key, target) =>
      (key, distance offset (f target))).flatMap fun (key, d) => [key, d]) rest
    (by rw [hcount, length_flatMap_pair, List.length_map]; rfl)
  have htargets' : (cases.map fun (key, target) => (key, distance offset (f target))).mapM
      (fun (key, d) => (targetOf offset d).map (key, ·))
      = .ok (cases.map fun (key, target) => (key, f target)) := by
    rw [Result.mapM_ok, List.forall₂_map_left_iff, List.forall₂_map_right_iff, List.forall₂_same]
    intro c hc
    simp only [targetOf_distance (hcases c hc).2]
    rfl
  have hdrop : ∀ t : Bytes, (List.replicate (switchPadding offset) 0 ++ t).drop
      (switchPadding offset) = t := fun t => by simp
  rw [decodeNext_eq hformat]
  simp only [List.append_assoc, decodeOperand, hdrop]
  simp only [List.flatMap_append, List.flatMap_cons, List.flatMap_nil, List.append_nil,
    List.append_assoc, List.flatMap_assoc] at htable
  have hlength : Bytes.ofNat32 cases.length = Bytes.ofInt32 (.ofNat cases.length) := rfl
  rw [hlength, htable]
  simp only [bind, Except.bind, targetOf_distance hdefault.2, pairs_flatMap, htargets']

theorem decodeNext_encode (hi : i.Legal)
    (hf : ∀ t ∈ i.targets, moved t = .ok (f t) ∧ ReachesFar offset (f t))
    (h : i.encode moved offset = .ok bytes) :
    ReadsBack offset bytes ⟨i.opcode, i.operand.mapTargets f⟩ := by
  obtain ⟨opcode, operand⟩ := i
  cases operand with
  | absent | byte | arrayType =>
      cases h
      exact ⟨_, _, rfl, fun rest => by rw [decodeNext_eq hi]; rfl⟩
  | short value =>
      cases h
      exact readsBack_short hi
  | «variable» index => exact readsBack_variable hi h
  | increment index delta => exact readsBack_increment hi h
  | constant index => exact readsBack_constant hi h
  | newConstant request => exact hi.elim
  | branch target =>
      obtain ⟨hm, ht⟩ := hf target (List.mem_singleton_self target)
      exact readsBack_branch hi hm ht h
  | tableSwitch default low targets =>
      obtain ⟨s, hs, rfl⟩ := Result.map_ok.1 h
      exact readsBack_table hi hf hs
  | lookupSwitch default cases =>
      obtain ⟨s, hs, rfl⟩ := Result.map_ok.1 h
      exact readsBack_lookup hi hf hs
  | invokeInterface index count =>
      cases h
      exact readsBack_word (.invokeInterface · count) hi [count, 0] (fun _ _ _ => rfl) index
  | invokeDynamic index =>
      cases h
      exact readsBack_word .invokeDynamic hi [0, 0] (fun _ _ _ => rfl) index
  | multiArray index dimensions =>
      cases h
      exact readsBack_word (.multiArray · dimensions) hi [dimensions] (fun _ _ _ => rfl) index

theorem length_encodeTable {default : Nat} {low : Int32} {targets : List Nat}
    (h : encodeTable moved offset low default targets = .ok bytes) :
    bytes.length = switchPadding offset + 12 + targets.length * 4 := by
  obtain ⟨high, d, ds, -, -, hds, rfl⟩ := encodeTable_ok h
  have hlen := length_mapM_ok hds
  simp only [List.length_append, List.length_replicate, length_ofInt32, length_flatMap_ofInt32]
  omega

theorem length_encodeLookup {default : Nat} {cases : List (Int32 × Nat)}
    (h : encodeLookup moved offset default cases = .ok bytes) :
    bytes.length = switchPadding offset + 8 + cases.length * 8 := by
  obtain ⟨d, -, h⟩ := Result.bind_ok.1 h
  obtain ⟨ds, hds, h⟩ := Result.bind_ok.1 h
  cases h
  have hlen := length_mapM_ok hds
  have hwords := length_flatMap_ofInt32 (ds.flatMap fun (key, d) => [key, d])
  rw [length_flatMap_pair] at hwords
  simp only [List.flatMap_assoc, List.flatMap_cons, List.flatMap_nil, List.append_nil] at hwords
  simp only [List.length_append, List.length_replicate, hwords, length_ofInt32, Bytes.ofNat32,
    Bytes.length_ofUInt32]
  omega

theorem length_encode (h : i.encode moved offset = .ok bytes) :
    bytes.length = i.encodedLength offset := by
  obtain ⟨opcode, operand⟩ := i
  cases operand with
  | absent | byte | short | arrayType | invokeInterface | invokeDynamic | multiArray =>
      cases h
      rfl
  | «variable» index =>
      cases h
      simp only [encodedLength]
      split <;> rfl
  | increment index delta =>
      cases h
      simp only [encodedLength]
      split <;> rfl
  | constant index =>
      cases h
      simp only [encodedLength]
      split
      · rename_i hop
        by_cases hindex : index ≤ 255
        · simp [hop, hindex]
        · simp [hindex]
      · rename_i hop
        simp [hop]
  | newConstant request => cases h
  | branch target =>
      obtain ⟨d, -, h⟩ := Result.bind_ok.1 h
      simp only [encodedLength]
      split at h
      · rename_i hfar
        cases h
        rw [if_pos hfar]
        rfl
      · rename_i hfar
        rw [if_neg hfar]
        split at h
        · cases h
          rfl
        · cases h
  | tableSwitch default low targets =>
      obtain ⟨s, hs, rfl⟩ := Result.map_ok.1 h
      simp only [List.length_cons, length_encodeTable hs, encodedLength]
      omega
  | lookupSwitch default cases =>
      obtain ⟨s, hs, rfl⟩ := Result.map_ok.1 h
      simp only [List.length_cons, length_encodeLookup hs, encodedLength]
      omega

def placedFrom (offset : Nat) : List Instruction → List (Nat × Instruction)
  | [] => []
  | i :: is => (offset, i) :: placedFrom (offset + i.encodedLength offset) is

inductive Encodes (moved : TargetMap) : Nat → List Instruction → Bytes → Prop where
  | nil {offset : Nat} : Encodes moved offset [] []
  | cons {offset : Nat} {i : Instruction} {is : List Instruction} {bytes s : Bytes}
      (h : i.encode moved offset = .ok bytes)
      (hs : Encodes moved (offset + i.encodedLength offset) is s) :
      Encodes moved offset (i :: is) (bytes ++ s)

theorem Encodes.exists_bytes {is : List Instruction} (h : Encodes moved offset is s) :
    ∀ d ∈ placedFrom offset is, ∃ bytes, d.2.encode moved d.1 = .ok bytes := by
  induction h with
  | nil => exact nofun
  | cons hbytes _ ih => exact List.forall_mem_cons.2 ⟨⟨_, hbytes⟩, ih⟩

theorem Encodes.decodes_of {is : List Instruction} (h : Encodes moved offset is s)
    (hreads : ∀ d ∈ placedFrom offset is, ∀ bytes, d.2.encode moved d.1 = .ok bytes →
      ReadsBack d.1 bytes ⟨d.2.opcode, d.2.operand.mapTargets f⟩) :
    Decodes offset s ((placedFrom offset is).map fun (offset, i) =>
      (offset, ⟨i.opcode, i.operand.mapTargets f⟩)) := by
  induction h with
  | nil => exact .nil
  | @cons offset i is bytes s h _ ih =>
      obtain ⟨hi, his⟩ := List.forall_mem_cons.1 hreads
      have hl := length_encode h
      obtain ⟨op, r, rfl, hr⟩ := hi bytes h
      have hread := (decodeNext_ok (hr [])).1
      simp only [List.append_nil, List.length_nil, Nat.add_zero] at hread
      refine .cons (hr s) ?_
      rw [← hread, ← List.length_cons, hl]
      exact ih his

theorem snd_mem_of_placedFrom {is : List Instruction} {d : Nat × Instruction}
    (h : d ∈ placedFrom offset is) : d.2 ∈ is := by
  induction is generalizing offset with
  | nil => cases h
  | cons i is ih =>
      rcases List.mem_cons.1 h with rfl | h
      · exact List.mem_cons_self
      · exact List.mem_cons_of_mem i (ih h)

theorem Encodes.decodes {is : List Instruction} (h : Encodes moved offset is s)
    (hlegal : ∀ i ∈ is, i.Legal)
    (hf : ∀ d ∈ placedFrom offset is, ∀ t ∈ d.2.targets,
      moved t = .ok (f t) ∧ ReachesFar d.1 (f t)) :
    Decodes offset s ((placedFrom offset is).map fun (offset, i) =>
      (offset, ⟨i.opcode, i.operand.mapTargets f⟩)) :=
  h.decodes_of fun d hd _ => decodeNext_encode (hlegal d.2 (snd_mem_of_placedFrom hd)) (hf d hd)

end Instruction

end BytecodeMutation
