import BytecodeMutation.Proofs.StackTypes
import Mathlib.Tactic.IntervalCases

namespace BytecodeMutation

inductive Value where
  | int (value : Int32)
  | float (bits : UInt32)
  | long (value : Int64)
  | double (bits : UInt64)
  | reference (object : Option Nat)
  | returnAddress (target : Nat)
  deriving DecidableEq, Repr

def Value.kind : Value → Kind
  | int _ => .int
  | float _ => .float
  | long _ => .long
  | double _ => .double
  | reference _ => .reference
  | returnAddress _ => .returnAddress

inductive Flow where
  | falls (st : List Value)
  | jumps (target : Nat) (st : List Value)
  | returns (value : Value) (below : List Value)
  deriving DecidableEq, Repr

namespace Flow

def decided (jumping : Bool) (target : Nat) (st : List Value) : Flow :=
  if jumping then .jumps target st else .falls st

def above (below : List Value) : Flow → Flow
  | falls st => .falls (st ++ below)
  | jumps target st => .jumps target (st ++ below)
  | returns value st => .returns value (st ++ below)

theorem above_decided (below : List Value) (jumping : Bool) (target : Nat) (st : List Value) :
    (decided jumping target st).above below = decided jumping target (st ++ below) := by
  cases jumping <;> rfl

end Flow

inductive Comparison where
  | equal
  | different
  | less
  | atLeast
  | greater
  | atMost
  deriving DecidableEq, Repr

def Comparison.holds : Comparison → Int32 → Int32 → Bool
  | equal, a, b => a == b
  | different, a, b => a != b
  | less, a, b => a < b
  | atLeast, a, b => b ≤ a
  | greater, a, b => b < a
  | atMost, a, b => a ≤ b

inductive Test where
  | zero (comparison : Comparison)
  | ints (comparison : Comparison)
  | null (sense : Bool)
  | same (sense : Bool)
  deriving DecidableEq, Repr

namespace Test

def takes : Test → Stack
  | zero _ => [.int]
  | ints _ => [.int, .int]
  | null _ => [.reference]
  | same _ => [.reference, .reference]

def decide? : Test → List Value → Option (Bool × List Value)
  | zero c, .int a :: st => some (c.holds a 0, st)
  | ints c, .int b :: .int a :: st => some (c.holds a b, st)
  | null sense, .reference a :: st => some ((a == none) == sense, st)
  | same sense, .reference b :: .reference a :: st => some ((a == b) == sense, st)
  | _, _ => none

end Test

open Opcode in
def Opcode.test? : UInt8 → Option Test
  | ifeq => some (.zero .equal)
  | ifne => some (.zero .different)
  | iflt => some (.zero .less)
  | ifge => some (.zero .atLeast)
  | ifgt => some (.zero .greater)
  | ifle => some (.zero .atMost)
  | ifIcmpeq => some (.ints .equal)
  | ifIcmpne => some (.ints .different)
  | ifIcmplt => some (.ints .less)
  | ifIcmpge => some (.ints .atLeast)
  | ifIcmpgt => some (.ints .greater)
  | ifIcmple => some (.ints .atMost)
  | ifAcmpeq => some (.same true)
  | ifAcmpne => some (.same false)
  | ifnull => some (.null true)
  | ifnonnull => some (.null false)
  | _ => none

def unsignedShift (a b : Int32) : Int32 := (a.toUInt32 >>> (b.toUInt32 % 32)).toInt32

inductive Operation where
  | push (value : Int32)
  | pop
  | pop2
  | dup
  | unary (f : Int32 → Int32)
  | binary (f : Int32 → Int32 → Int32)
  | branch (test : Test) (target : Nat)
  | exit

def Operation.flow? (st : List Value) : Operation → Option Flow
  | push value => some (.falls (.int value :: st))
  | pop => match st with
      | v :: st => if v.kind.slots = 1 then some (.falls st) else none
      | [] => none
  | pop2 => match st with
      | v :: st =>
          if v.kind.slots = 2 then some (.falls st)
          else match st with
            | w :: st => if w.kind.slots = 1 then some (.falls st) else none
            | [] => none
      | [] => none
  | dup => match st with
      | v :: st => if v.kind.slots = 1 then some (.falls (v :: v :: st)) else none
      | [] => none
  | unary f => match st with
      | .int a :: st => some (.falls (.int (f a) :: st))
      | _ => none
  | binary f => match st with
      | .int b :: .int a :: st => some (.falls (.int (f a b) :: st))
      | _ => none
  | branch test target =>
      (test.decide? st).map fun (jumping, rest) => .decided jumping target rest
  | exit => match st with
      | .int a :: st => some (.returns (.int a) st)
      | _ => none

open Opcode in
def Opcode.operation? : UInt8 → Option Operation
  | Opcode.pop => some .pop
  | pop2 => some .pop2
  | dup => some .dup
  | ineg => some (.unary fun a => -a)
  | ior => some (.binary fun a b => a ||| b)
  | ixor => some (.binary fun a b => a ^^^ b)
  | iushr => some (.binary unsignedShift)
  | ireturn => some .exit
  | op =>
      if iconstM1 ≤ op && op ≤ iconst5 then some (.push (.ofInt (op.toNat - 3))) else none

namespace Instruction

def operation? (i : Instruction) : Option Operation :=
  match i.operand with
  | .absent => Opcode.operation? i.opcode
  | .byte value => if i.opcode = Opcode.bipush then some (.push value.toInt32) else none
  | .short value => if i.opcode = Opcode.sipush then some (.push value.toInt32) else none
  | .newConstant (.integer value) =>
      if i.opcode = Opcode.ldcW then some (.push value) else none
  | .branch target => (Opcode.test? i.opcode).map (.branch · target)
  | _ => none

def execute? (i : Instruction) (st : List Value) : Option Flow :=
  i.operation?.bind (·.flow? st)

def run? : List Instruction → List Value → Option Flow
  | [], st => some (.falls st)
  | i :: is, st => match i.execute? st with
      | some (.falls st) => run? is st
      | flow => flow

end Instruction

variable {i : Instruction} {is : List Instruction} {st st' below : List Value} {flow : Flow}
  {o : Operation}

theorem Test.decide?_append {t : Test} {jumping : Bool} (h : t.decide? st = some (jumping, st')) :
    t.decide? (st ++ below) = some (jumping, st' ++ below) := by
  unfold decide? at h
  split at h
  all_goals cases h <;> rfl

theorem Operation.flow?_append (h : o.flow? st = some flow) :
    o.flow? (st ++ below) = some (flow.above below) := by
  cases o with
  | branch test target =>
      obtain ⟨⟨jumping, st'⟩, hst, rfl⟩ := Option.map_eq_some_iff.1 h
      rw [flow?, Test.decide?_append hst, Flow.above_decided]
      rfl
  | push value =>
      cases h
      rfl
  | pop | pop2 | dup | unary | binary | exit =>
      simp only [flow?] at h ⊢
      repeat' split at h
      all_goals cases h <;> simp_all [Flow.above]

namespace Instruction

theorem execute?_append (h : i.execute? st = some flow) :
    i.execute? (st ++ below) = some (flow.above below) := by
  obtain ⟨o, ho, happly⟩ := Option.bind_eq_some_iff.1 h
  rw [execute?, ho]
  exact Operation.flow?_append happly

theorem run?_falls (h : i.execute? st = some (.falls st')) : run? (i :: is) st = run? is st' := by
  simp only [run?, h]

theorem run?_cons_falls (h : run? (i :: is) st = some (.falls st')) :
    ∃ mid, i.execute? st = some (.falls mid) ∧ run? is mid = some (.falls st') := by
  cases hi : i.execute? st with
  | none => simp only [run?, hi, reduceCtorEq] at h
  | some next =>
      cases next with
      | falls mid => exact ⟨mid, rfl, (run?_falls hi).symm.trans h⟩
      | jumps target rest => simp [run?, hi] at h
      | returns value rest => simp [run?, hi] at h

theorem run?_take (h : run? is st = some (.falls st')) (k : Nat) :
    ∃ top, run? (is.take k) st = some (.falls top) := by
  induction is generalizing st k with
  | nil => exact ⟨st, by rw [List.take_nil]; rfl⟩
  | cons i is ih =>
      cases k with
      | zero => exact ⟨st, rfl⟩
      | succ k =>
          obtain ⟨mid, hi, hrest⟩ := run?_cons_falls h
          obtain ⟨top, htop⟩ := ih hrest k
          exact ⟨top, (run?_falls hi).trans htop⟩

theorem run?_concat (h : run? is st = some (.falls st')) :
    run? (is ++ [i]) st = run? [i] st' := by
  induction is generalizing st with
  | nil =>
      cases h
      rfl
  | cons j is ih =>
      obtain ⟨mid, hj, hrest⟩ := run?_cons_falls h
      exact (run?_falls hj).trans (ih hrest)

theorem run?_append (h : run? is st = some flow) :
    run? is (st ++ below) = some (flow.above below) := by
  induction is generalizing st with
  | nil =>
      cases h
      rfl
  | cons i is ih =>
      cases hi : i.execute? st with
      | none => simp [run?, hi] at h
      | some next =>
          have hbelow : i.execute? (st ++ below) = some (next.above below) := execute?_append hi
          cases next with
          | falls st' =>
              rw [run?_falls hi] at h
              rw [run?_falls hbelow]
              exact ih h
          -- control leaves the list here, whatever comes after
          | jumps target st' =>
              simp only [run?, hi, Option.some.injEq] at h
              simp only [run?, hbelow, ← h, Flow.above]
          | returns value st' =>
              simp only [run?, hi, Option.some.injEq] at h
              simp only [run?, hbelow, ← h, Flow.above]

theorem run?_decided {jumping : Bool} {target : Nat}
    (h : i.execute? st = some (.decided jumping target st')) :
    run? [i] st = some (.decided jumping target st') := by
  cases jumping <;> simp only [run?, h, Flow.decided, Bool.false_eq_true, if_false, if_true]

theorem execute?_branch {op : UInt8} {t : Test} {jumping : Bool} (target : Nat)
    (ht : Opcode.test? op = some t) (h : t.decide? st = some (jumping, st')) :
    (mk op (.branch target)).execute? st = some (.decided jumping target st') := by
  simp only [execute?, operation?, ht, Option.map_some, Option.bind_some, Operation.flow?, h]

theorem operation?_shortInt {n : Nat} (hlow : 2 ≤ n) (hhigh : n ≤ 8) :
    Opcode.operation? (.ofNat n) = some (.push (.ofInt (n - 3))) := by
  interval_cases n <;> rfl

theorem operation?_loadInt (value : Int32) : (loadInt value).operation? = some (.push value) := by
  unfold loadInt
  simp only
  -- by the width of the operand; a value that fits comes back as it was
  split
  · have hn : (((value.toInt + 3).toNat : Int) - 3) = value.toInt := by omega
    refine (operation?_shortInt (by omega) (by omega)).trans ?_
    rw [hn, Int32.ofInt_toInt]
  · split
    · have hvalue : value.toInt8.toInt32 = value := by
        rw [← Int32.toInt_inj, Int8.toInt_toInt32, Int32.toInt_toInt8]
        exact Int.bmod_eq_of_le (by omega) (by omega)
      exact congrArg (some ∘ Operation.push) hvalue
    · split
      · have hvalue : value.toInt16.toInt32 = value := by
          rw [← Int32.toInt_inj, Int16.toInt_toInt32, Int32.toInt_toInt16]
          exact Int.bmod_eq_of_le (by omega) (by omega)
        exact congrArg (some ∘ Operation.push) hvalue
      · rfl

end Instruction

end BytecodeMutation
