import Mathlib.Data.List.Induction
import Mathlib.Logic.Relation
import BytecodeMutation.Proofs.Parsing
import BytecodeMutation.Proofs.Suppression

namespace BytecodeMutation

namespace Opcode

def conditionals : List UInt8 :=
  [ifeq, ifne, iflt, ifge, ifgt, ifle, ifIcmpeq, ifIcmpne, ifIcmplt, ifIcmpge, ifIcmpgt, ifIcmple,
    ifAcmpeq, ifAcmpne, ifnull, ifnonnull]

def subroutineCalls : List UInt8 := [jsr, jsrW]

def gotos : List UInt8 := [goto, gotoW]

def switches : List UInt8 := [tableswitch, lookupswitch]

def exits : List UInt8 :=
  [ireturn, lreturn, freturn, dreturn, areturn, returnVoid, athrow, ret]

def departures : List UInt8 := gotos ++ subroutineCalls ++ switches ++ exits

def transfers : List UInt8 := conditionals ++ departures

theorem mem_transfers (op : UInt8) : op ∈ transfers ↔ (branches op || isExit op) = true := by
  revert op
  exact Format.forall_opcode (by decide +kernel)

theorem branches_of_format (op : UInt8) :
    Format.ofOpcode? op ∈ [some .branch, some .farBranch, some .tableSwitch, some .lookupSwitch] →
      branches op = true := by
  revert op
  exact Format.forall_opcode (by decide +kernel)

end Opcode

theorem Method.IsRead.branches {m : Method} {s : Site} (h : m.IsRead) (hs : s ∈ m.code) {t : Nat}
    (ht : t ∈ s.instruction.targets) : Opcode.branches s.opcode = true := by
  obtain ⟨offset, ⟨op, operand⟩, symbol⟩ := s
  have hlegal (hwide : Instruction.IsLegalWide ⟨op, operand⟩) : Instruction.Legal ⟨op, operand⟩ :=
    h.legal hs hwide
  refine Opcode.branches_of_format op ?_
  cases operand with
  | branch target =>
      rcases hlegal nofun with hformat | hformat
      · simp [hformat]
      · simp [hformat]
  | tableSwitch default low targets => simp [(hlegal nofun).1]
  | lookupSwitch default cases => simp [(hlegal nofun).1]
  | _ => cases ht

namespace Blocks

variable {leads : Nat → Bool} {sites : List Site} {s : Site} {i j : Nat} {m : Method}

def numbers (leads : Nat → Bool) (sites : List Site) : Array Nat :=
  sites.foldl (push leads) #[]

theorem numbers_concat : numbers leads (sites ++ [s])
    = push leads (numbers leads sites) s := by
  rw [numbers, List.foldl_append]
  rfl

theorem size_numbers : (numbers leads sites).size = sites.length := by
  induction sites using List.reverseRecOn with
  | nil => rfl
  | append_singleton sites s ih =>
      rw [numbers_concat, push, Array.size_push, ih, List.length_append, List.length_singleton]

theorem getElem?_numbers_concat (h : i < sites.length) :
    (numbers leads (sites ++ [s]))[i]? = (numbers leads sites)[i]? := by
  have hlt : i < (numbers leads sites).size := by rwa [size_numbers]
  rw [numbers_concat, push, Array.getElem?_push_lt hlt, Array.getElem?_eq_getElem hlt]

theorem numbers_zero (h : 0 < sites.length) : (numbers leads sites)[0]? = some 0 := by
  induction sites using List.reverseRecOn with
  | nil => cases h
  | append_singleton sites s ih =>
      cases sites with
      | nil => rfl
      | cons s' sites =>
          rw [getElem?_numbers_concat (Nat.succ_pos _)]
          exact ih (Nat.succ_pos _)

theorem numbers_succ (h : sites[i + 1]? = some s) : (numbers leads sites)[i + 1]?
    = (numbers leads sites)[i]?.map fun b => if leads s.offset then b + 1 else b := by
  induction sites using List.reverseRecOn with
  | nil => cases h
  | append_singleton sites s' ih =>
      have hlt := (List.getElem?_eq_some_iff.1 h).1
      rw [List.length_append, List.length_singleton] at hlt
      rw [getElem?_numbers_concat (i := i) (by omega)]
      rcases Nat.lt_or_eq_of_le (Nat.le_of_lt_succ hlt) with hin | hlast
      · rw [getElem?_numbers_concat hin]
        rw [List.getElem?_append_left hin] at h
        exact ih h
      · -- what is pushed goes by the number before it
        rw [hlast, List.getElem?_concat_length] at h
        cases h
        have hsize : (numbers leads sites).size = i + 1 := size_numbers.trans hlast.symm
        have hback : (numbers leads sites).back? = (numbers leads sites)[i]? := by
          rw [Array.back?_eq_getElem?, hsize, Nat.add_sub_cancel]
        obtain ⟨b, hb⟩ : ∃ b, (numbers leads sites)[i]? = some b :=
          ⟨_, Array.getElem?_eq_getElem (by omega)⟩
        rw [numbers_concat, push, ← hsize, Array.getElem?_push_size, hback, hb]
        rfl

def isLeader (m : Method) (offset : Nat) : Bool :=
  (Std.TreeSet.ofList (leaders m) : Std.TreeSet Nat).contains offset

theorem isLeader_iff {t : Nat} : isLeader m t = true ↔ t ∈ leaders m := by
  rw [isLeader, Std.TreeSet.contains_ofList, List.contains_iff_mem]

theorem numberOf_eq (m : Method) (i : Nat) :
    (ofMethod m).numberOf i = ((numbers (isLeader m) m.code)[i]?).getD 0 := by
  rw [numberOf, Array.getD_eq_getD_getElem?]
  rfl

theorem numberOf_zero (m : Method) : (ofMethod m).numberOf 0 = 0 := by
  rw [numberOf_eq]
  rcases Nat.eq_zero_or_pos m.code.length with hnil | hpos
  · rw [List.eq_nil_of_length_eq_zero hnil]
    rfl
  · rw [numbers_zero hpos]
    rfl

theorem numberOf_succ (h : m.code[i + 1]? = some s) : (ofMethod m).numberOf (i + 1)
    = if s.offset ∈ leaders m then (ofMethod m).numberOf i + 1 else (ofMethod m).numberOf i := by
  have hlt := (List.getElem?_eq_some_iff.1 h).1
  obtain ⟨b, hb⟩ : ∃ b, (numbers (isLeader m) m.code)[i]? = some b :=
    ⟨_, Array.getElem?_eq_getElem (by rw [size_numbers]; omega)⟩
  rw [numberOf_eq, numberOf_eq, numbers_succ h, hb]
  simp only [Option.map_some, Option.getD_some, isLeader_iff]

theorem count_eq (h : 0 < m.code.length) :
    (ofMethod m).count = (ofMethod m).numberOf (m.code.length - 1) + 1 := by
  have hsize : (numbers (isLeader m) m.code).size = m.code.length := size_numbers
  have hback : (ofMethod m).blocks.back? = (numbers (isLeader m) m.code)[m.code.length - 1]? := by
    rw [← hsize, ← Array.back?_eq_getElem?]
    rfl
  rw [count, hback, numberOf_eq, Array.getElem?_eq_getElem (by omega)]
  rfl

def Opens (b : Blocks) (i : Nat) : Prop := ∀ k < i, b.numberOf k ≠ b.numberOf i

def Closes (m : Method) (i : Nat) : Prop :=
  ∀ k, i < k → k < m.code.length → (ofMethod m).numberOf k ≠ (ofMethod m).numberOf i

theorem numberOf_mono (hij : i ≤ j) (hj : j < m.code.length) :
    (ofMethod m).numberOf i ≤ (ofMethod m).numberOf j := by
  induction hij with
  | refl => exact Nat.le_refl _
  | step hij ih =>
      refine Nat.le_trans (ih (by omega)) ?_
      rw [numberOf_succ (List.getElem?_eq_getElem hj)]
      split
      · exact Nat.le_succ _
      · exact Nat.le_refl _

theorem exists_numberOf {n : Nat} (hi : i < m.code.length) (hn : n ≤ (ofMethod m).numberOf i) :
    ∃ k ≤ i, (ofMethod m).numberOf k = n := by
  induction i with
  | zero =>
      rw [numberOf_zero] at hn
      exact ⟨0, Nat.le_refl 0, (numberOf_zero m).trans (Nat.le_zero.1 hn).symm⟩
  | succ i ih =>
      by_cases hlast : n = (ofMethod m).numberOf (i + 1)
      · exact ⟨i + 1, Nat.le_refl _, hlast.symm⟩
      · have hbefore : n ≤ (ofMethod m).numberOf i := by
          rw [numberOf_succ (List.getElem?_eq_getElem hi)] at hn hlast
          split at hn
          · rename_i hlead
            rw [if_pos hlead] at hlast
            omega
          · exact hn
        obtain ⟨k, hk, hnumber⟩ := ih (by omega) hbefore
        exact ⟨k, Nat.le_succ_of_le hk, hnumber⟩

theorem lt_count_iff {n : Nat} :
    n < (ofMethod m).count ↔ ∃ i < m.code.length, (ofMethod m).numberOf i = n := by
  rcases Nat.eq_zero_or_pos m.code.length with hnil | hpos
  · have hcode := List.eq_nil_of_length_eq_zero hnil
    have hcount : (ofMethod m).count = 0 := by
      rw [count, ofMethod, hcode]
      rfl
    rw [hcount, hnil]
    exact iff_of_false (Nat.not_lt_zero n) (by simp)
  · rw [count_eq hpos, Nat.lt_succ_iff]
    constructor
    · intro hn
      obtain ⟨k, hk, hnumber⟩ := exists_numberOf (by omega) hn
      exact ⟨k, by omega, hnumber⟩
    · rintro ⟨i, hi, rfl⟩
      exact numberOf_mono (by omega) (by omega)

end Blocks

namespace Method

variable {m : Method} {s : Site} {i : Nat}

/-- An instruction where a block has to start: a branch or switch goes to it, a handler starts at
it, or it follows an instruction that may go elsewhere. -/
inductive Begins (m : Method) (i : Nat) : Prop where
  | target {s s' : Site} (at_ : m.code[i]? = some s) (mem : s' ∈ m.code)
      (goes : s.offset ∈ s'.instruction.targets)
  | handler {s : Site} {h : Handler} (at_ : m.code[i]? = some s) (mem : h ∈ m.handlers)
      (starts : h.handler = s.offset)
  | follows {j : Nat} {s : Site} (next : i = j + 1) (before : m.code[j]? = some s)
      (transfers : s.opcode ∈ Opcode.transfers)

theorem mem_zip_drop_one {α : Type} {xs : List α} {a b : α} :
    (a, b) ∈ xs.zip (xs.drop 1) ↔ ∃ i : Nat, xs[i]? = some a ∧ xs[i + 1]? = some b := by
  simp only [List.mem_iff_getElem?, List.getElem?_zip_eq_some, List.getElem?_drop, Nat.add_comm 1]

theorem begins_iff (h : m.IsRead) (hs : m.code[i + 1]? = some s) :
    s.offset ∈ Blocks.leaders m ↔ m.Begins (i + 1) := by
  have hpair : ∀ {a b : Site}, (a, b) ∈ m.code.zip (m.code.drop 1) →
      ∃ k, m.code[k]? = some a ∧ m.code[k + 1]? = some b := mem_zip_drop_one.1
  simp only [Blocks.leaders, List.mem_append, List.mem_map, List.mem_flatMap, Prod.exists]
  constructor
  · rintro ((⟨g, hg, hstarts⟩ | ⟨a, b, hab, hlead⟩) | hlast)
    · exact .handler hs hg hstarts
    · obtain ⟨k, ha, hb⟩ := hpair hab
      rw [Blocks.leadersAfter, List.mem_append] at hlead
      rcases hlead with hlead | hlead
      · split at hlead
        · exact .target hs (List.mem_of_getElem? ha) hlead
        · cases hlead
      · split at hlead
        · rename_i htransfers
          have hk := h.ordinal_inj hs hb (List.mem_singleton.1 hlead)
          exact .follows hk ha ((Opcode.mem_transfers _).2 htransfers)
        · cases hlead
    · cases hget : m.code.getLast? with
      | none =>
          rw [hget] at hlast
          cases hlast
      | some a =>
          rw [hget] at hlast
          exact .target hs (List.mem_of_getLast? hget) hlast
  · intro hbegins
    cases hbegins with
    | @handler s' g hs' hg hstarts =>
        cases hs.symm.trans hs'
        exact .inl (.inl ⟨g, hg, hstarts⟩)
    | @follows j a hnext ha htransfers =>
        obtain rfl := Nat.succ.inj hnext
        refine .inl (.inr ⟨a, s, mem_zip_drop_one.2 ⟨i, ha, hs⟩, ?_⟩)
        rw [Blocks.leadersAfter, List.mem_append, if_pos ((Opcode.mem_transfers _).1 htransfers)]
        exact .inr (List.mem_singleton_self _)
    | @target s' a hs' ha hgoes =>
        cases hs.symm.trans hs'
        -- the last instruction has no pair
        obtain ⟨k, hk⟩ := List.getElem?_of_mem ha
        cases hb : m.code[k + 1]? with
        | some b =>
            refine .inl (.inr ⟨a, b, mem_zip_drop_one.2 ⟨k, hk, hb⟩, ?_⟩)
            rw [Blocks.leadersAfter, List.mem_append, if_pos (h.branches ha hgoes)]
            exact .inl hgoes
        | none =>
            have hklt := (List.getElem?_eq_some_iff.1 hk).1
            have hlen := List.getElem?_eq_none_iff.1 hb
            have hlast : m.code.getLast? = some a := by
              rw [List.getLast?_eq_getElem?, ← hk]
              congr 1
              omega
            rw [hlast]
            exact .inr hgoes

end Method

namespace Blocks

variable {m : Method} {s : Site} {i : Nat}

theorem numberOf_of_begins (h : m.IsRead) (hi : i + 1 < m.code.length) (hb : m.Begins (i + 1)) :
    (ofMethod m).numberOf (i + 1) = (ofMethod m).numberOf i + 1 := by
  have hs := List.getElem?_eq_getElem hi
  rw [numberOf_succ hs, if_pos ((Method.begins_iff h hs).2 hb)]

theorem numberOf_of_not_begins (h : m.IsRead) (hi : i + 1 < m.code.length)
    (hb : ¬ m.Begins (i + 1)) : (ofMethod m).numberOf (i + 1) = (ofMethod m).numberOf i := by
  have hs := List.getElem?_eq_getElem hi
  rw [numberOf_succ hs, if_neg fun hlead => hb ((Method.begins_iff h hs).1 hlead)]

theorem opens_of_begins (h : m.IsRead) (hi : i < m.code.length) (hb : m.Begins i) :
    (ofMethod m).Opens i := by
  intro k hk
  obtain ⟨j, rfl⟩ : ∃ j, i = j + 1 := ⟨i - 1, by omega⟩
  have hstep := numberOf_of_begins h hi hb
  have hmono := numberOf_mono (Nat.le_of_lt_succ hk) (Nat.lt_of_succ_lt hi)
  omega

theorem closes_of_begins (h : m.IsRead) (hb : i + 1 < m.code.length → m.Begins (i + 1)) :
    Closes m i := by
  intro k hik hk
  have hi : i + 1 < m.code.length := by omega
  have hstep := numberOf_of_begins h hi (hb hi)
  have hmono : (ofMethod m).numberOf (i + 1) ≤ (ofMethod m).numberOf k := numberOf_mono hik hk
  omega

theorem closes_of_transfers (h : m.IsRead) (hs : m.code[i]? = some s)
    (ht : s.opcode ∈ Opcode.transfers) : Closes m i :=
  closes_of_begins h fun _ => .follows rfl hs ht

end Blocks

namespace Method

/-- Where control goes from an instruction that throws nothing. A return from a subroutine goes to
what follows a call of one. -/
inductive Passes (m : Method) : Nat → Nat → Prop where
  | next {i : Nat} {s : Site} (before : m.code[i]? = some s)
      (goes : s.opcode ∉ Opcode.departures) (hlt : i + 1 < m.code.length) : m.Passes i (i + 1)
  | jump {i j : Nat} {s s' : Site} (before : m.code[i]? = some s) (after : m.code[j]? = some s')
      (goes : s'.offset ∈ s.instruction.targets) : m.Passes i j
  | resume {i j : Nat} {s s' : Site} (before : m.code[i]? = some s) (ret : s.opcode = Opcode.ret)
      (call : m.code[j]? = some s') (calls : s'.opcode ∈ Opcode.subroutineCalls)
      (hlt : j + 1 < m.code.length) : m.Passes i (j + 1)

def Throws (m : Method) (i j : Nat) : Prop :=
  ∃ s s' h, m.code[i]? = some s ∧ m.code[j]? = some s' ∧ h ∈ m.handlers ∧
    h.start ≤ s.offset ∧ s.offset < h.stop ∧ s'.offset = h.handler

def Reaches (m : Method) (i : Nat) : Prop :=
  Relation.ReflTransGen (fun i j => m.Passes i j ∨ m.Throws i j) 0 i

end Method

namespace Blocks

variable {m : Method} {i j : Nat}

theorem passes_within_or_between (h : m.IsRead) (hp : m.Passes i j) :
    (j = i + 1 ∧ (ofMethod m).numberOf j = (ofMethod m).numberOf i) ∨
      ((ofMethod m).Opens j ∧ Closes m i) := by
  cases hp with
  | next before goes hlt =>
      by_cases hb : m.Begins (i + 1)
      · exact .inr ⟨opens_of_begins h hlt hb, closes_of_begins h fun _ => hb⟩
      · exact .inl ⟨rfl, numberOf_of_not_begins h hlt hb⟩
  | jump before after goes =>
      have hmem := List.mem_of_getElem? before
      refine .inr ⟨?_, ?_⟩
      · exact opens_of_begins h (List.getElem?_eq_some_iff.1 after).1 (.target after hmem goes)
      · refine closes_of_transfers h before ((Opcode.mem_transfers _).2 ?_)
        rw [h.branches hmem goes, Bool.true_or]
  | resume before ret call calls hlt =>
      refine .inr ⟨?_, ?_⟩
      · refine opens_of_begins h hlt (.follows rfl call ?_)
        exact List.mem_append_right _ (List.mem_append_left _
          (List.mem_append_left _ (List.mem_append_right _ calls)))
      · refine closes_of_transfers h before ?_
        rw [ret]
        decide

theorem opens_of_throws (h : m.IsRead) (ht : m.Throws i j) : (ofMethod m).Opens j := by
  obtain ⟨s, s', g, -, hs', hg, -, -, hstarts⟩ := ht
  exact opens_of_begins h (List.getElem?_eq_some_iff.1 hs').1 (.handler hs' hg hstarts.symm)

theorem reaches_earlier (h : m.IsRead) (hj : m.Reaches j) :
    ∀ i ≤ j, (ofMethod m).numberOf i = (ofMethod m).numberOf j → m.Reaches i := by
  induction hj with
  | refl =>
      intro i hi _
      obtain rfl := Nat.le_zero.1 hi
      exact .refl
  | @tail k j hk hstep ih =>
      have hj : m.Reaches j := .tail hk hstep
      have hopens : (ofMethod m).Opens j → ∀ i ≤ j,
          (ofMethod m).numberOf i = (ofMethod m).numberOf j → m.Reaches i := by
        intro hopens i hi hnumber
        rcases Nat.lt_or_eq_of_le hi with hlt | rfl
        · exact absurd hnumber (hopens i hlt)
        · exact hj
      rcases hstep with hpass | hthrow
      · rcases passes_within_or_between h hpass with ⟨rfl, hsame⟩ | ⟨hfirst, -⟩
        · intro i hi hnumber
          rcases Nat.lt_or_eq_of_le hi with hlt | rfl
          · exact ih i (Nat.le_of_lt_succ hlt) (hnumber.trans hsame)
          · exact hj
        · exact hopens hfirst
      · exact hopens (opens_of_throws h hthrow)

/-- Blocks are numbered from zero on without a gap, and a new one starts just where one has to.
Control comes into a block by its first instruction only, also when an instruction throws; it goes
elsewhere only from the last one, which an instruction that may go elsewhere always is. -/
theorem numberOf_follows_flow (data : Bytes) (c : Class) (m : Method)
    (hparse : Class.parse data = .ok c) (hm : m ∈ c.methods) :
    ((ofMethod m).numberOf 0 = 0 ∧ ∀ i, i + 1 < m.code.length →
      (m.Begins (i + 1) → (ofMethod m).numberOf (i + 1) = (ofMethod m).numberOf i + 1) ∧
      (¬ m.Begins (i + 1) → (ofMethod m).numberOf (i + 1) = (ofMethod m).numberOf i)) ∧
    (∀ n, n < (ofMethod m).count ↔ ∃ i < m.code.length, (ofMethod m).numberOf i = n) ∧
    (∀ i j, m.Passes i j →
      (j = i + 1 ∧ (ofMethod m).numberOf j = (ofMethod m).numberOf i) ∨
        ((ofMethod m).Opens j ∧ Closes m i)) ∧
    (∀ i j, m.Throws i j → (ofMethod m).Opens j) ∧
    (∀ i s, m.code[i]? = some s → s.opcode ∈ Opcode.transfers → Closes m i) ∧
    ∀ j, m.Reaches j → ∀ i ≤ j, (ofMethod m).numberOf i = (ofMethod m).numberOf j →
      m.Reaches i := by
  have h := Class.isRead_of_mem hparse hm
  refine ⟨⟨numberOf_zero m, fun i hi => ⟨numberOf_of_begins h hi, numberOf_of_not_begins h hi⟩⟩,
    fun n => lt_count_iff, fun i j hpass => passes_within_or_between h hpass,
    fun i j hthrow => opens_of_throws h hthrow, fun i s hs ht => closes_of_transfers h hs ht,
    fun j hj => reaches_earlier h hj⟩

end Blocks

open Specimen in
theorem Blocks.numberOf_follows_flow_assert :
    Class.parse guardFile = .ok guarded ∧ guardMethod ∈ guarded.methods ∧
    (ofMethod guardMethod).numberOf 3 = (ofMethod guardMethod).numberOf 2 + 1 ∧
    (ofMethod guardMethod).numberOf 4 = (ofMethod guardMethod).numberOf 3 ∧
    (ofMethod guardMethod).Opens 5 ∧ Closes guardMethod 2 := by
  have hmem : guardMethod ∈ guarded.methods := List.mem_cons_self
  obtain ⟨⟨-, hsteps⟩, -, hpasses, -, hcloses, -⟩ :=
    numberOf_follows_flow guardFile guarded guardMethod parse_guardFile hmem
  have hbranch : guardMethod.code[2]? = some guardMethod.code[2] := rfl
  have htransfers : guardMethod.code[2].opcode ∈ Opcode.transfers := by decide
  have hjump : guardMethod.Passes 2 5 :=
    .jump hbranch (List.getElem?_eq_getElem (by decide)) (by decide)
  have hlone : ¬ guardMethod.Begins 4 := by
    have hread := Class.isRead_of_mem parse_guardFile hmem
    have hget : guardMethod.code[4]? = some guardMethod.code[4] := rfl
    rw [← Method.begins_iff hread hget]
    decide
  refine ⟨parse_guardFile, hmem, (hsteps 2 (by decide)).1 (.follows rfl hbranch htransfers),
    (hsteps 3 (by decide)).2 hlone, ?_, hcloses 2 _ hbranch htransfers⟩
  rcases hpasses 2 5 hjump with ⟨hnext, -⟩ | ⟨hopens, -⟩
  · exact absurd hnext (by decide)
  · exact hopens

end BytecodeMutation
