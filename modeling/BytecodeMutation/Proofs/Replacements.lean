import BytecodeMutation.Proofs.Emission
import BytecodeMutation.Proofs.Methods
import BytecodeMutation.Proofs.Visit

namespace BytecodeMutation

namespace Instruction

theorem isReplacement_plain {op : UInt8} (h : Format.ofOpcode? op = some .plain) :
    (plain op).IsReplacement :=
  .legal h nofun nofun

theorem isReplacement_loadInt (value : Int32) : (loadInt value).IsReplacement := by
  have hshort : ∀ n ≤ 8, Format.ofOpcode? (.ofNat n) = some .plain := by decide
  unfold loadInt
  simp only
  split
  · exact isReplacement_plain (hshort _ (by omega))
  · split
    · exact .legal rfl nofun nofun
    · split
      · exact .legal rfl nofun nofun
      · exact .integer value

theorem targets_loadInt (value : Int32) : (loadInt value).targets = [] := by
  unfold loadInt
  simp only
  split
  · rfl
  · split
    · rfl
    · split <;> rfl

theorem exists_branch {i : Instruction} (h : i.Legal)
    (hi : Format.ofOpcode? i.opcode = some .branch) : ∃ target, i.operand = .branch target := by
  obtain ⟨opcode, operand⟩ := i
  simp only at hi
  cases operand with
  | branch target => exact ⟨target, rfl⟩
  | newConstant r => exact h.elim
  | _ => simp [Legal, hi] at h

end Instruction

open Instruction

def Proposal.Suits (i : Instruction) (p : Proposal) : Prop :=
  ∀ j ∈ p.replacement, j.IsReplacement ∧ j.targets ⊆ i.targets

variable {i : Instruction} {p : Proposal}

theorem Proposal.suits_plain {description : String} {opcodes : List UInt8}
    (h : opcodes.all fun op => Format.ofOpcode? op == some .plain) :
    (Proposal.plain description opcodes).Suits i := by
  intro j hj
  obtain ⟨op, hop, rfl⟩ := List.mem_map.1 hj
  have hplain := beq_iff_eq.1 (List.all_eq_true.1 h op hop)
  exact ⟨isReplacement_plain hplain, List.nil_subset _⟩

theorem Proposal.suits_loadInt (description : String) (value : Int32) :
    (Proposal.mk description [.loadInt value]).Suits i := by
  intro j hj
  obtain rfl := List.mem_singleton.1 hj
  rw [targets_loadInt]
  exact ⟨isReplacement_loadInt value, List.nil_subset _⟩

namespace Arithmetic

def exchanges (op : UInt8) : List UInt8 :=
  ((exchanged? op).map (·.1)).toList ++ ((otherConstant? op).map (·.1)).toList

theorem mem_exchanges_operation {op op' : UInt8} {description : String}
    (h : exchanged? op = some (op', description)) : op' ∈ exchanges op :=
  List.mem_append_left _ (Option.mem_toList.2 (Option.mem_map_of_mem _ h))

theorem mem_exchanges_constant {op op' : UInt8} {source target : String}
    (h : otherConstant? op = some (op', source, target)) : op' ∈ exchanges op :=
  List.mem_append_right _ (Option.mem_toList.2 (Option.mem_map_of_mem _ h))

theorem exchanges_plain (op : UInt8) : ∀ op' ∈ exchanges op,
    Format.ofOpcode? op' = some .plain := by
  apply Format.forall_opcode_mem
  decide +kernel

theorem exchange_suits (h : exchange i = some p) : p.Suits i := by
  obtain ⟨⟨op, description⟩, hop, rfl⟩ := Option.map_eq_some_iff.1 h
  have hplain := exchanges_plain i.opcode op (mem_exchanges_operation hop)
  exact Proposal.suits_plain (by simpa using hplain)

theorem dropNegation_suits (h : dropNegation i = some p) : p.Suits i := by
  unfold dropNegation at h
  split at h
  · cases h
    exact nofun
  · cases h

theorem increment?_some {index : UInt16} {delta : Int16} (h : increment? i = some (index, delta)) :
    i = ⟨Opcode.iinc, .increment index delta⟩ := by
  obtain ⟨opcode, operand⟩ := i
  unfold increment? at h
  split at h
  · rename_i hoperand
    split at h
    · rename_i hop
      cases h
      exact congrArg₂ Instruction.mk (beq_iff_eq.1 hop) hoperand
    · cases h
  · cases h

theorem negateIncrement_some (h : negateIncrement i = some p) : ∃ index delta,
    i = ⟨Opcode.iinc, .increment index delta⟩ ∧
      p.replacement = [⟨Opcode.iinc, .increment index (-delta)⟩] := by
  unfold negateIncrement at h
  split at h
  · rename_i index delta hi
    split at h
    · cases h
    · cases h
      exact ⟨index, delta, increment?_some hi, rfl⟩
  · cases h

theorem negateIncrement_suits (h : negateIncrement i = some p) : p.Suits i := by
  obtain ⟨index, delta, -, hp⟩ := negateIncrement_some h
  intro j hj
  rw [hp, List.mem_singleton] at hj
  rw [hj]
  exact ⟨.legal rfl nofun nofun, List.nil_subset _⟩

theorem dropIncrement_suits (h : dropIncrement i = some p) : p.Suits i := by
  obtain ⟨r, -, rfl⟩ := Option.map_eq_some_iff.1 h
  exact nofun

theorem substituteConstant_suits (h : substituteConstant i = some p) : p.Suits i := by
  unfold substituteConstant at h
  split at h
  · cases h
    exact Proposal.suits_loadInt _ _
  · obtain ⟨⟨op, source, target⟩, hop, rfl⟩ := Option.map_eq_some_iff.1 h
    have hplain := exchanges_plain i.opcode op (mem_exchanges_constant hop)
    exact Proposal.suits_plain (by simpa using hplain)

end Arithmetic

namespace Call

theorem replacement_plain (kind : InvokeKind) (type : MethodType) :
    ∀ j ∈ replacement kind type, ∃ op, j = plain op ∧ Format.ofOpcode? op = some .plain := by
  have hpop : ∀ size, ∃ op, pop size = plain op ∧ Format.ofOpcode? op = some .plain := by
    intro size
    unfold pop
    split
    · exact ⟨Opcode.pop2, rfl, rfl⟩
    · exact ⟨Opcode.pop, rfl, rfl⟩
  have hzero : ∀ t, ∀ op ∈ zero? t, Format.ofOpcode? op = some .plain := by
    intro t op hop
    cases t <;> cases hop <;> rfl
  intro j hj
  simp only [replacement, List.mem_append, List.mem_map, Option.mem_toList] at hj
  rcases hj with (⟨t, -, rfl⟩ | hj) | ⟨op, hop, rfl⟩
  · exact hpop t.size
  · split at hj
    · cases hj
    · obtain rfl := List.mem_singleton.1 hj
      exact hpop 1
  · exact ⟨op, rfl, hzero type.result op hop⟩

theorem remove_some {void : Bool} {symbol : Symbol} (h : remove void symbol = .ok (some p)) :
    ∃ kind m type, symbol = .call kind m ∧ Descriptor.methodType m.descriptor = .ok type ∧
      p.replacement = replacement kind type := by
  unfold remove at h
  split at h
  · rename_i kind m
    split at h
    · cases h
    · obtain ⟨type, htype, h⟩ := Result.bind_ok.1 h
      cases h
      exact ⟨kind, m, type, rfl, attempt_ok.1 htype, rfl⟩
  · cases h

theorem remove_suits {void : Bool} {symbol : Symbol} (h : remove void symbol = .ok (some p)) :
    p.Suits i := by
  obtain ⟨kind, m, type, -, -, hp⟩ := remove_some h
  intro j hj
  obtain ⟨op, rfl, hop⟩ := replacement_plain kind type j (hp ▸ hj)
  exact ⟨isReplacement_plain hop, List.nil_subset _⟩

end Call

namespace Return

theorem isZero_suits (description : String) : (Proposal.mk description isZero).Suits i := by
  intro j hj
  simp only [isZero, List.mem_cons, List.not_mem_nil, or_false] at hj
  rcases hj with rfl | rfl | rfl | rfl | rfl | rfl | rfl | rfl
  case inr.inr.inr.inl =>
      rw [targets_loadInt]
      exact ⟨isReplacement_loadInt 31, List.nil_subset _⟩
  all_goals exact ⟨isReplacement_plain rfl, List.nil_subset _⟩

theorem change_suits {op : UInt8} (h : change op = some p) : p.Suits i := by
  unfold change at h
  split at h
  · cases h
    exact isZero_suits _
  · cases h
    exact Proposal.suits_plain rfl
  · cases h
    exact Proposal.suits_plain rfl
  · cases h
    exact Proposal.suits_plain rfl
  · cases h
    intro j hj
    simp only [List.mem_cons, List.not_mem_nil, or_false] at hj
    rcases hj with rfl | rfl | rfl | rfl
    case inl => exact ⟨.call requireNonNull, List.nil_subset _⟩
    all_goals exact ⟨isReplacement_plain rfl, List.nil_subset _⟩
  · cases h

end Return

namespace Conditional

def exchanges (op : UInt8) : List UInt8 := (negated? op).toList ++ (boundaryMoved? op).toList

theorem mem_exchanges_negation {op op' : UInt8} (h : negated? op = some op') :
    op' ∈ exchanges op :=
  List.mem_append_left _ (Option.mem_toList.2 h)

theorem mem_exchanges_boundary {op op' : UInt8} (h : boundaryMoved? op = some op') :
    op' ∈ exchanges op :=
  List.mem_append_right _ (Option.mem_toList.2 h)

theorem exchanges_branch (op : UInt8) : ∀ op' ∈ exchanges op,
    Format.ofOpcode? op = some .branch ∧ Format.ofOpcode? op' = some .branch := by
  apply Format.forall_opcode_mem
  decide +kernel

theorem exchange_suits {op : UInt8} (description : String) (hi : i.Legal)
    (h : Format.ofOpcode? i.opcode = some .branch ∧ Format.ofOpcode? op = some .branch) :
    (Proposal.mk description [{ i with opcode := op }]).Suits i := by
  obtain ⟨target, htarget⟩ := exists_branch hi h.1
  intro j hj
  obtain rfl := List.mem_singleton.1 hj
  rw [htarget]
  refine ⟨.legal (.inl h.2) nofun nofun, ?_⟩
  simp only [targets, htarget]
  exact List.Subset.refl _

theorem negate_suits (hi : i.Legal) (h : negate i = some p) : p.Suits i := by
  obtain ⟨op, hop, rfl⟩ := Option.map_eq_some_iff.1 h
  exact exchange_suits _ hi (exchanges_branch i.opcode op (mem_exchanges_negation hop))

theorem moveBoundary_suits (hi : i.Legal) (h : moveBoundary i = some p) : p.Suits i := by
  obtain ⟨op, hop, rfl⟩ := Option.map_eq_some_iff.1 h
  exact exchange_suits _ hi (exchanges_branch i.opcode op (mem_exchanges_boundary hop))

theorem remove_some {condition : Condition} {route : Route} :
    remove condition route i = .ok (some p) →
      condition? i.opcode = some condition ∧ ∃ target, i.operand = .branch target ∧
      p.replacement = plain (if comparesTwo i.opcode then Opcode.pop2 else Opcode.pop) ::
        match route with
        | .fallThrough => []
        | .jump => [plain Opcode.iconst0, ⟨Opcode.ifeq, .branch target⟩] := by
  intro h
  unfold remove at h
  split at h
  · rename_i hcondition
    split at h
    · rename_i target htarget
      cases h
      exact ⟨hcondition, target, htarget, rfl⟩
    · cases h
  · cases h

theorem remove_suits {condition : Condition} {route : Route}
    (h : remove condition route i = .ok (some p)) : p.Suits i := by
  obtain ⟨-, target, htarget, hp⟩ := remove_some h
  have hdrop : ∀ b : Bool, (plain (if b then Opcode.pop2 else Opcode.pop)).IsReplacement := by
    intro b
    cases b <;> exact isReplacement_plain rfl
  intro j hj
  rw [hp] at hj
  rcases List.mem_cons.1 hj with rfl | hj
  · exact ⟨hdrop _, List.nil_subset _⟩
  · cases route with
    | fallThrough => cases hj
    | jump =>
        simp only [List.mem_cons, List.not_mem_nil, or_false] at hj
        rcases hj with rfl | rfl
        · exact ⟨isReplacement_plain rfl, List.nil_subset _⟩
        · refine ⟨.legal (.inl rfl) nofun nofun, ?_⟩
          simp only [targets, htarget]
          exact List.Subset.refl _

end Conditional

theorem Operator.propose_suits {o : Operator} {h : MethodHeader} {s : Site}
    (hs : s.instruction.Legal) (hp : o.propose h s = .ok (some p)) : p.Suits s.instruction := by
  cases o with
  | conditionalsBoundary => exact Conditional.moveBoundary_suits hs (Except.ok.inj hp)
  | increments => exact Arithmetic.negateIncrement_suits (Except.ok.inj hp)
  | invertNegs => exact Arithmetic.dropNegation_suits (Except.ok.inj hp)
  | math => exact Arithmetic.exchange_suits (Except.ok.inj hp)
  | negateConditionals => exact Conditional.negate_suits hs (Except.ok.inj hp)
  | returnVals =>
      have hchange := Except.ok.inj hp
      split at hchange
      · cases hchange
      · exact Return.change_suits hchange
  | voidMethodCalls => exact Call.remove_suits hp
  | nonVoidMethodCalls => exact Call.remove_suits hp
  | removeConditionals condition route => exact Conditional.remove_suits hp
  | removeIncrements => exact Arithmetic.dropIncrement_suits (Except.ok.inj hp)
  | inlineConsts => exact Arithmetic.substituteConstant_suits (Except.ok.inj hp)

theorem Scan.orNop_ne_nil (is : List Instruction) : orNop is ≠ [] := by
  cases is <;> exact nofun

theorem Proposal.Suits.orNop (h : p.Suits i) :
    ∀ j ∈ Scan.orNop p.replacement, j.IsReplacement ∧ j.targets ⊆ i.targets := by
  obtain ⟨description, is⟩ := p
  cases is with
  | nil =>
      intro j hj
      obtain rfl := List.mem_singleton.1 hj
      exact ⟨isReplacement_plain rfl, List.nil_subset _⟩
  | cons j is => exact h

namespace Scan

variable {h : MethodHeader} {c : Class} {m : Method} {b : Blocks} {os : List Operator} {s : Site}
  {k : Nat} {st st' : ScanState} {item : StreamItem} {target : Option Identifier}
  {stream : List StreamItem}

inductive IsItem (h : MethodHeader) (s : Site) (k : Nat) : StreamItem → Prop where
  | kept : IsItem h s k (.kept k)
  | replaced {o : Operator} {p : Proposal} (hp : o.propose h s = .ok (some p)) :
      IsItem h s k (.replaced k (orNop p.replacement))

theorem IsItem.ordinal (hi : IsItem h s k item) : item.ordinal = k := by
  cases hi <;> rfl

theorem visitSite_isItem (hv : visitSite h s st os = .ok (st', item)) :
    IsItem h s st.ordinal item := by
  induction os generalizing st with
  | nil =>
      cases hv
      exact .kept
  | cons o os ih =>
      unfold visitSite at hv
      split at hv
      · cases hv
      · exact ih hv
      · rename_i p hp
        simp only at hv
        split at hv
        · cases hv
          exact .replaced hp
        · exact @ih (st.register (st.identifier o.id) p.description o.name) hv

theorem visitFrom_forall₂ {R : Site → Nat → StreamItem → Prop} {sites : List Site}
    {emitted out : Array StreamItem}
    (hsite : ∀ s st st' item, visitSite h s st os = .ok (st', item) → R s st.ordinal item)
    (hv : visitFrom h os st emitted k sites = .ok (st', out)) :
    ∃ items, out.toList = emitted.toList ++ items ∧
      List.Forall₂ (fun d item => R d.1 d.2 item) (sites.zipIdx k) items := by
  induction sites generalizing st emitted k with
  | nil =>
      cases hv
      exact ⟨[], (List.append_nil _).symm, .nil⟩
  | cons s rest ih =>
      simp only [visitFrom] at hv
      split at hv
      · rename_i st₁ item hs
        obtain ⟨items, hout, hitems⟩ := ih hv
        refine ⟨item :: items, by simp [hout], ?_⟩
        rw [List.zipIdx_cons]
        exact .cons (hsite _ _ _ _ hs) hitems
      · cases hv

theorem visitFrom_isItem {sites : List Site} {emitted out : Array StreamItem}
    (hv : visitFrom h os st emitted k sites = .ok (st', out)) :
    ∃ items, out.toList = emitted.toList ++ items ∧
      List.Forall₂ (fun d item => IsItem h d.1 d.2 item) (sites.zipIdx k) items :=
  visitFrom_forall₂ (fun _ _ _ _ => visitSite_isItem) hv

theorem rewrites_visit (hv : visit c m b os target = .ok (st, stream)) (hread : m.IsRead)
    (hwide : ∀ s ∈ m.code, s.instruction.IsLegalWide) : Assembly.Rewrites m.code stream := by
  obtain ⟨emitted, hf, rfl⟩ := visit_ok.1 hv
  obtain ⟨items, hout, hitems⟩ := visitFrom_isItem hf
  rw [List.nil_append] at hout
  rw [hout]
  have hreplaced : ∀ ordinal is, .replaced ordinal is ∈ items → ∃ s ∈ m.code, ∃ o p,
      Operator.propose o (c.header m) s = .ok (some p) ∧ is = orNop p.replacement := by
    intro ordinal is hmem
    obtain ⟨⟨s, k⟩, hs, hitem⟩ := Result.exists_left_of_mem hitems hmem
    cases hitem with
    | replaced hp => exact ⟨s, List.fst_mem_of_mem_zipIdx hs, _, _, hp, rfl⟩
  have hsuits : ∀ ordinal is, .replaced ordinal is ∈ items → ∃ s ∈ m.code,
      ∀ i ∈ is, i.IsReplacement ∧ i.targets ⊆ s.instruction.targets := by
    intro ordinal is hmem
    obtain ⟨s, hs, o, p, hp, rfl⟩ := hreplaced ordinal is hmem
    exact ⟨s, hs, (Operator.propose_suits (hread.legal hs (hwide s hs)) hp).orNop⟩
  refine ⟨?_, fun ordinal is hmem => ?_, fun ordinal is hmem i hi => ?_,
    fun ordinal is hmem i hi t ht => ?_⟩
  · rw [List.range_eq_range', ← List.zipIdx_map_snd 0 m.code, ← List.forall₂_eq_eq_eq,
      List.forall₂_map_left_iff, List.forall₂_map_right_iff]
    exact hitems.flip.imp fun _ _ hitem => hitem.ordinal
  · obtain ⟨s, -, o, p, -, rfl⟩ := hreplaced ordinal is hmem
    exact orNop_ne_nil p.replacement
  · obtain ⟨s, -, hs⟩ := hsuits ordinal is hmem
    exact (hs i hi).1
  · obtain ⟨s, hs, hi'⟩ := hsuits ordinal is hmem
    exact List.mem_map.1 (hread.targets hs t ((hi' i hi).2 ht))

end Scan

end BytecodeMutation
