import BytecodeMutation.Proofs.Application
import BytecodeMutation.Proofs.Replacements
import BytecodeMutation.Proofs.StackTypes

namespace BytecodeMutation

open Opcode (typing?)

variable {g : Context} {limit : Nat} {jumps : List (Nat × Stack)} {i j : Instruction}
  {is : List Instruction} {named named' : Symbol} {st rest takes leaves : Stack} {out : Outcome}
  {e : End} {t : Typing} {p : Proposal} {op : UInt8}

namespace Stack

theorem slots_cons (k : Kind) (st : Stack) : slots (k :: st) = k.slots + slots st := rfl

theorem slots_append (st rest : Stack) : slots (st ++ rest) = slots st + slots rest := by
  induction st with
  | nil => exact (Nat.zero_add _).symm
  | cons k st ih => rw [List.cons_append, slots_cons, ih, slots_cons, Nat.add_assoc]

end Stack

namespace Typing

def isFixed : Typing → Bool
  | fixed .. => true
  | _ => false

def isTest : Typing → Bool
  | test _ => true
  | _ => false

end Typing

theorem Does.congr (h : Does g i named t st out) (hoperand : j.operand = i.operand)
    (ht : t.isFixed = true ∨ t.isTest = true) : Does g j named' t st out := by
  cases h with
  | fixed takes leaves rest hi => exact .fixed takes leaves rest (hoperand.trans hi)
  | test takes rest hi => exact .test takes rest (hoperand.trans hi)
  | _ => simp [Typing.isFixed, Typing.isTest] at ht

theorem Does.operand_of_isFixed (h : Does g i named t st out) (ht : t.isFixed = true) :
    i.operand = .absent := by
  cases h with
  | fixed _ _ _ hi => exact hi
  | _ => cases ht

theorem StandFor.of_step (h : Step g j j.requested st out) : StandFor g [j] st out := by
  have hst : st.slots ≤ max st.slots out.slots + 2 := by omega
  cases out with
  | next st' => exact .next hst h (.done (by simp only [Outcome.slots]; omega))
  | branch target st' =>
      exact .branch hst h List.mem_cons_self (.done (by simp only [Outcome.slots]; omega))
  | exit kind => exact .exit hst h

theorem StandFor.nil : StandFor g [] st (.next st) :=
  .done (by simp only [Outcome.slots]; omega)

theorem Runs.orNop (h : Runs g limit jumps is st e) : Runs g limit jumps (Scan.orNop is) st e := by
  cases is with
  | cons i is => exact h
  | nil =>
      cases h with
      | done hst => exact .next hst ⟨.fixed [] [], rfl, .fixed [] [] st rfl⟩ (.done hst)

theorem StandFor.exchange (h : Step g i named st out) (hop : typing? op = typing? i.opcode)
    (ht : ((typing? i.opcode).any fun t => t.isFixed || t.isTest) = true) :
    StandFor g [{ i with opcode := op }] st out := by
  obtain ⟨t, hti, hdoes⟩ := h
  rw [hti] at ht hop
  exact .of_step ⟨t, hop, hdoes.congr rfl (by simpa using ht)⟩

theorem StandFor.exchange_plain (h : Step g i named st out) (hop : typing? op = typing? i.opcode)
    (ht : (typing? i.opcode).any Typing.isFixed = true) : StandFor g [.plain op] st out := by
  obtain ⟨t, hti, hdoes⟩ := h
  rw [hti] at ht hop
  have habsent := hdoes.operand_of_isFixed ht
  exact .of_step ⟨t, hop, hdoes.congr habsent.symm (.inl ht)⟩

namespace Arithmetic

theorem exchanges_typing (op : UInt8) : ∀ op' ∈ exchanges op,
    typing? op' = typing? op ∧ (typing? op).any Typing.isFixed = true := by
  apply Format.forall_opcode_mem
  decide +kernel

theorem shortInt_typing (op : UInt8) (h : (Opcode.iconstM1 ≤ op && op ≤ Opcode.iconst5) = true) :
    typing? op = some (.fixed [] [.int]) := by
  obtain ⟨hlow, hhigh⟩ := Bool.and_eq_true_iff.1 h
  have hop : op = 2 ∨ op = 3 ∨ op = 4 ∨ op = 5 ∨ op = 6 ∨ op = 7 ∨ op = 8 := by
    grind
  rcases hop with rfl | rfl | rfl | rfl | rfl | rfl | rfl
  all_goals rfl

theorem negation_typing (h : isNegation op = true) : ∃ k, typing? op = some (.fixed [k] [k]) := by
  simp only [isNegation, Bool.or_eq_true, beq_iff_eq] at h
  rcases h with ((rfl | rfl) | rfl) | rfl
  · exact ⟨.int, rfl⟩
  · exact ⟨.long, rfl⟩
  · exact ⟨.float, rfl⟩
  · exact ⟨.double, rfl⟩

theorem exchange_standsFor (hp : exchange i = some p) (h : Step g i named st out) :
    StandFor g p.replacement st out := by
  obtain ⟨⟨op, description⟩, hop, rfl⟩ := Option.map_eq_some_iff.1 hp
  obtain ⟨hsame, hfixed⟩ := exchanges_typing i.opcode op (mem_exchanges_operation hop)
  exact .exchange_plain h hsame hfixed

theorem dropNegation_standsFor (hp : dropNegation i = some p) (h : Step g i named st out) :
    StandFor g p.replacement st out := by
  unfold dropNegation at hp
  split at hp
  · rename_i hneg
    cases hp
    obtain ⟨k, hk⟩ := negation_typing hneg
    cases h.does hk
    exact .nil
  · cases hp

theorem negateIncrement_standsFor (hp : negateIncrement i = some p) (h : Step g i named st out) :
    StandFor g p.replacement st out := by
  obtain ⟨index, delta, rfl, hreplacement⟩ := negateIncrement_some hp
  rw [hreplacement]
  cases h.does rfl with
  | increment hoperand hlocal =>
      cases hoperand
      exact .of_step ⟨.increment, rfl, .increment rfl hlocal⟩

theorem dropIncrement_standsFor (hp : dropIncrement i = some p) (h : Step g i named st out) :
    StandFor g p.replacement st out := by
  obtain ⟨⟨index, delta⟩, hi, rfl⟩ := Option.map_eq_some_iff.1 hp
  obtain rfl := increment?_some hi
  cases h.does rfl with
  | increment hoperand hlocal => exact .nil

theorem step_loadInt (value : Int32) : Step g (.loadInt value) named st (.next (.int :: st)) := by
  have hshort : ∀ n ≤ 6, typing? (.ofNat (n + 2)) = some (.fixed [] [.int]) := by decide
  unfold Instruction.loadInt
  simp only
  split
  · rename_i hv
    have htyping := hshort (value.toInt + 1).toNat (by omega)
    have hn : (value.toInt + 1).toNat + 2 = (value.toInt + 3).toNat := by omega
    rw [hn] at htyping
    exact ⟨_, htyping, .fixed [] [.int] st rfl⟩
  · split
    · exact ⟨.byte, rfl, .byte rfl⟩
    · split
      · exact ⟨.short, rfl, .short rfl⟩
      · exact ⟨.constant, rfl, .constant rfl⟩

theorem step_pushedInt {value : Int32} (hi : pushedInt? i = some value)
    (h : Step g i named st out) : out = .next (.int :: st) := by
  unfold pushedInt? at hi
  split at hi
  · rename_i hshort
    cases h.does (shortInt_typing i.opcode hshort)
    rfl
  · split at hi
    · split at hi
      · rename_i hop
        cases h.does (beq_iff_eq.1 hop ▸ rfl : typing? i.opcode = some .byte)
        rfl
      · cases hi
    · split at hi
      · rename_i hop
        cases h.does (beq_iff_eq.1 hop ▸ rfl : typing? i.opcode = some .short)
        rfl
      · cases hi
    · cases hi

theorem substituteConstant_standsFor (hp : substituteConstant i = some p)
    (h : Step g i named st out) : StandFor g p.replacement st out := by
  unfold substituteConstant at hp
  split at hp
  · rename_i value hi
    cases hp
    rw [step_pushedInt hi h]
    exact .of_step (step_loadInt _)
  · obtain ⟨⟨op, source, target⟩, hop, rfl⟩ := Option.map_eq_some_iff.1 hp
    obtain ⟨hsame, hfixed⟩ := exchanges_typing i.opcode op (mem_exchanges_constant hop)
    exact .exchange_plain h hsame hfixed

end Arithmetic

namespace Runs

theorem fixed (takes leaves rest : Stack) (ht : typing? op = some (.fixed takes leaves))
    (hlimit : Stack.slots (takes ++ rest) ≤ limit) (h : Runs g limit jumps is (leaves ++ rest) e) :
    Runs g limit jumps (.plain op :: is) (takes ++ rest) e :=
  .next hlimit ⟨_, ht, .fixed takes leaves rest rfl⟩ h

theorem leave {k : Kind} (ht : typing? op = some (.exit k)) (hresult : g.result = some k)
    (hlimit : Stack.slots (k :: rest) ≤ limit) :
    Runs g limit jumps [.plain op] (k :: rest) (.returns k) :=
  .exit hlimit ⟨_, ht, .exit rfl hresult⟩

theorem pop {k : Kind} (hlimit : Stack.slots (k :: rest) ≤ limit)
    (h : Runs g limit jumps is rest e) :
    Runs g limit jumps (Call.pop k.slots :: is) (k :: rest) e := by
  cases k with
  | long => exact .next hlimit ⟨.pop2, rfl, .popWide rfl rfl⟩ h
  | double => exact .next hlimit ⟨.pop2, rfl, .popWide rfl rfl⟩ h
  | _ => exact .next hlimit ⟨.pop, rfl, .pop rfl rfl⟩ h

end Runs

namespace Conditional

theorem exchanges_typing (op : UInt8) : ∀ op' ∈ exchanges op,
    typing? op' = typing? op ∧
      ((typing? op).any fun t => t.isFixed || t.isTest) = true := by
  apply Format.forall_opcode_mem
  decide +kernel

theorem negate_standsFor (hp : negate i = some p) (h : Step g i named st out) :
    StandFor g p.replacement st out := by
  obtain ⟨op, hop, rfl⟩ := Option.map_eq_some_iff.1 hp
  obtain ⟨hsame, htest⟩ := exchanges_typing i.opcode op (mem_exchanges_negation hop)
  exact .exchange h hsame htest

theorem moveBoundary_standsFor (hp : moveBoundary i = some p) (h : Step g i named st out) :
    StandFor g p.replacement st out := by
  obtain ⟨op, hop, rfl⟩ := Option.map_eq_some_iff.1 hp
  obtain ⟨hsame, htest⟩ := exchanges_typing i.opcode op (mem_exchanges_boundary hop)
  exact .exchange h hsame htest

theorem condition?_typing (op : UInt8) (h : (condition? op).isSome = true) :
    ∃ k, k.slots = 1 ∧
      ((comparesTwo op = false ∧ typing? op = some (.test [k])) ∨
        (comparesTwo op = true ∧ typing? op = some (.test [k, k]))) := by
  have hkinds : (condition? op).isSome = true →
      (comparesTwo op = false ∧ typing? op = some (.test [.int])) ∨
      (comparesTwo op = true ∧ typing? op = some (.test [.int, .int])) ∨
      (comparesTwo op = false ∧ typing? op = some (.test [.reference])) ∨
      (comparesTwo op = true ∧ typing? op = some (.test [.reference, .reference])) := by
    clear h
    revert op
    exact Format.forall_opcode (by decide +kernel)
  rcases hkinds h with h | h | h | h
  · exact ⟨.int, rfl, .inl h⟩
  · exact ⟨.int, rfl, .inr h⟩
  · exact ⟨.reference, rfl, .inl h⟩
  · exact ⟨.reference, rfl, .inr h⟩

theorem drop_runs (h : (condition? op).isSome = true) (ht : typing? op = some (.test takes))
    (hlimit : (takes ++ rest).slots ≤ limit) (hrest : Runs g limit jumps is rest e) :
    Runs g limit jumps (.plain (if comparesTwo op then Opcode.pop2 else Opcode.pop) :: is)
      (takes ++ rest) e := by
  obtain ⟨k, hk, ⟨hone, htakes⟩ | ⟨htwo, htakes⟩⟩ := condition?_typing op h
  · cases ht.symm.trans htakes
    rw [hone]
    exact .next hlimit ⟨.pop, rfl, .pop rfl hk⟩ hrest
  · cases ht.symm.trans htakes
    rw [htwo]
    exact .next hlimit ⟨.pop2, rfl, .popTwo rfl hk hk⟩ hrest

theorem remove_standsFor {condition : Condition} {route : Route}
    (hp : remove condition route i = .ok (some p)) (h : Step g i named st out) :
    StandFor g p.replacement st out := by
  obtain ⟨hcondition, target, htarget, hreplacement⟩ := remove_some hp
  have hsome : (condition? i.opcode).isSome = true := by rw [hcondition]; rfl
  obtain ⟨k, -, htyping⟩ := condition?_typing i.opcode hsome
  obtain ⟨takes, ht⟩ : ∃ takes, typing? i.opcode = some (.test takes) := by
    rcases htyping with ⟨-, ht⟩ | ⟨-, ht⟩ <;> exact ⟨_, ht⟩
  rw [hreplacement]
  cases h.does ht with
  | test _ rest hoperand =>
      cases htarget.symm.trans hoperand
      change Runs g (max (takes ++ rest).slots rest.slots + 2) [(target, rest)] _ _ (.falls rest)
      generalize hlimit : max (takes ++ rest).slots rest.slots + 2 = limit
      refine drop_runs hsome ht (by omega) ?_
      cases route with
      | fallThrough => exact .done (by omega)
      | jump =>
          have hzero : Stack.slots ([.int] ++ rest) = 1 + rest.slots := rfl
          refine .fixed [] [.int] rest rfl (show rest.slots ≤ limit by omega) ?_
          exact .branch (by omega) ⟨.test [.int], rfl, .test [.int] rest rfl⟩
            List.mem_cons_self (.done (by omega))

end Conditional

namespace Call

theorem size_value (t : FieldType) : t.value.size = t.kind.slots := by
  cases t with
  | primitive type => cases type <;> rfl
  | object name => rfl
  | array element => rfl

theorem pops_run {ts : List FieldType}
    (hlimit : Stack.slots (ts.map FieldType.kind ++ rest) ≤ limit)
    (h : Runs g limit jumps is rest e) :
    Runs g limit jumps (ts.map (fun t => pop t.value.size) ++ is)
      (ts.map FieldType.kind ++ rest) e := by
  induction ts with
  | nil => exact h
  | cons t ts ih =>
      have hrest : Stack.slots (ts.map FieldType.kind ++ rest) ≤ limit := by
        rw [List.map_cons, List.cons_append, Stack.slots_cons] at hlimit
        omega
      rw [List.map_cons, List.map_cons, List.cons_append, List.cons_append, size_value]
      exact .pop hlimit (ih hrest)

theorem receiver_runs {kind : InvokeKind}
    (hlimit : Stack.slots ((if kind = .static then [] else [.reference]) ++ rest) ≤ limit)
    (h : Runs g limit jumps is rest e) :
    Runs g limit jumps ((if kind = .static then [] else [pop 1]) ++ is)
      ((if kind = .static then [] else [.reference]) ++ rest) e := by
  by_cases hkind : kind = .static
  · rw [if_pos hkind, if_pos hkind]
    exact h
  · rw [if_neg hkind] at hlimit
    rw [if_neg hkind, if_neg hkind]
    exact .pop hlimit h

theorem zero_runs (result : Option FieldType) (hlimit : rest.slots ≤ limit)
    (hleaves : Stack.slots ((result.map FieldType.kind).toList ++ rest) ≤ limit) :
    Runs g limit jumps
      ((zero? ((result.map FieldType.value).getD .void)).toList.map Instruction.plain) rest
      (.falls ((result.map FieldType.kind).toList ++ rest)) := by
  cases result with
  | none => exact .done hlimit
  | some t =>
      obtain ⟨op, hop, ht⟩ : ∃ op, zero? t.value = some op ∧
          typing? op = some (.fixed [] [t.kind]) := by
        cases t with
        | primitive type => cases type <;> exact ⟨_, rfl, rfl⟩
        | object name => exact ⟨_, rfl, rfl⟩
        | array element => exact ⟨_, rfl, rfl⟩
      simp only [Option.map_some, Option.getD_some, hop, Option.toList_some, List.map_cons,
        List.map_nil]
      exact .fixed [] [t.kind] rest ht hlimit (.done hleaves)

theorem replacement_runs (s : Signature) (kind : InvokeKind)
    (htakes : Stack.slots (s.takes kind ++ rest) ≤ limit)
    (hleaves : Stack.slots (s.leaves ++ rest) ≤ limit) :
    Runs g limit jumps (replacement kind s.methodType) (s.takes kind ++ rest)
      (.falls (s.leaves ++ rest)) := by
  have hpops : s.methodType.parameters.reverse.map (fun t => pop t.size)
      = s.parameters.reverse.map fun t => pop t.value.size := by
    rw [Signature.methodType, ← List.map_reverse, List.map_map]
    rfl
  rw [Signature.takes, ← List.map_reverse, List.append_assoc] at htakes ⊢
  have hreceiver := htakes
  rw [Stack.slots_append] at hreceiver
  have hrest := hreceiver
  rw [Stack.slots_append] at hrest
  rw [replacement, hpops, List.append_assoc]
  exact pops_run htakes (receiver_runs (by omega) (zero_runs s.result (by omega) hleaves))

theorem remove_standsFor {void : Bool} {s : Site}
    (hnamed : ∀ kind m, s.symbol = .call kind m → typing? s.opcode = some (.call kind))
    (hp : remove void s.symbol = .ok (some p)) (h : Step g s.instruction s.symbol st out) :
    StandFor g p.replacement st out := by
  obtain ⟨kind, m, type, hsymbol, htype, hreplacement⟩ := remove_some hp
  rw [hreplacement]
  cases h.does (hnamed kind m hsymbol) with
  | @call _ member signature rest hname htext =>
      cases hsymbol.symm.trans hname
      -- what is popped was read from the text that types the call
      rw [htext] at htype
      obtain rfl := Descriptor.methodType_text signature htype
      refine replacement_runs signature kind (by omega) ?_
      rw [Outcome.slots]
      omega

end Call

namespace Return

variable {k : Kind}

theorem isZero_runs (hresult : g.result = some .int)
    (hlimit : Stack.slots (.int :: rest) + 2 ≤ limit) :
    Runs g limit jumps isZero (.int :: rest) (.returns .int) := by
  have hone : Stack.slots (.int :: rest) ≤ limit := Nat.le_of_add_right_le hlimit
  have htwo : Stack.slots (.int :: .int :: rest) ≤ limit :=
    show 1 + Stack.slots (.int :: rest) ≤ limit by omega
  have hior : typing? Opcode.ior = some (.fixed [.int, .int] [.int]) := rfl
  refine .next hone ⟨.dup, rfl, .dup rfl rfl⟩ ?_
  refine .fixed [.int] [.int] (.int :: rest) rfl htwo ?_
  refine .fixed [.int, .int] [.int] rest hior htwo ?_
  refine .next hone (Arithmetic.step_loadInt 31) ?_
  refine .fixed [.int, .int] [.int] rest rfl htwo ?_
  refine .fixed [] [.int] (.int :: rest) rfl hone ?_
  refine .fixed [.int, .int] [.int] rest rfl htwo ?_
  exact .leave rfl hresult hone

theorem binary_runs {constant operation : UInt8}
    (hconstant : typing? constant = some (.fixed [] [k]))
    (hoperation : typing? operation = some (.fixed [k, k] [k]))
    (hlimit : Stack.slots (k :: rest) + 2 ≤ limit) (h : Runs g limit jumps is (k :: rest) e) :
    Runs g limit jumps (.plain constant :: .plain operation :: is) (k :: rest) e := by
  have hslots : k.slots ≤ 2 := by cases k <;> decide
  have htwo : Stack.slots (k :: k :: rest) ≤ limit := by
    rw [Stack.slots_cons]
    omega
  refine .fixed [] [k] (k :: rest) hconstant (Nat.le_of_add_right_le hlimit) ?_
  exact .fixed [k, k] [k] rest hoperation htwo h

theorem null_runs (hresult : g.result = some .reference)
    (hlimit : Stack.slots (.reference :: rest) + 2 ≤ limit) :
    Runs g limit jumps [⟨Opcode.invokestatic, .newConstant (.method requireNonNull)⟩,
      .plain Opcode.pop, .plain Opcode.aconstNull, .plain Opcode.areturn] (.reference :: rest)
      (.returns .reference) := by
  have hone : Stack.slots (.reference :: rest) ≤ limit := Nat.le_of_add_right_le hlimit
  let object : FieldType := .object ⟨"java/lang/Object".toList, by decide⟩
  have hcall : Step g ⟨Opcode.invokestatic, .newConstant (.method requireNonNull)⟩
      (.call .static requireNonNull) (.reference :: rest) (.next (.reference :: rest)) :=
    ⟨.call .static, rfl, @Does.call _ _ _ _ _ ⟨[object], some object⟩ rest rfl (by decide)⟩
  refine .next hone hcall ?_
  refine .pop hone ?_
  refine .fixed [] [.reference] rest rfl (Nat.le_of_add_left_le hone) ?_
  exact .leave rfl hresult hone

theorem change_runs (hp : change op = some p) : ∃ k, typing? op = some (.exit k) ∧
    ∀ {g limit jumps rest}, g.result = some k → Stack.slots (k :: rest) + 2 ≤ limit →
      Runs g limit jumps p.replacement (k :: rest) (.returns k) := by
  unfold change at hp
  split at hp
  · cases hp
    exact ⟨.int, rfl, isZero_runs⟩
  · cases hp
    refine ⟨.long, rfl, fun hresult hlimit => ?_⟩
    refine binary_runs rfl rfl hlimit ?_
    exact .leave rfl hresult (Nat.le_of_add_right_le hlimit)
  · cases hp
    refine ⟨.float, rfl, fun {g limit jumps rest} hresult hlimit => ?_⟩
    refine binary_runs rfl rfl hlimit ?_
    refine .fixed [.float] [.float] rest rfl (Nat.le_of_add_right_le hlimit) ?_
    exact .leave rfl hresult (Nat.le_of_add_right_le hlimit)
  · cases hp
    refine ⟨.double, rfl, fun {g limit jumps rest} hresult hlimit => ?_⟩
    refine binary_runs rfl rfl hlimit ?_
    refine .fixed [.double] [.double] rest rfl (Nat.le_of_add_right_le hlimit) ?_
    exact .leave rfl hresult (Nat.le_of_add_right_le hlimit)
  · cases hp
    exact ⟨.reference, rfl, null_runs⟩
  · cases hp

theorem change_standsFor (hp : change i.opcode = some p) (h : Step g i named st out) :
    StandFor g p.replacement st out := by
  obtain ⟨k, ht, hruns⟩ := change_runs hp
  cases h.does ht with
  | exit _ hresult => exact hruns hresult (by omega)

end Return

theorem Method.typing_of_symbolOf {pool : Pool} {offset : Nat} {kind : InvokeKind} {m : MemberRef}
    (h : symbolOf pool offset i = .ok (.call kind m)) : typing? i.opcode = some (.call kind) := by
  have hcall {a : Activity} {kind' : InvokeKind} {index : UInt16}
      (h : (attempt a (pool.memberRef index)).map (Symbol.call kind') = .ok (.call kind m)) :
      kind' = kind := by
    obtain ⟨m', -, h⟩ := Result.map_ok.1 h
    cases h
    rfl
  obtain ⟨opcode, operand⟩ := i
  unfold symbolOf at h
  cases operand with
  | constant index =>
      simp only [beq_iff_eq] at h
      split at h
      · rename_i hop
        rw [hop, ← hcall h]
        rfl
      · split at h
        · rename_i hop
          rw [hop, ← hcall h]
          rfl
        · split at h
          · rename_i hop
            rw [hop, ← hcall h]
            rfl
          · split at h
            · obtain ⟨m', -, h⟩ := Result.map_ok.1 h
              cases h
            · cases h
  | invokeInterface index count =>
      simp only [beq_iff_eq] at h
      split at h
      · rename_i hop
        rw [hop, ← hcall h]
        rfl
      · cases h
  | _ => cases h

theorem Operator.propose_standsFor {o : Operator} {m : MethodHeader} {s : Site}
    (hnamed : ∀ kind m, s.symbol = .call kind m → typing? s.opcode = some (.call kind))
    (hp : o.propose m s = .ok (some p)) (h : Step g s.instruction s.symbol st out) :
    StandFor g p.replacement st out := by
  cases o with
  | conditionalsBoundary => exact Conditional.moveBoundary_standsFor (Except.ok.inj hp) h
  | increments => exact Arithmetic.negateIncrement_standsFor (Except.ok.inj hp) h
  | invertNegs => exact Arithmetic.dropNegation_standsFor (Except.ok.inj hp) h
  | math => exact Arithmetic.exchange_standsFor (Except.ok.inj hp) h
  | negateConditionals => exact Conditional.negate_standsFor (Except.ok.inj hp) h
  | returnVals =>
      have hchange := Except.ok.inj hp
      split at hchange
      · cases hchange
      · exact Return.change_standsFor hchange h
  | voidMethodCalls => exact Call.remove_standsFor hnamed hp h
  | nonVoidMethodCalls => exact Call.remove_standsFor hnamed hp h
  | removeConditionals condition route => exact Conditional.remove_standsFor hp h
  | removeIncrements => exact Arithmetic.dropIncrement_standsFor (Except.ok.inj hp) h
  | inlineConsts => exact Arithmetic.substituteConstant_standsFor (Except.ok.inj hp) h

theorem Assembly.toNat_raisedStack {maxStack : UInt16} (h : maxStack ≤ 65533) :
    (raisedStack maxStack).toNat = maxStack.toNat + 2 := by
  have hle : maxStack.toNat ≤ 65533 := UInt16.le_iff_toNat_le.1 h
  unfold raisedStack
  split
  · rename_i hge
    have hge' : 65533 ≤ maxStack.toNat := UInt16.le_iff_toNat_le.1 hge
    have heq : maxStack.toNat = 65533 := Nat.le_antisymm hle hge'
    rw [heq]
    rfl
  · have htwo : (2 : UInt16).toNat = 2 := rfl
    rw [UInt16.toNat_add, htwo]
    exact Nat.mod_eq_of_lt (by omega)

/-- Wherever an instruction is well typed, so is what an operator proposes for it: it ends with the
same types on the stack or returns a value of the same type, jumps only with the types of the old
jump, and needs two more slots at most, which the assembly adds to the limit of the method. -/
theorem Operator.propose_typed (data : Bytes) (c : Class) (m : Method) (s : Site) (o : Operator)
    (p : Proposal) (g : Context) (st : Stack) (out : Outcome)
    (hparse : Class.parse data = .ok c) (hm : m ∈ c.methods) (hs : s ∈ m.code)
    (hp : o.propose (c.header m) s = .ok (some p))
    (htyped : Step g s.instruction s.symbol st out) :
    Runs g (max st.slots out.slots + 2) out.jumps (Scan.orNop p.replacement) st out.ending ∧
    (∀ limit jumps e, Runs g limit jumps (Scan.orNop p.replacement) st e → e = out.ending) ∧
    ∀ maxStack : UInt16, maxStack ≤ 65533 → st.slots ≤ maxStack.toNat →
      out.slots ≤ maxStack.toNat →
      Runs g (Assembly.raisedStack maxStack).toNat out.jumps (Scan.orNop p.replacement) st
        out.ending := by
  obtain ⟨pool, code, handlers, hreads⟩ := Class.isRead_of_mem hparse hm
  have hsymbol := (Method.sites_iff.1 hreads.sites).2 s hs
  have hnamed : ∀ kind member, s.symbol = .call kind member →
      typing? s.opcode = some (.call kind) := by
    intro kind member hcall
    rw [hcall] at hsymbol
    exact Method.typing_of_symbolOf hsymbol
  have hruns : Runs g (max st.slots out.slots + 2) out.jumps (Scan.orNop p.replacement) st
      out.ending := Runs.orNop (propose_standsFor hnamed hp htyped)
  refine ⟨hruns, fun limit jumps e h => h.unique hruns, fun maxStack hmax hbefore hafter => ?_⟩
  rw [Assembly.toNat_raisedStack hmax]
  exact hruns.mono (by omega)

namespace Specimen

def callFile : Bytes :=
  [0xca, 0xfe, 0xba, 0xbe, 0, 0, 0, 0x32, 0, 12, 1, 0, 4, 0x43, 0x6f, 0x64, 0x65, 1, 0, 1, 0x67,
    1, 0, 3, 0x28, 0x29, 0x56, 1, 0, 1, 0x53, 7, 0, 4, 1, 0, 1, 0x4f, 7, 0, 6, 1, 0, 1, 0x68,
    1, 0, 5, 0x28, 0x49, 0x4a, 0x29, 0x44, 12, 0, 8, 0, 9, 10, 0, 5, 0, 10,
    0, 0x21, 0, 5, 0, 7, 0, 0, 0, 0, 0, 1, 0, 9, 0, 2, 0, 3, 0, 1, 0, 1, 0, 0, 0, 19, 0, 3, 0, 0,
    0, 0, 0, 7, 3, 10, 0xb8, 0, 11, 0x58, 0xb1, 0, 0, 0, 0, 0, 0]

def callSite : Site :=
  ⟨2, ⟨Opcode.invokestatic, .constant 11⟩, .call .static ⟨"S", "h", "(IJ)D"⟩⟩

def calling : Method :=
  { index := 0, name := "g", descriptor := "()V", access := 9, codeLength := 7
    code := [⟨0, .plain Opcode.iconst0, .other⟩, ⟨1, .plain Opcode.lconst1, .other⟩, callSite,
      ⟨5, .plain Opcode.pop2, .other⟩, ⟨6, .plain Opcode.returnVoid, .other⟩]
    handlers := [], lines := [] }

def caller : Class := { owner with methods := [calling] }

theorem parse_callFile : Class.parse callFile = .ok caller := by decide +kernel

def callRemoval : Proposal :=
  ⟨"removed call to S::h", [.plain Opcode.pop2, .plain Opcode.pop, .plain Opcode.dconst0]⟩

theorem propose_callRemoval :
    Operator.nonVoidMethodCalls.propose (caller.header calling) callSite
      = .ok (some callRemoval) := by decide +kernel

end Specimen

open Specimen in
theorem Operator.propose_typed_callSite :
    Step ⟨fun _ => none, none⟩ callSite.instruction callSite.symbol [.long, .int]
      (.next [.double]) ∧
    Runs ⟨fun _ => none, none⟩ 5 [] [.plain Opcode.pop2, .plain Opcode.pop, .plain Opcode.dconst0]
      [.long, .int] (.falls [.double]) := by
  have htyped : Step ⟨fun _ => none, none⟩ callSite.instruction callSite.symbol [.long, .int]
      (.next [.double]) :=
    ⟨.call .static, rfl, @Does.call _ _ _ _ ⟨"S", "h", "(IJ)D"⟩
      ⟨[.primitive .int, .primitive .long], some (.primitive .double)⟩ [] rfl (by decide)⟩
  obtain ⟨hruns, -⟩ := propose_typed callFile caller calling callSite .nonVoidMethodCalls
    callRemoval _ _ _ parse_callFile (by decide) (by decide) propose_callRemoval htyped
  exact ⟨htyped, hruns⟩

end BytecodeMutation
