import BytecodeMutation.Proofs.Execution
import BytecodeMutation.Proofs.Indexes
import BytecodeMutation.Proofs.Listing
import BytecodeMutation.Proofs.StackEffects

namespace BytecodeMutation

open Instruction (loadInt plain)
open Opcode (typing?)

def Instruction.IsZeroIncrement (i : Instruction) : Prop :=
  ∃ index, i = ⟨Opcode.iinc, .increment index 0⟩

def Typing.isCall : Typing → Bool
  | call _ => true
  | _ => false

variable {i : Instruction} {p : Proposal} {op : UInt8} {value pushed : Int32}

def Proposal.Differs (i : Instruction) (p : Proposal) : Prop := Scan.orNop p.replacement ≠ [i]

theorem Proposal.differs_of_opcode {description : String} {j : Instruction} {is : List Instruction}
    (h : j.opcode ≠ i.opcode) : (Proposal.mk description (j :: is)).Differs i := by
  intro heq
  exact h (congrArg Instruction.opcode (List.cons.inj heq).1)

theorem Proposal.differs_nil {description : String} (h : i.opcode ≠ Opcode.nop) :
    (Proposal.mk description []).Differs i := by
  intro heq
  exact h (congrArg Instruction.opcode (List.cons.inj heq).1).symm

theorem Proposal.differs_of_length (h : 1 < p.replacement.length) : p.Differs i := by
  obtain ⟨description, is⟩ := p
  intro heq
  cases is with
  | nil => cases h
  | cons j is =>
      rw [(List.cons.inj heq).2, List.length_singleton] at h
      exact absurd h (Nat.lt_irrefl 1)

namespace Arithmetic

theorem exchanges_ne (op : UInt8) : ∀ op' ∈ exchanges op, op' ≠ op := by
  apply Format.forall_opcode_mem
  decide +kernel

theorem exchange_differs (h : exchange i = some p) : p.Differs i := by
  obtain ⟨⟨op, description⟩, hop, rfl⟩ := Option.map_eq_some_iff.1 h
  exact Proposal.differs_of_opcode (exchanges_ne i.opcode op (mem_exchanges_operation hop))

theorem dropNegation_differs (h : dropNegation i = some p) : p.Differs i := by
  unfold dropNegation at h
  split at h
  · rename_i hneg
    cases h
    refine Proposal.differs_nil fun hnop => ?_
    rw [hnop] at hneg
    cases hneg
  · cases h

theorem dropIncrement_differs (h : dropIncrement i = some p) : p.Differs i := by
  obtain ⟨⟨index, delta⟩, hi, rfl⟩ := Option.map_eq_some_iff.1 h
  obtain rfl := increment?_some hi
  exact Proposal.differs_nil (show Opcode.iinc ≠ Opcode.nop by decide)

theorem neg_eq_self_iff {delta : Int16} (h : delta ≠ -32768) : -delta = delta ↔ delta = 0 := by
  have hlow := delta.le_toInt
  have hhigh := delta.toInt_lt
  have hne : delta.toInt ≠ -32768 := mt (Int16.toInt_inj (y := -32768)).1 h
  have hneg : (-delta).toInt = -delta.toInt := by
    rw [Int16.toInt_neg]
    exact Int.bmod_eq_of_le (by omega) (by omega)
  have hzero : (0 : Int16).toInt = 0 := rfl
  rw [← Int16.toInt_inj, ← Int16.toInt_inj, hneg, hzero]
  omega

theorem negateIncrement_same (h : negateIncrement i = some p) :
    Scan.orNop p.replacement = [i] ↔ i.IsZeroIncrement := by
  obtain ⟨index, delta, rfl, hp⟩ := negateIncrement_some h
  have hleast : delta ≠ -32768 := by
    rintro rfl
    cases h
  rw [hp]
  constructor
  · intro heq
    have hdelta : -delta = delta := by
      injection congrArg Instruction.operand (List.cons.inj heq).1
    rw [(neg_eq_self_iff hleast).1 hdelta]
    exact ⟨index, rfl⟩
  · rintro ⟨index', hzero⟩
    cases hzero
    rfl

theorem pushedInt?_of_operation (hi : i.operation? = some (.push pushed))
    (h : pushedInt? i = some value) : value = pushed := by
  obtain ⟨opcode, operand⟩ := i
  unfold Instruction.operation? at hi
  cases operand with
  | absent =>
      simp only [Opcode.operation?] at hi
      split at hi
      case h_9 =>
        split at hi
        · rename_i hshort
          cases hi
          rw [pushedInt?, if_pos hshort] at h
          exact (Option.some.inj h).symm
        · cases hi
      all_goals cases hi
  | byte v =>
      obtain ⟨rfl, hpushed⟩ := Option.ite_none_right_eq_some.1 hi
      cases hpushed
      exact (Option.some.inj h).symm
  | short v =>
      obtain ⟨rfl, hpushed⟩ := Option.ite_none_right_eq_some.1 hi
      cases hpushed
      exact (Option.some.inj h).symm
  | newConstant r =>
      cases r with
      | integer v =>
          obtain ⟨rfl, -⟩ := Option.ite_none_right_eq_some.1 hi
          cases h
      | _ => cases hi
  | branch target =>
      obtain ⟨t, -, ht⟩ := Option.map_eq_some_iff.1 hi
      cases ht
  | _ => cases hi

theorem substituteConstant_differs (h : substituteConstant i = some p) : p.Differs i := by
  unfold substituteConstant at h
  split at h
  · rename_i value hvalue
    cases h
    intro heq
    rw [← (List.cons.inj heq).1] at hvalue
    have hsame := pushedInt?_of_operation (Instruction.operation?_loadInt _) hvalue
    split at hsame
    -- one becomes zero, any other value the next one
    · rename_i hone
      cases hone.symm.trans hsame
    · cases Int32.left_eq_add.1 hsame
  · obtain ⟨⟨op, source, target⟩, hop, rfl⟩ := Option.map_eq_some_iff.1 h
    exact Proposal.differs_of_opcode (exchanges_ne i.opcode op (mem_exchanges_constant hop))

end Arithmetic

namespace Conditional

theorem exchanges_ne (op : UInt8) : ∀ op' ∈ exchanges op, op' ≠ op := by
  apply Format.forall_opcode_mem
  decide +kernel

theorem negate_differs (h : negate i = some p) : p.Differs i := by
  obtain ⟨op, hop, rfl⟩ := Option.map_eq_some_iff.1 h
  exact Proposal.differs_of_opcode (exchanges_ne i.opcode op (mem_exchanges_negation hop))

theorem moveBoundary_differs (h : moveBoundary i = some p) : p.Differs i := by
  obtain ⟨op, hop, rfl⟩ := Option.map_eq_some_iff.1 h
  exact Proposal.differs_of_opcode (exchanges_ne i.opcode op (mem_exchanges_boundary hop))

theorem remove_differs {condition : Condition} {route : Route}
    (h : remove condition route i = .ok (some p)) : p.Differs i := by
  obtain ⟨-, target, htarget, hp⟩ := remove_some h
  intro heq
  rw [hp] at heq
  have hoperand := congrArg Instruction.operand (List.cons.inj heq).1
  cases hoperand.trans htarget

end Conditional

theorem Return.change_differs (h : Return.change op = some p) : p.Differs i := by
  refine Proposal.differs_of_length ?_
  unfold Return.change at h
  split at h
  all_goals cases h <;> decide

namespace Call

theorem typing_of_plain (op : UInt8) :
    Format.ofOpcode? op = some .plain → (typing? op).any Typing.isCall = false := by
  revert op
  exact Format.forall_opcode (by decide +kernel)

theorem orNop_replacement_plain (kind : InvokeKind) (type : MethodType) :
    ∀ j ∈ Scan.orNop (replacement kind type),
      ∃ op, j = plain op ∧ Format.ofOpcode? op = some .plain := by
  have hplain := replacement_plain kind type
  cases hreplacement : replacement kind type with
  | nil =>
      intro j hj
      obtain rfl := List.mem_singleton.1 hj
      exact ⟨Opcode.nop, rfl, rfl⟩
  | cons j is =>
      rw [hreplacement] at hplain
      exact hplain

theorem remove_differs {void : Bool} {symbol : Symbol}
    (hnamed : ∀ kind m, symbol = .call kind m → typing? i.opcode = some (.call kind))
    (h : remove void symbol = .ok (some p)) : p.Differs i := by
  obtain ⟨kind, m, type, hsymbol, -, hp⟩ := remove_some h
  intro heq
  rw [hp] at heq
  obtain ⟨op, rfl, hop⟩ := orNop_replacement_plain kind type i (heq ▸ List.mem_singleton_self i)
  have hcall := typing_of_plain op hop
  have hkind : typing? op = some (.call kind) := hnamed kind m hsymbol
  rw [hkind] at hcall
  cases hcall

end Call

theorem Operator.propose_same {o : Operator} {m : MethodHeader} {s : Site}
    (hnamed : ∀ kind m, s.symbol = .call kind m → typing? s.opcode = some (.call kind))
    (hp : o.propose m s = .ok (some p)) : Scan.orNop p.replacement = [s.instruction] ↔
      o = .increments ∧ s.instruction.IsZeroIncrement := by
  have hother (ho : o ≠ .increments) (h : p.Differs s.instruction) :
      Scan.orNop p.replacement = [s.instruction] ↔
        o = .increments ∧ s.instruction.IsZeroIncrement :=
    iff_of_false h fun heq => ho heq.1
  cases o with
  | increments =>
      rw [Arithmetic.negateIncrement_same (Except.ok.inj hp)]
      exact (and_iff_right rfl).symm
  | conditionalsBoundary => exact hother nofun (Conditional.moveBoundary_differs (Except.ok.inj hp))
  | invertNegs => exact hother nofun (Arithmetic.dropNegation_differs (Except.ok.inj hp))
  | math => exact hother nofun (Arithmetic.exchange_differs (Except.ok.inj hp))
  | negateConditionals => exact hother nofun (Conditional.negate_differs (Except.ok.inj hp))
  | returnVals =>
      have hchange := Except.ok.inj hp
      split at hchange
      · cases hchange
      · exact hother nofun (Return.change_differs hchange)
  | voidMethodCalls => exact hother nofun (Call.remove_differs hnamed hp)
  | nonVoidMethodCalls => exact hother nofun (Call.remove_differs hnamed hp)
  | removeConditionals condition route => exact hother nofun (Conditional.remove_differs hp)
  | removeIncrements => exact hother nofun (Arithmetic.dropIncrement_differs (Except.ok.inj hp))
  | inlineConsts => exact hother nofun (Arithmetic.substituteConstant_differs (Except.ok.inj hp))

theorem Method.IsRead.typing_of_call {m : Method} {s : Site} {kind : InvokeKind}
    {member : MemberRef} (h : m.IsRead) (hs : s ∈ m.code) (hcall : s.symbol = .call kind member) :
    typing? s.opcode = some (.call kind) := by
  obtain ⟨pool, code, handlers, hreads⟩ := h
  have hsymbol := (Method.sites_iff.1 hreads.sites).2 s hs
  rw [hcall] at hsymbol
  exact Method.typing_of_symbolOf hsymbol

namespace Scan

variable {c : Class} {m : Method} {b : Blocks} {h : MethodHeader} {o : Operator} {s : Site}
  {k : Nat} {st st' : ScanState} {item : StreamItem} {target : Option Identifier}
  {stream : List StreamItem}

inductive IsItemOf (o : Operator) (h : MethodHeader) (s : Site) (k : Nat) : StreamItem → Prop where
  | kept : IsItemOf o h s k (.kept k)
  | replaced {p : Proposal} (hp : o.propose h s = .ok (some p)) :
      IsItemOf o h s k (.replaced k (orNop p.replacement))

theorem visitSite_isItemOf (hv : visitSite h s st [o] = .ok (st', item)) :
    IsItemOf o h s st.ordinal item := by
  unfold visitSite at hv
  split at hv
  · cases hv
  · cases hv
    exact .kept
  · rename_i p hp
    simp only at hv
    split at hv
    · cases hv
      exact .replaced hp
    · cases hv
      exact .kept

theorem visit_isItemOf (hv : visit c m b [o] target = .ok (st, stream)) :
    List.Forall₂ (fun d item => IsItemOf o (c.header m) d.1 d.2 item) m.code.zipIdx stream := by
  obtain ⟨emitted, hf, rfl⟩ := visit_ok.1 hv
  obtain ⟨items, hout, hitems⟩ := visitFrom_forall₂ (fun _ _ _ _ => visitSite_isItemOf) hf
  rw [hout]
  exact hitems

end Scan

namespace Assembly

def edited (code : List Site) (stream : List StreamItem) : List Instruction :=
  (stream.flatMap (emitted code)).map (·.instruction)

theorem map_marked (origin : Nat) (is : List Instruction) :
    (marked origin is).map (·.instruction) = is := by
  cases is with
  | nil => rfl
  | cons i is => simp [marked, Function.comp_def]

variable {code : List Site} {s : Site} {k : Nat}

theorem instructions_kept (hs : code[k]? = some s) :
    (emitted code (.kept k)).map (·.instruction) = [s.instruction] := by
  simp only [emitted, hs, Option.toList_some, List.map_cons, List.map_nil]

theorem instructions_replaced (hs : code[k]? = some s) (is : List Instruction) :
    (emitted code (.replaced k is)).map (·.instruction) = is := by
  simp only [emitted, hs, Option.toList_some, List.flatMap_cons, List.flatMap_nil, List.append_nil,
    map_marked]

variable {α β γ : Type} {f : β → List γ} {g : α → γ} {xs : List α} {ys : List β}

theorem length_le_flatMap (h : ∀ y ∈ ys, f y ≠ []) : ys.length ≤ (ys.flatMap f).length := by
  induction ys with
  | nil => exact Nat.zero_le _
  | cons y ys ih =>
      have hy := List.length_pos_of_ne_nil (h y List.mem_cons_self)
      have hys := ih fun y hy => h y (List.mem_cons_of_mem _ hy)
      rw [List.flatMap_cons, List.length_append, List.length_cons]
      omega

theorem flatMap_eq_map_iff (hlength : xs.length = ys.length) (h : ∀ y ∈ ys, f y ≠ []) :
    ys.flatMap f = xs.map g ↔ ∀ x y, (x, y) ∈ xs.zip ys → f y = [g x] := by
  induction ys generalizing xs with
  | nil => simp [List.eq_nil_of_length_eq_zero hlength]
  | cons y ys ih =>
      obtain ⟨x, xs, rfl⟩ := List.exists_cons_of_length_eq_add_one hlength
      have hlength' : xs.length = ys.length := Nat.succ.inj hlength
      have hys := fun z hz => h z (List.mem_cons_of_mem y hz)
      have hrest := length_le_flatMap hys
      obtain ⟨z, zs, hy⟩ := List.exists_cons_of_ne_nil (h y List.mem_cons_self)
      rw [List.flatMap_cons, List.map_cons, List.zip_cons_cons, hy, List.cons_append]
      constructor
      · intro heq
        obtain ⟨hz, hzs⟩ := List.cons.inj heq
        -- the other lists take all that is left, so that the first has one element only
        have hcount := congrArg List.length hzs
        rw [List.length_append, List.length_map] at hcount
        obtain rfl : zs = [] := List.eq_nil_of_length_eq_zero (by omega)
        intro x' y' hmem
        rcases List.mem_cons.1 hmem with hhead | hmem
        · cases hhead
          rw [hy, hz]
        · exact (ih hlength' hys).1 hzs x' y' hmem
      · intro hall
        have hhead := hy.symm.trans (hall x y List.mem_cons_self)
        cases hhead
        rw [(ih hlength' hys).2 fun x' y' hmem => hall x' y' (List.mem_cons_of_mem _ hmem)]
        rfl

end Assembly

theorem Scan.IsItemOf.instructions_ne_nil {o : Operator} {h : MethodHeader} {code : List Site}
    {s : Site} {k : Nat} {item : StreamItem} (hi : IsItemOf o h s k item) (hs : code[k]? = some s) :
    (Assembly.emitted code item).map (·.instruction) ≠ [] := by
  cases hi with
  | kept =>
      rw [Assembly.instructions_kept hs]
      exact List.cons_ne_nil _ _
  | @replaced p hp =>
      rw [Assembly.instructions_replaced hs]
      exact orNop_ne_nil p.replacement

namespace Engine

variable {name : String} {c : Class} {id : Identifier} {a : Application}

/-- An edit leaves the instructions as they are exactly if all that it does is to negate increments
by zero. -/
theorem edited_same (ha : applyTo name c id = .ok a) (hread : a.method.IsRead) :
    Assembly.edited a.method.code a.stream = a.method.code.map (·.instruction) ↔
      ∀ i ∈ id.indexes, id.operator = Operator.increments.id ∧
        ∃ s, a.method.code[i]? = some s ∧ s.instruction.IsZeroIncrement := by
  obtain ⟨-, o, st, ho, hv, -, -⟩ := applyTo_ok.1 ha
  have hat := replacesAt_of_applyTo ha
  have hitems := Scan.visit_isItemOf hv
  obtain ⟨hlength, hzip⟩ := List.forall₂_iff_zip.1 hitems
  have hsame {s : Site} {k : Nat} {p : Proposal} (hs : a.method.code[k]? = some s)
      (hp : o.propose (c.header a.method) s = .ok (some p)) :=
    Operator.propose_same (fun _ _ => hread.typing_of_call (List.mem_of_getElem? hs)) hp
  have hne : ∀ item ∈ a.stream,
      (Assembly.emitted a.method.code item).map (·.instruction) ≠ [] := by
    intro item hmem
    obtain ⟨d, hd, hitem⟩ := Result.exists_left_of_mem hitems hmem
    exact hitem.instructions_ne_nil (List.mem_zipIdx_iff_getElem?.1 hd)
  have hcode : a.method.code.map (·.instruction)
      = a.method.code.zipIdx.map (·.1.instruction) := by
    conv => lhs; rw [← List.zipIdx_map_fst 0 a.method.code, List.map_map]
    rfl
  rw [Assembly.edited, List.map_flatMap, hcode, Assembly.flatMap_eq_map_iff hlength hne]
  constructor
  -- an index of the identifier is where the stream has a replacement, and the other way round
  · intro hall i hi
    obtain ⟨is, hmem⟩ := (hat i).2 hi
    have hboth := List.forall₂_iff_zip.2 ⟨hlength, fun hd => And.intro (hzip hd) (hall _ _ hd)⟩
    obtain ⟨⟨s, k⟩, hd, hitem, hinstructions⟩ := Result.exists_left_of_mem hboth hmem
    have hs := List.mem_zipIdx_iff_getElem?.1 hd
    cases hitem with
    | replaced hp =>
        rw [Assembly.instructions_replaced hs] at hinstructions
        obtain ⟨rfl, hzero⟩ := (hsame hs hp).1 hinstructions
        exact ⟨id_of_ofId? ho, s, hs, hzero⟩
  · rintro hall ⟨s, k⟩ item hmem
    have hs := List.mem_zipIdx_iff_getElem?.1 (List.of_mem_zip hmem).1
    cases hzip hmem with
    | kept => exact Assembly.instructions_kept hs
    | replaced hp =>
        obtain ⟨hoperator, s', hs', hzero⟩ := hall k ((hat k).1 ⟨_, (List.of_mem_zip hmem).2⟩)
        rw [hoperator, Operator.ofId?_id] at ho
        cases ho
        cases hs.symm.trans hs'
        rw [Assembly.instructions_replaced hs]
        exact (hsame hs hp).2 ⟨rfl, hzero⟩

theorem indexes_ne_nil_of_mem_find {source : ClassSource} {settings : Settings} {className : String}
    {ds : List Details} {d : Details} (hfind : find source settings className = .ok ds)
    (hd : d ∈ ds) : d.id.indexes ≠ [] := by
  rcases find_ok.1 hfind with ⟨-, rfl⟩ | ⟨data, c, -, -, hclass⟩
  · cases hd
  · obtain ⟨m, -, o, -, hlisted, -⟩ := findInClass_listed hclass hd
    exact hlisted.nonempty

/-- What an operator proposes is not the instruction itself, and a listed mutation changes the
instructions of its method; but the negation of an increment by zero does neither. -/
theorem listed_changes (data : Bytes) (c : Class) (source : ClassSource) (settings : Settings)
    (className : String) (hparse : Class.parse data = .ok c) :
    (∀ m ∈ c.methods, ∀ s ∈ m.code, ∀ (o : Operator) (p : Proposal),
      o.propose (c.header m) s = .ok (some p) →
      (Scan.orNop p.replacement = [s.instruction] ↔
        o = .increments ∧ s.instruction.IsZeroIncrement)) ∧
    ∀ ds d p, find source settings className = .ok ds → d ∈ ds → prepare source d.id = .ok p →
      (Assembly.edited p.application.method.code p.application.stream
          = p.application.method.code.map (·.instruction) ↔
        d.id.operator = Operator.increments.id ∧ ∀ i ∈ d.id.indexes, ∃ s,
          p.application.method.code[i]? = some s ∧ s.instruction.IsZeroIncrement) := by
  refine ⟨fun m hm s hs o p hp => ?_, fun ds d p hfind hd hprepare => ?_⟩
  · have hread := Class.isRead_of_mem hparse hm
    exact Operator.propose_same (fun _ _ => hread.typing_of_call hs) hp
  · obtain ⟨found, hfound⟩ := exists_data hprepare
    obtain ⟨-, howner, ha⟩ := (prepare_ok hfound).1 hprepare
    have hm := List.mem_of_find?_eq_some (applyTo_ok.1 ha).1
    obtain ⟨i, hi⟩ := List.exists_mem_of_ne_nil _ (indexes_ne_nil_of_mem_find hfind hd)
    rw [edited_same ha (Class.isRead_of_mem howner hm)]
    exact ⟨fun hall => ⟨(hall i hi).1, fun j hj => (hall j hj).2⟩,
      fun ⟨hoperator, hall⟩ j hj => ⟨hoperator, hall j hj⟩⟩

end Engine

namespace Specimen

def idleFile : Bytes :=
  [0xca, 0xfe, 0xba, 0xbe, 0, 0, 0, 0x32, 0, 8,
    1, 0, 4, 0x43, 0x6f, 0x64, 0x65, 1, 0, 1, 0x67, 1, 0, 4, 0x28, 0x49, 0x29, 0x56,
    1, 0, 1, 0x53, 7, 0, 4, 1, 0, 1, 0x4f, 7, 0, 6,
    0, 0x21, 0, 5, 0, 7, 0, 0, 0, 0, 0, 1,
    0, 9, 0, 2, 0, 3, 0, 1, 0, 1, 0, 0, 0, 0x10, 0, 0, 0, 1,
    0, 0, 0, 4, 0x84, 0, 0, 0xb1, 0, 0, 0, 0,
    0, 0]

def idle : Method :=
  { index := 0, name := "g", descriptor := "(I)V", access := 9, codeLength := 4
    code := [⟨0, ⟨Opcode.iinc, .increment 0 0⟩, .other⟩, ⟨3, .plain Opcode.returnVoid, .other⟩]
    handlers := [], lines := [] }

def idler : Class := { owner with methods := [idle] }

def idleSource : ClassSource := fun _ => .ok (some idleFile)

def incrementing : Settings := { settings with operators := [.increments, .removeIncrements] }

theorem parse_idleFile : Class.parse idleFile = .ok idler := by decide +kernel

def negation : Details :=
  { id := ⟨⟨"S", "g", "(I)V"⟩, [0], "jmutate.operators.INCREMENTS"⟩
    description := "Changed increment from 0 to 0"
    line := none, block := 0, mutator := "INCREMENTS", filename := none }

def removal : Details :=
  { id := ⟨⟨"S", "g", "(I)V"⟩, [0], "jmutate.operators.REMOVE_INCREMENTS"⟩
    description := "Removed increment 0"
    line := none, block := 0, mutator := "REMOVE_INCREMENTS", filename := none }

def zeroIncrement : Site := ⟨0, ⟨Opcode.iinc, .increment 0 0⟩, .other⟩

theorem find_idle : Engine.find idleSource incrementing "S" = .ok [negation, removal] := by
  decide +kernel

end Specimen

namespace Engine

open Specimen

theorem removal_changes :
    Class.parse idleFile = .ok idler ∧ idle ∈ idler.methods ∧ zeroIncrement ∈ idle.code ∧
    (∃ p, Operator.removeIncrements.propose (idler.header idle) zeroIncrement = .ok (some p) ∧
      Scan.orNop p.replacement ≠ [zeroIncrement.instruction]) ∧
    find idleSource incrementing "S" = .ok [negation, removal] ∧
    ∃ p, prepare idleSource removal.id = .ok p ∧
      Assembly.edited p.application.method.code p.application.stream
        ≠ p.application.method.code.map (·.instruction) := by
  obtain ⟨hpropose, hlisted⟩ :=
    listed_changes idleFile idler idleSource incrementing "S" parse_idleFile
  have hidle : idle ∈ idler.methods := by decide
  have hsite : zeroIncrement ∈ idle.code := by decide
  have hprepared : ∃ p, prepare idleSource removal.id = .ok p ∧ p.owner = idler := by
    decide +kernel
  obtain ⟨p, hp, -⟩ := hprepared
  have hsame := hlisted _ removal p find_idle (by decide) hp
  refine ⟨parse_idleFile, hidle, hsite, ⟨_, rfl, fun heq => ?_⟩, find_idle, p, hp, fun heq => ?_⟩
  · have hproposed := hpropose idle hidle zeroIncrement hsite .removeIncrements _ rfl
    cases (hproposed.1 heq).1
  · exact absurd (hsame.1 heq).1 (by decide)

theorem negation_unchanged :
    zeroIncrement ∈ idle.code ∧
    (∃ p, Operator.increments.propose (idler.header idle) zeroIncrement = .ok (some p) ∧
      Scan.orNop p.replacement = [zeroIncrement.instruction]) ∧
    find idleSource incrementing "S" = .ok [negation, removal] ∧
    ∃ p, prepare idleSource negation.id = .ok p ∧
      Assembly.edited p.application.method.code p.application.stream
        = p.application.method.code.map (·.instruction) :=
  ⟨by decide, ⟨_, rfl, by decide⟩, find_idle, by decide +kernel⟩

end Engine

end BytecodeMutation
