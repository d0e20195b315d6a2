import BytecodeMutation.Proofs.Outlines
import BytecodeMutation.Proofs.Scanning

/-!
What ends a search for mutations. A descriptor is cut at its first closing parenthesis, which may
stand in the name of a class, and a test may be read with a wide prefix and then has no target;
no operator fails on anything else.
-/

namespace BytecodeMutation

/-- Parts between slashes, none of which is empty or holds what ends the name of a class, joins it
to that of a package, or stands for an array. -/
def IsClassName (name : List Char) : Prop :=
  ∀ part ∈ name.splitOn '/', part ≠ [] ∧ '.' ∉ part ∧ ';' ∉ part ∧ '[' ∉ part

instance : DecidablePred IsClassName := fun name =>
  inferInstanceAs (Decidable (∀ part ∈ name.splitOn '/', _))

def FieldType.IsNamed : FieldType → Prop
  | primitive _ => True
  | object name => IsClassName name.1
  | array element => element.IsNamed

instance FieldType.decidableIsNamed : DecidablePred FieldType.IsNamed
  | primitive _ => .isTrue trivial
  | object name => inferInstanceAs (Decidable (IsClassName name.1))
  | array element => element.decidableIsNamed

structure Signature.IsLegal (s : Signature) : Prop where
  named : ∀ t ∈ s.types, t.IsNamed
  dimensions : ∀ t ∈ s.types, t.dimensions ≤ 255

def Class.CallsLegally (c : Class) : Prop :=
  ∀ m ∈ c.methods, ∀ s ∈ m.code, ∀ kind r, s.symbol = .call kind r →
    ∃ sig : Signature, sig.IsLegal ∧ r.descriptor = sig.text

namespace Descriptor

variable {ts : List FieldType} {rest : List Char} {sig : Signature}

theorem readTypes_cut (h : ∃ t ∈ ts, ')' ∈ t.text) :
    readTypes ((ts.flatMap FieldType.text ++ ')' :: rest).takeWhile (· != ')'))
      = .error .unterminatedClass := by
  induction ts with
  | nil =>
      obtain ⟨t, ht, -⟩ := h
      cases ht
  | cons t ts ih =>
      rw [List.flatMap_cons, List.append_assoc]
      by_cases ht : ')' ∈ t.text
      · have hcut := readType_cut t ht (ts.flatMap FieldType.text ++ ')' :: rest)
        generalize (t.text ++ (ts.flatMap FieldType.text ++ ')' :: rest)).takeWhile (· != ')')
          = cut at hcut ⊢
        cases cut with
        | nil => cases hcut
        | cons c cut =>
            rw [readTypes.eq_2]
            split
            · rename_i hread
              cases hread.symm.trans hcut
            · rename_i e hread
              cases hread.symm.trans hcut
              rfl
      · have hrest : ∃ t ∈ ts, ')' ∈ t.text := by
          obtain ⟨t', ht', hmem⟩ := h
          rcases List.mem_cons.1 ht' with rfl | ht'
          · exact absurd hmem ht
          · exact ⟨t', ht', hmem⟩
        rw [List.takeWhile_append_of_pos (forall_bne ht), readTypes_text, ih hrest]
        rfl

theorem methodType_cut (hfits : ∀ t ∈ sig.types, t.dimensions ≤ 255)
    (h : ∃ t ∈ sig.parameters, ')' ∈ t.text) :
    methodType sig.text = .error .unterminatedClass := by
  have htext : sig.text.toList.drop 1
      = sig.parameters.flatMap FieldType.text ++ ')' :: Signature.resultText sig.result := by
    simp [Signature.text]
  simp only [methodType, check_text, if_pos hfits, htext, readTypes_cut h]
  rfl

theorem methodType_legal (h : sig.IsLegal) : methodType sig.text
    = if ∃ t ∈ sig.parameters, ')' ∈ t.text then .error .unterminatedClass
      else .ok sig.methodType := by
  by_cases hcut : ∃ t ∈ sig.parameters, ')' ∈ t.text
  · rw [if_pos hcut, methodType_cut h.dimensions hcut]
  · rw [if_neg hcut, methodType_eq sig fun t ht hmem => hcut ⟨t, ht, hmem⟩, if_pos h.dimensions]

end Descriptor

def Call.Trips (void : Bool) (s : Site) (f : Fault) : Prop :=
  ∃ kind r, ∃ sig : Signature, s.symbol = .call kind r ∧ r.name ≠ "<init>" ∧ sig.IsLegal ∧
    r.descriptor = sig.text ∧ Descriptor.isVoid r.descriptor = void ∧
    (∃ t ∈ sig.parameters, ')' ∈ t.text) ∧
    f = .during (.removeCall r.owner r.name) .unterminatedClass

def Conditional.Trips (condition : Condition) (s : Site) (f : Fault) : Prop :=
  condition? s.opcode = some condition ∧ (∃ index, s.instruction.operand = .variable index) ∧
    f = .conditionalWithoutTarget

def Operator.Trips (s : Site) (f : Fault) : Operator → Prop
  | voidMethodCalls => Call.Trips true s f
  | nonVoidMethodCalls => Call.Trips false s f
  | removeConditionals condition _ => Conditional.Trips condition s f
  | _ => False

variable {h : MethodHeader} {s : Site} {f : Fault} {o : Operator} {c : Class} {m : Method}

theorem Call.remove_error {void : Bool} (hlegal : ∀ kind r, s.symbol = .call kind r →
    ∃ sig : Signature, sig.IsLegal ∧ r.descriptor = sig.text) :
    remove void s.symbol = .error f ↔ Call.Trips void s f := by
  unfold remove Call.Trips
  split
  · rename_i kind r hsymbol
    obtain ⟨sig, hsig, htext⟩ := hlegal kind r hsymbol
    have hmethod := Descriptor.methodType_legal hsig
    rw [← htext] at hmethod
    by_cases hskip : (r.name == "<init>" || Descriptor.isVoid r.descriptor != void) = true
    · rw [if_pos hskip]
      refine ⟨nofun, ?_⟩
      rintro ⟨kind', r', -, hsymbol', hname, -, -, hvoid, -⟩
      cases hsymbol.symm.trans hsymbol'
      simp [hname, hvoid] at hskip
    · rw [if_neg hskip]
      have hasked : r.name ≠ "<init>" ∧ Descriptor.isVoid r.descriptor = void := by
        simpa using hskip
      constructor
      · intro h
        rcases Result.bind_error.1 h with h | ⟨_, -, h⟩
        · obtain ⟨f', hf', rfl⟩ := Result.mapError_error.1 h
          rw [hmethod] at hf'
          split at hf'
          · rename_i hcut
            cases hf'
            exact ⟨kind, r, sig, hsymbol, hasked.1, hsig, htext, hasked.2, hcut, rfl⟩
          · cases hf'
        · cases h
      · rintro ⟨kind', r', sig', hsymbol', -, hsig', htext', -, hcut, rfl⟩
        cases hsymbol.symm.trans hsymbol'
        rw [htext', Descriptor.methodType_cut hsig'.dimensions hcut]
        rfl
  · rename_i hnone
    refine ⟨nofun, ?_⟩
    rintro ⟨kind, r, -, hsymbol, -⟩
    exact absurd hsymbol (hnone kind r)

namespace Conditional

theorem branch_of_condition? {op : UInt8} {condition : Condition}
    (h : condition? op = some condition) : Format.ofOpcode? op = some .branch := by
  unfold condition? at h
  split at h
  all_goals first
    | rfl
    | cases h

theorem remove_error {condition : Condition} {route : Route}
    (hread : s.instruction.IsLegalWide → s.instruction.Legal) :
    remove condition route s.instruction = .error f ↔ Conditional.Trips condition s f := by
  unfold remove Conditional.Trips
  by_cases hcondition : condition? s.instruction.opcode = some condition
  · rw [if_pos hcondition]
    have hformat := branch_of_condition? hcondition
    split
    · rename_i target htarget
      refine ⟨nofun, ?_⟩
      rintro ⟨-, ⟨index, hindex⟩, -⟩
      cases htarget.symm.trans hindex
    · rename_i hother
      -- what is not read with a wide prefix is legal, and a legal test has a target
      have hwide : ∃ index, s.instruction.operand = .variable index := by
        by_contra hnone
        obtain ⟨target, htarget⟩ :=
          Instruction.exists_branch (hread fun index hindex => absurd ⟨index, hindex⟩ hnone) hformat
        exact hother target htarget
      constructor
      · intro h
        cases h
        exact ⟨hcondition, hwide, rfl⟩
      · rintro ⟨-, -, rfl⟩
        rfl
  · rw [if_neg hcondition]
    exact ⟨nofun, fun h => absurd h.1 hcondition⟩

end Conditional

theorem Operator.fault?_eq_some (hread : s.instruction.IsLegalWide → s.instruction.Legal)
    (hlegal : ∀ kind r, s.symbol = .call kind r →
      ∃ sig : Signature, sig.IsLegal ∧ r.descriptor = sig.text) :
    o.fault? h s = some f ↔ o.Trips s f := by
  have hfault : o.fault? h s = some f ↔ o.propose h s = .error f := by
    unfold fault?
    split <;> simp_all
  rw [hfault]
  cases o with
  | voidMethodCalls => exact Call.remove_error hlegal
  | nonVoidMethodCalls => exact Call.remove_error hlegal
  | removeConditionals condition route => exact Conditional.remove_error hread
  | _ => exact ⟨nofun, False.elim⟩

theorem Result.ofErrors_ok {ε α : Type} {es : List ε} {a : α} :
    (∃ b, ofErrors es a = .ok b) ↔ es = [] := by
  cases es with
  | nil => exact iff_of_true ⟨a, rfl⟩ rfl
  | cons e es => exact iff_of_false nofun nofun

theorem Result.mem_of_ofErrors {ε α : Type} {es : List ε} {a : α} {e : ε}
    (h : ofErrors es a = .error e) : e ∈ es := by
  cases es with
  | nil => cases h
  | cons e' es =>
      cases h
      exact List.mem_cons_self

theorem Scan.mem_failures {os : List Operator} {e : EngineError} : e ∈ failures os c m ↔
    ∃ i s, m.code[i]? = some s ∧ ∃ o ∈ os, ∃ f, o.fault? (c.header m) s = some f ∧
      e = .operatorFailed o ⟨c.name, m.name, m.descriptor⟩ i f := by
  simp only [failures, failuresAt, List.mem_flatMap, List.mem_filterMap, Option.map_eq_some_iff,
    Prod.exists, List.mem_zipIdx_iff_getElem?]
  constructor
  · rintro ⟨s, i, hs, o, ho, f, hf, rfl⟩
    exact ⟨i, s, hs, o, ho, f, hf, rfl⟩
  · rintro ⟨i, s, hs, o, ho, f, hf, rfl⟩
    exact ⟨s, i, hs, o, ho, f, hf, rfl⟩

namespace Engine

variable {settings : Settings} {source : ClassSource} {data : Bytes} {name : String}

theorem find_eq_findInClass (hsource : source (ClassName.internal name) = .ok (some data))
    (hparse : Class.parse data = .ok c) : find source settings name = findInClass settings c := by
  have hread : read source (ClassName.internal name) = .ok (some data) :=
    Result.mapError_ok.2 hsource
  have hparsed : parse (ClassName.internal name) data = .ok c := Result.mapError_ok.2 hparse
  rw [find, hread]
  change (parse (ClassName.internal name) data >>= findInClass settings) = _
  rw [hparsed]
  rfl

theorem findInClass_of_parse (settings : Settings) (hparse : Class.parse data = .ok c) :
    ∃ found, findInClass settings c = Result.ofErrors
      ((searched settings c).flatMap (Scan.failures settings.operators c)) found := by
  obtain ⟨st, l, -, -, hreads⟩ := Class.parse_iff.1 hparse
  exact ⟨_, findInClass_eq fun m hm =>
    scan_eq (Class.isRead_of_mem hparse hm) (hreads.sortsStably hm).ascends⟩

theorem mem_failures_searched (hparse : Class.parse data = .ok c) (hcalls : c.CallsLegally)
    {e : EngineError} : e ∈ (searched settings c).flatMap (Scan.failures settings.operators c) ↔
      ∃ m ∈ searched settings c, ∃ i s, m.code[i]? = some s ∧ ∃ o ∈ settings.operators, ∃ f,
        o.Trips s f ∧ e = .operatorFailed o ⟨c.name, m.name, m.descriptor⟩ i f := by
  rw [List.mem_flatMap]
  refine exists_congr fun m => and_congr_right fun hm => ?_
  have hmethod := mem_methods_of_searched hm
  rw [Scan.mem_failures]
  refine exists₂_congr fun i s => and_congr_right fun hs => exists_congr fun o =>
    and_congr_right fun _ => exists_congr fun f => and_congr_left fun _ => ?_
  have hsite : s ∈ m.code := List.mem_of_getElem? hs
  exact Operator.fault?_eq_some ((Class.isRead_of_mem hparse hmethod).legal hsite)
    (hcalls m hmethod s hsite)

/-- A search of a class whose calls are legal gives a result exactly if no operator fails on an
instruction of a searched method, and otherwise it ends with such a failure. An operator fails on a
call with a parameter whose class has a closing parenthesis in its name, and on a test that was read
with a wide prefix, and on nothing else. -/
theorem find_fails_at (source : ClassSource) (settings : Settings) (name : String) (data : Bytes)
    (c : Class) (hsource : source (ClassName.internal name) = .ok (some data))
    (hparse : Class.parse data = .ok c) (hcalls : c.CallsLegally) :
    ((∃ ds, find source settings name = .ok ds) ↔
      ∀ m ∈ searched settings c, ∀ s ∈ m.code, ∀ o ∈ settings.operators, ∀ f, ¬ o.Trips s f) ∧
    ∀ e, find source settings name = .error e →
      ∃ m ∈ searched settings c, ∃ i s, m.code[i]? = some s ∧ ∃ o ∈ settings.operators, ∃ f,
        o.Trips s f ∧ e = .operatorFailed o ⟨c.name, m.name, m.descriptor⟩ i f := by
  obtain ⟨found, hfound⟩ := findInClass_of_parse settings hparse
  rw [find_eq_findInClass hsource hparse, hfound]
  refine ⟨?_, fun e he => (mem_failures_searched hparse hcalls).1 (Result.mem_of_ofErrors he)⟩
  rw [Result.ofErrors_ok, List.eq_nil_iff_forall_not_mem]
  constructor
  · intro hnone m hm s hs o ho f hf
    obtain ⟨i, hi⟩ := List.getElem?_of_mem hs
    exact hnone _ ((mem_failures_searched hparse hcalls).2 ⟨m, hm, i, s, hi, o, ho, f, hf, rfl⟩)
  · intro hnone e he
    obtain ⟨m, hm, i, s, hs, o, ho, f, hf, -⟩ := (mem_failures_searched hparse hcalls).1 he
    exact hnone m hm s (List.mem_of_getElem? hs) o ho f hf

end Engine

namespace Specimen

def bare (code : List Site) (length : Nat) : Method :=
  { index := 0, name := "g", descriptor := "()V", access := 9, codeLength := length, code
    handlers := [], lines := [] }

def single (code : List Site) (length : Nat) : Class :=
  { owner with methods := [bare code length] }

def callOf (sig : Signature) (offset : Nat) : Site :=
  ⟨offset, ⟨Opcode.invokestatic, .constant 11⟩, .call .static ⟨"S", "h", sig.text⟩⟩

def everything : Settings := { guardSettings [] with operators := Operator.all }

def whole : Signature :=
  ⟨[.object ⟨"a b/c$V(".toList, by decide⟩, .array (.array (.primitive .long))],
    some (.object ⟨[')'], by decide⟩)⟩

def wholeFile : Bytes :=
  [0xca, 0xfe, 0xba, 0xbe, 0, 0, 0, 0x32, 0, 12, 1, 0, 4, 0x43, 0x6f, 0x64, 0x65, 1, 0, 1, 0x67,
    1, 0, 3, 0x28, 0x29, 0x56, 1, 0, 1, 0x53, 7, 0, 4, 1, 0, 1, 0x4f, 7, 0, 6, 1, 0, 1, 0x68, 1,
    0, 18, 0x28, 0x4c, 0x61, 0x20, 0x62, 0x2f, 0x63, 0x24, 0x56, 0x28, 0x3b, 0x5b, 0x5b, 0x4a,
    0x29, 0x4c, 0x29, 0x3b, 12, 0, 8, 0, 9, 10, 0, 5, 0, 10, 0, 0x21, 0, 5, 0, 7, 0, 0, 0,
    0, 0, 1, 0, 9, 0, 2, 0, 3, 0, 1, 0, 1, 0, 0, 0, 19, 0, 3, 0, 0, 0, 0, 0, 7, 1, 1, 0xb8, 0,
    11, 0x57, 0xb1, 0, 0, 0, 0, 0, 0]

def wholeCode : List Site :=
  [⟨0, .plain Opcode.aconstNull, .other⟩, ⟨1, .plain Opcode.aconstNull, .other⟩, callOf whole 2,
    ⟨5, .plain Opcode.pop, .other⟩, ⟨6, .plain Opcode.returnVoid, .other⟩]

def wholeCaller : Class := single wholeCode 7

def cut : Signature := ⟨[.object ⟨"a)b".toList, by decide⟩], none⟩

def cutFile : Bytes :=
  [0xca, 0xfe, 0xba, 0xbe, 0, 0, 0, 0x32, 0, 12, 1, 0, 4, 0x43, 0x6f, 0x64, 0x65, 1, 0, 1, 0x67,
    1, 0, 3, 0x28, 0x29, 0x56, 1, 0, 1, 0x53, 7, 0, 4, 1, 0, 1, 0x4f, 7, 0, 6, 1, 0, 1, 0x68, 1,
    0, 8, 0x28, 0x4c, 0x61, 0x29, 0x62, 0x3b, 0x29, 0x56, 12, 0, 8, 0, 9, 10, 0, 5, 0, 10,
    0, 0x21, 0, 5, 0, 7, 0, 0, 0, 0, 0, 1, 0, 9, 0, 2, 0, 3, 0, 1, 0, 1, 0, 0, 0, 17, 0, 3, 0,
    0, 0, 0, 0, 5, 1, 0xb8, 0, 11, 0xb1, 0, 0, 0, 0, 0, 0]

def cutCaller : Class :=
  single [⟨0, .plain Opcode.aconstNull, .other⟩, callOf cut 1,
    ⟨4, .plain Opcode.returnVoid, .other⟩] 5

def wideTest : Site := ⟨0, ⟨Opcode.ifeq, .variable 5⟩, .other⟩

def wideFile : Bytes :=
  [0xca, 0xfe, 0xba, 0xbe, 0, 0, 0, 0x32, 0, 8, 1, 0, 4, 0x43, 0x6f, 0x64, 0x65, 1, 0, 1, 0x67, 1,
    0, 3, 0x28, 0x29, 0x56, 1, 0, 1, 0x53, 7, 0, 4, 1, 0, 1, 0x4f, 7, 0, 6, 0, 0x21, 0, 5, 0, 7,
    0, 0, 0, 0, 0, 1, 0, 9, 0, 2, 0, 3, 0, 1, 0, 1, 0, 0, 0, 17, 0, 3, 0, 0, 0, 0, 0, 5, 0xc4,
    0x99, 0, 5, 0xb1, 0, 0, 0, 0, 0, 0]

def wideTester : Class := single [wideTest, ⟨4, .plain Opcode.returnVoid, .other⟩] 5

theorem parse_files : Class.parse wholeFile = .ok wholeCaller ∧
    Class.parse cutFile = .ok cutCaller ∧ Class.parse wideFile = .ok wideTester := by
  decide +kernel

theorem callsLegally_single {code : List Site} {length : Nat}
    (h : ∀ s ∈ code, s.symbol = .other ∨
      ∃ sig : Signature, sig.IsLegal ∧ ∃ offset, s = callOf sig offset) :
    (single code length).CallsLegally := by
  intro m hm s hs kind r hsymbol
  obtain rfl := List.mem_singleton.1 hm
  rcases h s hs with hother | ⟨sig, hsig, offset, rfl⟩
  · cases hother.symm.trans hsymbol
  · cases hsymbol
    exact ⟨sig, hsig, rfl⟩

theorem isLegal_whole : whole.IsLegal where
  named := by decide
  dimensions := by decide

theorem isLegal_cut : cut.IsLegal where
  named := by decide
  dimensions := by decide

theorem callsLegally_whole : wholeCaller.CallsLegally := by
  refine callsLegally_single ?_
  simp only [wholeCode, List.forall_mem_cons]
  exact ⟨.inl trivial, .inl trivial, .inr ⟨whole, isLegal_whole, 2, rfl⟩, .inl trivial,
    .inl trivial, List.forall_mem_nil _⟩

theorem callsLegally_cut : cutCaller.CallsLegally := by
  refine callsLegally_single ?_
  simp only [List.forall_mem_cons]
  exact ⟨.inl trivial, .inr ⟨cut, isLegal_cut, 1, rfl⟩, .inl trivial, List.forall_mem_nil _⟩

theorem callsLegally_wide : wideTester.CallsLegally := by
  refine callsLegally_single ?_
  simp only [List.forall_mem_cons]
  exact ⟨.inl rfl, .inl trivial, List.forall_mem_nil _⟩

theorem not_trips_whole {s : Site} (hs : s ∈ wholeCode) (o : Operator) (f : Fault) :
    ¬ o.Trips s f := by
  have hcalls : ∀ s ∈ wholeCode, ∀ call ∈ s.symbol.call?,
      Descriptor.methodType call.2.descriptor = .ok whole.methodType := by decide +kernel
  have htests : ∀ s ∈ wholeCode, Conditional.condition? s.opcode = none := by decide
  intro h
  cases o with
  | voidMethodCalls | nonVoidMethodCalls =>
      obtain ⟨kind, r, sig, hsymbol, -, hsig, htext, -, hcut, -⟩ := h
      have hmethod := hcalls s hs (kind, r) (by rw [hsymbol]; rfl)
      rw [htext, Descriptor.methodType_cut hsig.dimensions hcut] at hmethod
      cases hmethod
  | removeConditionals condition route => cases (htests s hs).symm.trans h.1
  | _ => exact h

end Specimen

open Specimen in
theorem Engine.find_fails_at_wideTest :
    (∃ ds, find (fun _ => .ok (some wholeFile)) everything "S" = .ok ds) ∧
    ¬ ∃ ds, find (fun _ => .ok (some wideFile)) everything "S" = .ok ds := by
  obtain ⟨hwhole, -⟩ := find_fails_at (fun _ => .ok (some wholeFile)) everything "S" wholeFile
    wholeCaller rfl parse_files.1 callsLegally_whole
  obtain ⟨hwide, -⟩ := find_fails_at (fun _ => .ok (some wideFile)) everything "S" wideFile
    wideTester rfl parse_files.2.2 callsLegally_wide
  constructor
  · refine hwhole.2 fun m hm s hs o _ f => not_trips_whole ?_ o f
    obtain rfl := List.mem_singleton.1 (mem_methods_of_searched hm)
    exact hs
  · intro hok
    exact hwide.1 hok _ List.mem_cons_self wideTest List.mem_cons_self
      (.removeConditionals .equality .jump) (Operator.mem_all _) _ ⟨rfl, ⟨5, rfl⟩, rfl⟩

open Specimen in
theorem Engine.find_cut : Class.parse cutFile = .ok cutCaller ∧ cutCaller.CallsLegally ∧
    find (fun _ => .ok (some cutFile)) { guardSettings [] with operators := [.nonVoidMethodCalls] }
      "S" = .error (.operatorFailed .nonVoidMethodCalls ⟨"S", "g", "()V"⟩ 1
        (.during (.removeCall "S" "h") .unterminatedClass)) :=
  ⟨parse_files.2.1, callsLegally_cut, by decide +kernel⟩

end BytecodeMutation
