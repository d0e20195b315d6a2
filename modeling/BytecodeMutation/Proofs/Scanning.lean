import BytecodeMutation.Proofs.Independence
import BytecodeMutation.Proofs.LineSearch
import BytecodeMutation.Proofs.StackEffects

namespace BytecodeMutation

namespace Result

variable {ε α β : Type}

def ofErrors (es : List ε) (a : α) : Except ε α :=
  match es with
  | [] => .ok a
  | e :: _ => .error e

theorem ofErrors_of_head? {es : List ε} {e : ε} (h : es.head? = some e) (a : α) :
    ofErrors es a = .error e := by
  cases es with
  | nil => cases h
  | cons e' es =>
      cases h
      rfl

theorem map_ofErrors (es : List ε) (a : α) (f : α → β) :
    (ofErrors es a).map f = ofErrors es (f a) := by
  cases es with
  | nil => rfl
  | cons e es => rfl

theorem mapM_ofErrors (es : α → List ε) (f : α → β) (xs : List α) :
    xs.mapM (fun x => ofErrors (es x) (f x)) = ofErrors (xs.flatMap es) (xs.map f) := by
  induction xs with
  | nil => rfl
  | cons x xs ih =>
      rw [List.mapM_cons, List.flatMap_cons, List.map_cons, ih]
      cases es x with
      | cons e es => rfl
      | nil =>
          rw [List.nil_append]
          cases xs.flatMap es with
          | nil => rfl
          | cons e es => rfl

theorem flatten_cons (ys : List β) (r : Except ε (List (List β))) :
    (r >>= fun yss => pure (ys :: yss)).map List.flatten
      = (r.map List.flatten).map (ys ++ ·) := by
  cases r with
  | error e => rfl
  | ok yss => rfl

theorem flatten_mapM_skip (p : α → Bool) (f : α → Except ε (List β)) (xs : List α) :
    (xs.mapM fun x => if p x then .ok [] else f x).map List.flatten
      = ((xs.filter fun x => !p x).mapM f).map List.flatten := by
  induction xs with
  | nil => rfl
  | cons x xs ih =>
      rw [List.mapM_cons]
      cases hx : p x with
      | true =>
          rw [List.filter_cons_of_neg (by simp [hx]), ← ih]
          cases xs.mapM fun x => if p x then .ok [] else f x with
          | error e => rfl
          | ok ys => rfl
      | false =>
          rw [List.filter_cons_of_pos (by simp [hx]), List.mapM_cons]
          cases f x with
          | error e => rfl
          | ok ys =>
              have hrest := congrArg (Except.map (ys ++ ·)) ih
              exact (flatten_cons ys _).trans (hrest.trans (flatten_cons ys _).symm)

end Result

def Operator.fault? (o : Operator) (h : MethodHeader) (s : Site) : Option Fault :=
  match o.propose h s with
  | .ok _ => none
  | .error fault => some fault

theorem Operator.Succeeds.fault?_eq_none {o : Operator} {h : MethodHeader} {s : Site}
    (ho : o.Succeeds h s) : o.fault? h s = none := by
  obtain ⟨p, hp⟩ := ho
  simp only [fault?, hp]

namespace Scan

variable (os : List Operator) (c : Class) (m : Method)

def mutationAt (s : Site) (i : Nat) (o : Operator) (p : Proposal) : Details :=
  { id := ⟨⟨c.name, m.name, m.descriptor⟩, [i], o.id⟩, description := p.description,
    line := lastLine? m.lines s.offset, block := (Blocks.ofMethod m).numberOf i,
    mutator := o.name, filename := c.sourceFile }

def proposed : List Details :=
  m.code.zipIdx.flatMap fun (s, i) =>
    os.filterMap fun o => (o.proposal? (c.header m) s).map (mutationAt c m s i o)

def failuresAt (s : Site) (i : Nat) : List EngineError :=
  os.filterMap fun o =>
    (o.fault? (c.header m) s).map (.operatorFailed o ⟨c.name, m.name, m.descriptor⟩ i)

def failures : List EngineError :=
  m.code.zipIdx.flatMap fun (s, i) => failuresAt os c m s i

variable {os c m} {b : Blocks} {before : List Site} {st : ScanState} {s : Site}

theorem failuresAt_eq_nil (h : ∀ o ∈ os, o.Succeeds (c.header m) s) (i : Nat) :
    failuresAt os c m s i = [] := by
  rw [failuresAt, List.filterMap_eq_nil_iff]
  intro o ho
  rw [(h o ho).fault?_eq_none]
  rfl

theorem failures_eq_nil (h : ∀ s ∈ m.code, ∀ o ∈ os, o.Succeeds (c.header m) s) :
    failures os c m = [] := by
  rw [failures, List.flatMap_eq_nil_iff]
  rintro ⟨s, i⟩ hs
  exact failuresAt_eq_nil (h s (List.fst_mem_of_mem_zipIdx hs)) i

theorem head?_failuresAt {e : EngineError} (h : Past c m b none before st)
    (hv : visitSite (c.header m) s st os = .error e) :
    (failuresAt os c m s st.ordinal).head? = some e := by
  induction os generalizing st with
  | nil => cases hv
  | cons o os ih =>
      simp only [visitSite] at hv
      cases hp : o.propose (c.header m) s with
      | error fault =>
          simp only [hp, h.location] at hv
          cases hv
          simp only [failuresAt, List.filterMap_cons, Operator.fault?, hp]
          rfl
      | ok q =>
          have hskip : failuresAt (o :: os) c m s st.ordinal
              = failuresAt os c m s st.ordinal := by
            simp only [failuresAt, List.filterMap_cons, Operator.fault?, hp]
            rfl
          rw [hskip]
          cases q with
          | none =>
              simp only [hp] at hv
              exact ih h hv
          | some p =>
              have hr := h.register (st.identifier o.id) p.description o.name
              simp only [hp, wants_none hr, Bool.false_eq_true, if_false] at hv
              have hrest := ih hr hv
              exact hrest

theorem head?_failuresFrom {sites : List Site} {emitted : Array StreamItem} {e : EngineError}
    (h : Past c m b none before st) (hcode : m.code = before ++ sites)
    (hv : visitFrom (c.header m) os st emitted before.length sites = .error e) :
    ((sites.zipIdx before.length).flatMap fun (s, i) => failuresAt os c m s i).head?
      = some e := by
  induction sites generalizing before st emitted with
  | nil => cases hv
  | cons s rest ih =>
      have ha := h.advance before.length s
      have hcode' : m.code = before ++ [s] ++ rest := by
        rw [hcode, List.append_assoc]
        rfl
      rw [List.zipIdx_cons, List.flatMap_cons]
      simp only [visitFrom] at hv
      split at hv
      · rename_i st' item hsite
        -- without a failure here, the first one is that of a later instruction
        obtain ⟨hos, hpast, -⟩ := visitSite_scan ha hcode rfl hsite
        have hlen : before.length + 1 = (before ++ [s]).length := by
          rw [List.length_append, List.length_singleton]
        rw [hlen] at hv ⊢
        simp only [failuresAt_eq_nil hos, List.nil_append]
        exact ih hpast hcode' hv
      · rename_i e' hsite
        cases hv
        have hfirst : (failuresAt os c m s before.length).head? = some e :=
          head?_failuresAt ha hsite
        simp only [List.head?_append, hfirst, Option.some_or]

theorem detailsAt_eq_mutationAt (h : m.IsRead) {i : Nat} (hs : m.code[i]? = some s)
    (hlines : m.lines.Pairwise fun a b => a.start ≤ b.start) (o : Operator) (p : Proposal) :
    detailsAt c m (.ofMethod m) o i p = mutationAt c m s i o p := by
  rw [detailsAt, h.lineAfter_take hs, ScanState.lineAt?_eq_lastLine? hlines]
  rfl

theorem found_eq_proposed (h : m.IsRead)
    (hlines : m.lines.Pairwise fun a b => a.start ≤ b.start) :
    found c m (.ofMethod m) os = proposed os c m := by
  rw [found, proposed]
  apply List.flatMap_congr
  rintro ⟨s, i⟩ hs
  have hget : m.code[i]? = some s := List.mem_zipIdx_iff_getElem?.1 hs
  simp only [foundAt, funext (detailsAt_eq_mutationAt h hget hlines _)]

end Scan

def ClassStructure.lineEntries (st : ClassStructure) (m : Method) : List LineEntry :=
  match st.methods[m.index]?.bind MethodEntry.code? with
  | some (_, _, attributes) => attributes.flatMap Attribute.lines
  | none => []

theorem Class.Reads.sortsStably {c : Class} {m : Method} {st : ClassStructure}
    {l : ClassFile} (h : c.Reads st l) (hm : m ∈ c.methods) :
    SortsStably (st.lineEntries m) m.lines := by
  obtain ⟨e, access, he, hread⟩ := h.exists_entry hm
  obtain ⟨-, code, handlers, attributes, hcode, -, hlines⟩ := Method.ofEntry_some.1 hread
  rw [hlines, ClassStructure.lineEntries, he, Option.bind_some, hcode]
  exact Method.sortsStably_linesOf attributes

namespace Engine

variable {s : Settings} {os : List Operator} {c : Class} {m : Method}

def searched (s : Settings) (c : Class) : List Method :=
  if s.skipsAnnotated c.annotations then [] else c.methods.filter fun m => !s.skipsMethod m.name

theorem scan_eq (h : m.IsRead) (hlines : m.lines.Pairwise fun a b => a.start ≤ b.start) :
    scan os c m = Result.ofErrors (Scan.failures os c m) (Scan.proposed os c m) := by
  cases hscan : scan os c m with
  | ok ds =>
      obtain ⟨hs, rfl⟩ := scan_ok.1 hscan
      rw [Scan.failures_eq_nil hs, Scan.found_eq_proposed h hlines]
      rfl
  | error e =>
      have hv := Result.map_error.1 (Result.map_error.1 hscan)
      exact (Result.ofErrors_of_head? (Scan.head?_failuresFrom Scan.past_start rfl hv) _).symm

theorem mem_methods_of_searched (h : m ∈ searched s c) : m ∈ c.methods := by
  unfold searched at h
  split at h
  · cases h
  · exact (List.mem_filter.1 h).1

theorem findInClass_eq_mapM : findInClass s c = ((searched s c).mapM fun m =>
    (scan s.operators c m).map (Filter.applyAll s.filterRules c m (.ofMethod m) s.filters)).map
      List.flatten := by
  unfold findInClass searched
  cases s.skipsAnnotated c.annotations with
  | true => rfl
  | false => exact Result.flatten_mapM_skip _ _ _

theorem findInClass_eq (hscan : ∀ m ∈ c.methods, scan s.operators c m
      = Result.ofErrors (Scan.failures s.operators c m) (Scan.proposed s.operators c m)) :
    findInClass s c = Result.ofErrors ((searched s c).flatMap (Scan.failures s.operators c))
      ((searched s c).flatMap fun m => Filter.applyAll s.filterRules c m (.ofMethod m) s.filters
        (Scan.proposed s.operators c m)) := by
  have hmethod : ∀ m ∈ searched s c,
      (scan s.operators c m).map (Filter.applyAll s.filterRules c m (.ofMethod m) s.filters)
        = Result.ofErrors (Scan.failures s.operators c m) (Filter.applyAll s.filterRules c m
          (.ofMethod m) s.filters (Scan.proposed s.operators c m)) := by
    intro m hm
    rw [hscan m (mem_methods_of_searched hm), Result.map_ofErrors]
  rw [findInClass_eq_mapM, Result.mapM_congr hmethod, Result.mapM_ofErrors, Result.map_ofErrors]
  rfl

/-- A search runs over the instructions of the methods in order, and at each over the operators in
theirs. It ends with the first failure; without one, the filters are handed what was proposed. The
line of an instruction is that of the last entry by its offset, in tables sorted stably. -/
theorem find_proposed (source : ClassSource) (s : Settings) (name : String) (data : Bytes)
    (c : Class) (hsource : source (ClassName.internal name) = .ok (some data))
    (hparse : Class.parse data = .ok c) :
    (∃ st, ClassStructure.read data = .ok st ∧
      ∀ m ∈ c.methods, SortsStably (st.lineEntries m) m.lines) ∧
    (∀ m ∈ c.methods, scan s.operators c m
      = Result.ofErrors (Scan.failures s.operators c m) (Scan.proposed s.operators c m)) ∧
    find source s name = Result.ofErrors
      ((searched s c).flatMap (Scan.failures s.operators c))
      ((searched s c).flatMap fun m => Filter.applyAll s.filterRules c m (.ofMethod m) s.filters
        (Scan.proposed s.operators c m)) := by
  obtain ⟨st, l, hst, -, hreads⟩ := Class.parse_iff.1 hparse
  have hsorts : ∀ m ∈ c.methods, SortsStably (st.lineEntries m) m.lines := by
    intro m hm
    exact hreads.sortsStably hm
  have hscan : ∀ m ∈ c.methods, scan s.operators c m
      = Result.ofErrors (Scan.failures s.operators c m) (Scan.proposed s.operators c m) := by
    intro m hm
    exact scan_eq (Class.isRead_of_mem hparse hm) (hsorts m hm).ascends
  refine ⟨⟨st, hst, hsorts⟩, hscan, ?_⟩
  have hread : read source (ClassName.internal name) = .ok (some data) :=
    Result.mapError_ok.2 hsource
  have hparsed : parse (ClassName.internal name) data = .ok c := Result.mapError_ok.2 hparse
  rw [← findInClass_eq hscan, find, hread]
  change (parse (ClassName.internal name) data >>= findInClass s) = _
  rw [hparsed]
  rfl

end Engine

namespace Specimen

def brokenFile : Bytes := callFile.set 52 0x51

def brokenCaller : Class :=
  { owner with methods := [{ calling with
      code := calling.code.set 2
        { callSite with symbol := .call .static ⟨"S", "h", "(IJ)Q"⟩ } }] }

def brokenTable : ClassTable := ClassTable.insert {} "S" brokenFile

theorem parse_brokenFile : Class.parse brokenFile = .ok brokenCaller := by decide +kernel

def brokenSettings : Settings :=
  { guardSettings [] with operators := [.inlineConsts, .voidMethodCalls, .nonVoidMethodCalls] }

end Specimen

open Specimen in
theorem Engine.find_proposed_guarded :
    find guardTable.source (guardSettings []) "S" = .ok guardFound ∧
    find brokenTable.source brokenSettings "S"
      = .error (.operatorFailed .nonVoidMethodCalls ⟨"S", "g", "()V"⟩ 2
        (.during (.removeCall "S" "h") (.during .parseDescriptor .descriptorType))) := by
  constructor
  · obtain ⟨-, -, hfind⟩ := find_proposed guardTable.source (guardSettings []) "S" guardFile guarded
      (by decide +kernel) parse_guardFile
    rw [hfind]
    decide +kernel
  · obtain ⟨-, -, hfind⟩ := find_proposed brokenTable.source brokenSettings "S" brokenFile
      brokenCaller (by decide +kernel) parse_brokenFile
    rw [hfind]
    decide +kernel

end BytecodeMutation
