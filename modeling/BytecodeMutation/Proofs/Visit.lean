import BytecodeMutation.Scan
import BytecodeMutation.Proofs.Results

namespace BytecodeMutation

def Operator.Succeeds (o : Operator) (h : MethodHeader) (s : Site) : Prop :=
  ∃ p, o.propose h s = .ok p

def Operator.proposal? (o : Operator) (h : MethodHeader) (s : Site) : Option Proposal :=
  match o.propose h s with
  | .ok p => p
  | .error _ => none

theorem Operator.propose_of_proposal? {o : Operator} {h : MethodHeader} {s : Site} {p : Proposal}
    (hp : o.proposal? h s = some p) : o.propose h s = .ok (some p) := by
  unfold Operator.proposal? at hp
  split at hp
  · rename_i q hq
    rw [hq, hp]
  · cases hp

theorem Operator.proposal?_of_propose {o : Operator} {h : MethodHeader} {s : Site}
    {p : Option Proposal} (hp : o.propose h s = .ok p) : o.proposal? h s = p := by
  simp only [Operator.proposal?, hp]

namespace Scan

def lineAfter (lines : Array LineEntry) (sites : List Site) : Option Nat :=
  sites.foldl (fun line s => (ScanState.lineAt? lines s.offset).or line) none

theorem lineAfter_concat (lines : Array LineEntry) (sites : List Site) (s : Site) :
    lineAfter lines (sites ++ [s])
      = (ScanState.lineAt? lines s.offset).or (lineAfter lines sites) := by
  simp [lineAfter]

variable (c : Class) (m : Method) (b : Blocks)

def detailsAt (o : Operator) (ordinal : Nat) (p : Proposal) : Details :=
  { id := .single (c.header m).location ordinal o.id, description := p.description,
    line := lineAfter m.lines.toArray (m.code.take (ordinal + 1)), block := b.numberOf ordinal,
    mutator := o.name, filename := c.sourceFile }

@[simp] theorem firstOrdinal_detailsAt (o : Operator) (ordinal : Nat) (p : Proposal) :
    (detailsAt c m b o ordinal p).firstOrdinal = ordinal := rfl

def foundAt (os : List Operator) (s : Site) (ordinal : Nat) : List Details :=
  os.filterMap fun o => (o.proposal? (c.header m) s).map (detailsAt c m b o ordinal)

def found (os : List Operator) : List Details :=
  m.code.zipIdx.flatMap fun (s, ordinal) => foundAt c m b os s ordinal

def itemAt (o : Operator) (indexes : List Nat) (s : Site) (ordinal : Nat) : StreamItem :=
  match o.proposal? (c.header m) s with
  | some p => if ordinal ∈ indexes then .replaced ordinal (orNop p.replacement) else .kept ordinal
  | none => .kept ordinal

structure Past (target : Option Identifier) (before : List Site) (st : ScanState) : Prop where
  location : st.location = (c.header m).location
  filename : st.filename = c.sourceFile
  lines : st.lines = m.lines.toArray
  blocks : st.blocks = b
  target : st.target = target
  line : st.line = lineAfter m.lines.toArray before

variable {c m b} {target : Option Identifier} {before : List Site} {st : ScanState}

theorem Past.advance (h : Past c m b target before st) (ordinal : Nat) (s : Site) :
    Past c m b target (before ++ [s]) (st.advance ordinal s.offset) where
  location := h.location
  filename := h.filename
  lines := h.lines
  blocks := h.blocks
  target := h.target
  line := by
    rw [lineAfter_concat, ← h.line, ← h.lines]
    rfl

theorem Past.register (h : Past c m b target before st) (id : Identifier) (text name : String) :
    Past c m b target before (st.register id text name) :=
  ⟨h.location, h.filename, h.lines, h.blocks, h.target, h.line⟩

theorem Past.markApplied (h : Past c m b target before st) (id : Identifier) :
    Past c m b target before (st.markApplied id) :=
  ⟨h.location, h.filename, h.lines, h.blocks, h.target, h.line⟩

theorem Past.detailsOf {rest : List Site} {s : Site} (h : Past c m b target (before ++ [s]) st)
    (hcode : m.code = before ++ s :: rest) (hordinal : st.ordinal = before.length)
    (o : Operator) (p : Proposal) :
    st.detailsOf (st.identifier o.id) p.description o.name = detailsAt c m b o before.length p := by
  have htake : m.code.take (before.length + 1) = before ++ [s] := by
    rw [hcode, List.take_length_add_append]
    rfl
  simp only [ScanState.detailsOf, ScanState.identifier, detailsAt, h.location, h.filename,
    h.blocks, h.line, hordinal, htake]
  rfl

theorem wants_none (h : Past c m b none before st) (id : Identifier) : st.wants id = false := by
  simp [ScanState.wants, h.target]

theorem visitSite_scan {os : List Operator} {s : Site} {rest : List Site} {st' : ScanState}
    {item : StreamItem} (h : Past c m b none (before ++ [s]) st)
    (hcode : m.code = before ++ s :: rest) (hordinal : st.ordinal = before.length)
    (hv : visitSite (c.header m) s st os = .ok (st', item)) :
    (∀ o ∈ os, o.Succeeds (c.header m) s) ∧ Past c m b none (before ++ [s]) st' ∧
      st'.mutations.toList = st.mutations.toList ++ foundAt c m b os s before.length := by
  induction os generalizing st with
  | nil =>
      simp only [visitSite, Except.ok.injEq, Prod.mk.injEq] at hv
      obtain ⟨rfl, -⟩ := hv
      exact ⟨by simp, h, by simp [foundAt]⟩
  | cons o os ih =>
      simp only [visitSite] at hv
      cases hp : o.propose (c.header m) s with
      | error e => simp [hp] at hv
      | ok q =>
          have hq := Operator.proposal?_of_propose hp
          cases q with
          | none =>
              simp only [hp] at hv
              obtain ⟨hos, hpast, hmut⟩ := ih h hordinal hv
              refine ⟨List.forall_mem_cons.2 ⟨⟨_, hp⟩, hos⟩, hpast, ?_⟩
              simpa [foundAt, hq] using hmut
          | some p =>
              have hr := h.register (st.identifier o.id) p.description o.name
              simp only [hp, wants_none hr, Bool.false_eq_true, if_false] at hv
              obtain ⟨hos, hpast, hmut⟩ := ih hr hordinal hv
              refine ⟨List.forall_mem_cons.2 ⟨⟨_, hp⟩, hos⟩, hpast, ?_⟩
              rw [hmut]
              simp [foundAt, hq, ScanState.register, h.detailsOf hcode hordinal]

theorem visitFrom_scan {os : List Operator} {sites : List Site} {st' : ScanState}
    {emitted items : Array StreamItem} (h : Past c m b none before st)
    (hcode : m.code = before ++ sites)
    (hv : visitFrom (c.header m) os st emitted before.length sites = .ok (st', items)) :
    (∀ s ∈ sites, ∀ o ∈ os, o.Succeeds (c.header m) s) ∧
      st'.mutations.toList = st.mutations.toList
        ++ (sites.zipIdx before.length).flatMap fun (s, i) => foundAt c m b os s i := by
  induction sites generalizing before st emitted with
  | nil =>
      simp only [visitFrom, Except.ok.injEq, Prod.mk.injEq] at hv
      obtain ⟨rfl, -⟩ := hv
      simp
  | cons s rest ih =>
      simp only [visitFrom] at hv
      split at hv
      · rename_i st₁ item hs
        have ha := h.advance before.length s
        obtain ⟨hos, hpast, hmut⟩ := visitSite_scan ha hcode rfl hs
        have hlen : before.length + 1 = (before ++ [s]).length := by simp
        rw [hlen] at hv
        obtain ⟨hrest, hmuts⟩ := ih hpast (by simp [hcode]) hv
        refine ⟨List.forall_mem_cons.2 ⟨hos, hrest⟩, ?_⟩
        rw [hmuts, hmut]
        simp [List.zipIdx_cons, ScanState.advance]
      · simp at hv

def start (c : Class) (m : Method) (b : Blocks) (target : Option Identifier) : ScanState :=
  { location := (c.header m).location, filename := c.sourceFile, lines := m.lines.toArray,
    blocks := b, target := target }

theorem visit_ok {os : List Operator} {st : ScanState} {items : List StreamItem} :
    visit c m b os target = .ok (st, items) ↔
      ∃ emitted, visitFrom (c.header m) os (start c m b target) #[] 0 m.code = .ok (st, emitted)
        ∧ emitted.toList = items := by
  change (Except.map _ (visitFrom (c.header m) os (start c m b target) #[] 0 m.code)) = _ ↔ _
  rw [Result.map_ok]
  constructor
  · rintro ⟨⟨st', emitted⟩, hv, he⟩
    cases he
    exact ⟨emitted, hv, rfl⟩
  · rintro ⟨emitted, hv, rfl⟩
    exact ⟨_, hv, rfl⟩

theorem past_start : Past c m b target [] (start c m b target) :=
  ⟨rfl, rfl, rfl, rfl, rfl, rfl⟩

theorem visit_scan {os : List Operator} {st : ScanState} {items : List StreamItem}
    (hv : visit c m b os none = .ok (st, items)) :
    (∀ s ∈ m.code, ∀ o ∈ os, o.Succeeds (c.header m) s) ∧
      st.mutations.toList = found c m b os := by
  obtain ⟨emitted, hv, -⟩ := visit_ok.1 hv
  simpa [found, start] using visitFrom_scan past_start (by simp) hv

theorem visitSite_total {h : MethodHeader} {os : List Operator} {s : Site} {st : ScanState}
    (hs : ∀ o ∈ os, o.Succeeds h s) : ∃ r, visitSite h s st os = .ok r := by
  induction os generalizing st with
  | nil => exact ⟨_, rfl⟩
  | cons o os ih =>
      obtain ⟨⟨p, hp⟩, hos⟩ := List.forall_mem_cons.1 hs
      simp only [visitSite, hp]
      cases p with
      | none => exact ih hos
      | some p =>
          dsimp only
          split
          · exact ⟨_, rfl⟩
          · exact ih hos

theorem visitFrom_total {h : MethodHeader} {os : List Operator} {sites : List Site}
    {st : ScanState} {emitted : Array StreamItem} {k : Nat}
    (hs : ∀ s ∈ sites, ∀ o ∈ os, o.Succeeds h s) :
    ∃ r, visitFrom h os st emitted k sites = .ok r := by
  induction sites generalizing st emitted k with
  | nil => exact ⟨_, rfl⟩
  | cons s rest ih =>
      obtain ⟨hos, hrest⟩ := List.forall_mem_cons.1 hs
      obtain ⟨⟨st', item⟩, hsite⟩ := @visitSite_total _ _ _ (st.advance k s.offset) hos
      simp only [visitFrom, hsite]
      exact ih hrest

theorem visit_total {os : List Operator}
    (hs : ∀ s ∈ m.code, ∀ o ∈ os, o.Succeeds (c.header m) s) :
    ∃ st items, visit c m b os target = .ok (st, items) := by
  obtain ⟨⟨st, emitted⟩, hv⟩ := @visitFrom_total _ _ _ (start c m b target) #[] 0 hs
  exact ⟨st, emitted.toList, visit_ok.2 ⟨emitted, hv, rfl⟩⟩

theorem visitSite_error {h : MethodHeader} {os : List Operator} {s : Site} {st : ScanState}
    {e : EngineError} (hv : visitSite h s st os = .error e) :
    ∃ o l i fault, e = .operatorFailed o l i fault := by
  induction os generalizing st with
  | nil => cases hv
  | cons o os ih =>
      simp only [visitSite] at hv
      split at hv
      · cases hv
        exact ⟨_, _, _, _, rfl⟩
      · exact ih hv
      · split at hv
        · cases hv
        · exact ih hv

theorem visitFrom_error {h : MethodHeader} {os : List Operator} {sites : List Site}
    {st : ScanState} {emitted : Array StreamItem} {k : Nat} {e : EngineError}
    (hv : visitFrom h os st emitted k sites = .error e) :
    ∃ o l i fault, e = .operatorFailed o l i fault := by
  induction sites generalizing st emitted k with
  | nil => cases hv
  | cons s rest ih =>
      simp only [visitFrom] at hv
      split at hv
      · exact ih hv
      · rename_i hsite
        cases hv
        exact visitSite_error hsite

theorem visit_error {os : List Operator} {e : EngineError}
    (hv : visit c m b os target = .error e) : ∃ o l i fault, e = .operatorFailed o l i fault :=
  visitFrom_error (Result.map_error.1 hv)

section Target

variable {o : Operator} {t : Identifier}

theorem wants_target {i : Nat} (h : Past c m b (some t) before st)
    (hloc : t.location = (c.header m).location) (hop : t.operator = o.id)
    (hfresh : i ∉ st.applied) :
    st.wants (.single (c.header m).location i o.id) = decide (i ∈ t.indexes) := by
  have hc : t.covers (.single (c.header m).location i o.id) = decide (i ∈ t.indexes) := by
    simp [Identifier.covers, Identifier.single, Identifier.firstOrdinal, hloc, hop]
  have hf : (Identifier.single (c.header m).location i o.id).firstOrdinal = i := rfl
  simp [ScanState.wants, h.target, hc, hf, hfresh]

theorem visitSite_target {s : Site} {rest : List Site} {st' : ScanState} {item : StreamItem}
    (h : Past c m b (some t) (before ++ [s]) st) (hcode : m.code = before ++ s :: rest)
    (hordinal : st.ordinal = before.length) (hloc : t.location = (c.header m).location)
    (hop : t.operator = o.id) (hfresh : before.length ∉ st.applied)
    (hv : visitSite (c.header m) s st [o] = .ok (st', item)) :
    o.Succeeds (c.header m) s ∧ Past c m b (some t) (before ++ [s]) st' ∧
      st'.mutations.toList = st.mutations.toList ++ foundAt c m b [o] s before.length ∧
      item = itemAt c m o t.indexes s before.length ∧
      ∀ i, i ∈ st'.applied ↔ i ∈ st.applied ∨
        (i = before.length ∧ i ∈ t.indexes ∧ (o.proposal? (c.header m) s).isSome) := by
  have hid : st.identifier o.id = .single (c.header m).location before.length o.id := by
    simp [ScanState.identifier, h.location, hordinal]
  simp only [visitSite] at hv
  cases hp : o.propose (c.header m) s with
  | error e => simp [hp] at hv
  | ok q =>
      have hq := Operator.proposal?_of_propose hp
      cases q with
      | none =>
          simp only [hp, Except.ok.injEq, Prod.mk.injEq] at hv
          obtain ⟨rfl, rfl⟩ := hv
          exact ⟨⟨_, hp⟩, h, by simp [foundAt, hq], by simp [itemAt, hq, hordinal], by simp [hq]⟩
      | some p =>
          have hr := h.register (st.identifier o.id) p.description o.name
          have hm : (st.register (st.identifier o.id) p.description o.name).mutations.toList
              = st.mutations.toList ++ foundAt c m b [o] s before.length := by
            simp [foundAt, hq, ScanState.register, h.detailsOf hcode hordinal]
          rw [hid] at hr hm
          simp only [hp, hid, wants_target hr hloc hop hfresh, decide_eq_true_eq] at hv
          split at hv
          · rename_i hi
            simp only [Except.ok.injEq, Prod.mk.injEq] at hv
            obtain ⟨rfl, rfl⟩ := hv
            refine ⟨⟨_, hp⟩, hr.markApplied _, hm, ?_, ?_⟩
            · simp [itemAt, hq, hi, ScanState.register, hordinal]
            · intro i
              simp only [ScanState.markApplied, ScanState.register, Identifier.single,
                Identifier.firstOrdinal, List.headD_cons, List.mem_cons, hq, Option.isSome_some,
                and_true]
              grind
          · rename_i hi
            simp only [Except.ok.injEq, Prod.mk.injEq] at hv
            obtain ⟨rfl, rfl⟩ := hv
            refine ⟨⟨_, hp⟩, hr, hm, ?_, ?_⟩
            · simp [itemAt, hq, hi, ScanState.register, hordinal]
            · intro i
              simp only [ScanState.register]
              grind

theorem visitFrom_target {sites : List Site} {st' : ScanState} {emitted items : Array StreamItem}
    (h : Past c m b (some t) before st) (hcode : m.code = before ++ sites)
    (hloc : t.location = (c.header m).location) (hop : t.operator = o.id)
    (hfresh : ∀ i ∈ st.applied, i < before.length)
    (hv : visitFrom (c.header m) [o] st emitted before.length sites = .ok (st', items)) :
    (∀ s ∈ sites, o.Succeeds (c.header m) s) ∧ st'.target = some t ∧
      st'.mutations.toList = st.mutations.toList
        ++ ((sites.zipIdx before.length).flatMap fun (s, i) => foundAt c m b [o] s i) ∧
      items.toList = emitted.toList
        ++ ((sites.zipIdx before.length).map fun (s, i) => itemAt c m o t.indexes s i) ∧
      ∀ i, i ∈ st'.applied ↔ i ∈ st.applied ∨ i ∈ t.indexes ∧
        ∃ s, (s, i) ∈ sites.zipIdx before.length ∧ (o.proposal? (c.header m) s).isSome := by
  induction sites generalizing before st emitted with
  | nil =>
      simp only [visitFrom, Except.ok.injEq, Prod.mk.injEq] at hv
      obtain ⟨rfl, rfl⟩ := hv
      simp [h.target]
  | cons s rest ih =>
      simp only [visitFrom] at hv
      split at hv
      · rename_i st₁ item hs
        have ha := h.advance before.length s
        have hn : before.length ∉ (st.advance before.length s.offset).applied :=
          fun hmem => Nat.lt_irrefl _ (hfresh _ hmem)
        obtain ⟨hos, hpast, hmut, hitem, happ⟩ := visitSite_target ha hcode rfl hloc hop hn hs
        have hlen : before.length + 1 = (before ++ [s]).length := by simp
        rw [hlen] at hv
        have hfresh₁ : ∀ i ∈ st₁.applied, i < (before ++ [s]).length := by
          intro i hi
          rw [← hlen]
          rcases (happ i).1 hi with hi | ⟨rfl, -⟩
          · exact Nat.lt_succ_of_lt (hfresh i hi)
          · exact Nat.lt_succ_self _
        obtain ⟨hrest, htarget, hmuts, hitems, happs⟩ := ih hpast (by simp [hcode]) hfresh₁ hv
        refine ⟨List.forall_mem_cons.2 ⟨hos, hrest⟩, htarget, ?_, ?_, ?_⟩
        · rw [hmuts, hmut]
          simp [List.zipIdx_cons, ScanState.advance]
        · rw [hitems, hitem]
          simp [List.zipIdx_cons]
        · intro i
          rw [happs, happ]
          simp only [List.zipIdx_cons, List.mem_cons, ← hlen, ScanState.advance, Prod.mk.injEq]
          grind
      · simp at hv

theorem visit_target {st : ScanState} {items : List StreamItem}
    (hloc : t.location = (c.header m).location) (hop : t.operator = o.id)
    (hv : visit c m b [o] (some t) = .ok (st, items)) :
    (∀ s ∈ m.code, o.Succeeds (c.header m) s) ∧ st.target = some t ∧
      st.mutations.toList = found c m b [o] ∧
      items = (m.code.zipIdx.map fun (s, i) => itemAt c m o t.indexes s i) ∧
      ∀ i, i ∈ st.applied ↔ i ∈ t.indexes ∧
        ∃ s, m.code[i]? = some s ∧ (o.proposal? (c.header m) s).isSome := by
  obtain ⟨emitted, hf, rfl⟩ := visit_ok.1 hv
  obtain ⟨hs, ht, hm, hi, ha⟩ := visitFrom_target past_start (by simp) hloc hop (by simp [start]) hf
  refine ⟨hs, ht, by simpa [found, start] using hm, by simpa using hi, fun i => ?_⟩
  simpa [start, List.mem_zipIdx_iff_getElem?] using ha i

end Target

theorem mem_found {os : List Operator} {d : Details} :
    d ∈ found c m b os ↔ ∃ i s o p, m.code[i]? = some s ∧ o ∈ os ∧
      o.proposal? (c.header m) s = some p ∧ d = detailsAt c m b o i p := by
  simp only [found, foundAt, List.mem_flatMap, List.mem_filterMap, Option.map_eq_some_iff,
    Prod.exists, List.mem_zipIdx_iff_getElem?]
  constructor
  · rintro ⟨s, i, hs, o, ho, p, hp, rfl⟩
    exact ⟨i, s, o, p, hs, ho, hp, rfl⟩
  · rintro ⟨i, s, o, p, hs, ho, hp, rfl⟩
    exact ⟨s, i, hs, o, ho, p, hp, rfl⟩

theorem find?_found {o : Operator} {i : Nat} {s : Site} {p : Proposal} (hs : m.code[i]? = some s)
    (hp : o.proposal? (c.header m) s = some p) :
    (found c m b [o]).find? (fun d => d.firstOrdinal == i) = some (detailsAt c m b o i p) := by
  have hmem : detailsAt c m b o i p ∈ found c m b [o] :=
    mem_found.2 ⟨i, s, o, p, hs, List.mem_singleton_self o, hp, rfl⟩
  cases hf : (found c m b [o]).find? (fun d => d.firstOrdinal == i) with
  | none =>
      simpa using List.find?_eq_none.1 hf _ hmem
  | some d =>
      obtain ⟨j, s', o', p', hs', ho, hp', rfl⟩ := mem_found.1 (List.mem_of_find?_eq_some hf)
      obtain rfl : j = i := by simpa using List.find?_some hf
      obtain rfl := List.mem_singleton.1 ho
      obtain rfl : s' = s := Option.some.inj (hs'.symm.trans hs)
      rw [Option.some.inj (hp'.symm.trans hp)]

end Scan

end BytecodeMutation
