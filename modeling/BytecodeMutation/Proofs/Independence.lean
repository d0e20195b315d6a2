import BytecodeMutation.Proofs.Suppression

namespace BytecodeMutation

def Details.isBy (o : Operator) (d : Details) : Bool := d.mutator == o.name

variable {o : Operator} {d : Details} {ds before rest : List Details} {c : Class} {m : Method}
  {b : Blocks}

namespace InlinedFinally

variable {regions : List OrdinalRange}

theorem isBy_of_areCopies {e : Details} (h : areCopies d e = true) : d.isBy o = e.isBy o := by
  simp only [Details.isBy, (areCopies_iff.1 h).2.2.1]

theorem copies_filter (hd : d.isBy o = true) : copies (ds.filter (·.isBy o)) d = copies ds d := by
  simp only [copies, List.filter_filter]
  refine List.filter_congr fun e _ => ?_
  cases h : areCopies d e with
  | false => rfl
  | true => rw [← isBy_of_areCopies h, hd, Bool.and_self]

theorem any_areCopies_filter (hd : d.isBy o = true) :
    (ds.filter (·.isBy o)).any (areCopies d) = ds.any (areCopies d) := by
  rw [List.any_filter]
  congr 1
  funext e
  cases h : areCopies d e with
  | false => rw [Bool.and_false]
  | true => rw [← isBy_of_areCopies h, hd, Bool.and_self]

theorem remaining?_filter (hd : d.isBy o = true) :
    remaining? regions b (ds.filter (·.isBy o)) (before.filter (·.isBy o)) d
      = remaining? regions b ds before d := by
  simp only [remaining?, copies_filter hd, any_areCopies_filter hd]

theorem isBy_of_remaining? {e : Details} (h : remaining? regions b ds before d = some e) :
    e.isBy o = d.isBy o := by
  unfold remaining? at h
  split at h
  · split at h
    · cases h
    · cases h
      rfl
  · cases h
    rfl

theorem filter_remaining? : (remaining? regions b ds before d).toList.filter (·.isBy o)
    = if d.isBy o then (remaining? regions b ds before d).toList else [] := by
  cases h : remaining? regions b ds before d with
  | none => simp
  | some e => cases hd : d.isBy o <;> simp [isBy_of_remaining? h, hd]

theorem filter_collapseAfter : (collapseAfter regions b ds before rest).filter (·.isBy o)
    = collapseAfter regions b (ds.filter (·.isBy o)) (before.filter (·.isBy o))
      (rest.filter (·.isBy o)) := by
  -- positions differ between the two lists, so the induction is on the mutations still to come,
  -- with those before them filtered too
  induction rest generalizing before with
  | nil => rfl
  | cons d rest ih =>
      rw [collapseAfter, List.filter_append, filter_remaining?, ih, List.filter_append]
      cases hd : d.isBy o with
      | false => simp [hd]
      | true => simp [hd, collapseAfter, remaining?_filter hd]

theorem filter_apply : (apply m b ds).filter (·.isBy o) = apply m b (ds.filter (·.isBy o)) := by
  simp only [apply, collapse_eq]
  split
  · rfl
  · exact filter_collapseAfter

end InlinedFinally

theorem Filter.filter_applyAll {f : FilterRules} {kinds : List FilterKind} :
    (applyAll f c m b kinds ds).filter (·.isBy o)
      = applyAll f c m b kinds (ds.filter (·.isBy o)) := by
  induction kinds generalizing ds with
  | nil => rfl
  | cons kind kinds ih =>
      have hstep : (apply f c m b kind ds).filter (·.isBy o)
          = apply f c m b kind (ds.filter (·.isBy o)) := by
        by_cases hkind : kind = .inlinedFinally
        · rw [hkind]
          exact InlinedFinally.filter_apply
        · rw [apply_eq_filter hkind, apply_eq_filter hkind, List.filter_filter, List.filter_filter]
          exact List.filter_congr fun d _ => Bool.and_comm _ _
      change (applyAll f c m b kinds (apply f c m b kind ds)).filter (·.isBy o) = _
      rw [ih, hstep]
      rfl

namespace Scan

variable {os : List Operator}

theorem isBy_detailsAt {o' : Operator} {i : Nat} {p : Proposal} :
    (detailsAt c m b o' i p).isBy o = (o' == o) := by
  rw [Bool.eq_iff_iff, Details.isBy, beq_iff_eq, beq_iff_eq]
  exact ⟨Operator.name_injective, congrArg Operator.name⟩

theorem filter_foundAt (s : Site) (i : Nat) :
    (foundAt c m b os s i).filter (·.isBy o) = foundAt c m b (os.filter (· == o)) s i := by
  rw [foundAt, foundAt, List.filter_filterMap, List.filterMap_filter]
  congr 1
  funext o'
  cases o'.proposal? (c.header m) s with
  | none => simp
  | some p => simp [Option.filter, isBy_detailsAt]

theorem filter_found (ho : o ∈ os) (hos : os.Nodup) :
    (found c m b os).filter (·.isBy o) = found c m b [o] := by
  have hone : os.filter (· == o) = [o] := by
    rw [List.filter_beq, List.count_eq_one_of_mem hos ho]
    rfl
  simp only [found, List.filter_flatMap, filter_foundAt, hone]

end Scan

namespace Engine

variable {s : Settings}

theorem findInMethod_single (ho : o ∈ s.operators) (hos : s.operators.Nodup)
    (h : findInMethod s c m = .ok ds) :
    findInMethod { s with operators := [o] } c m = .ok (ds.filter (·.isBy o)) := by
  rcases findInMethod_ok.1 h with ⟨hskips, rfl⟩ | ⟨hskips, hs, rfl⟩
  · exact findInMethod_ok.2 (.inl ⟨hskips, rfl⟩)
  · rw [Filter.filter_applyAll, Scan.filter_found ho hos]
    have halone : ∀ site ∈ m.code, ∀ o' ∈ [o], o'.Succeeds (c.header m) site := fun site hsite =>
      List.forall_mem_singleton.2 (hs site hsite o ho)
    exact findInMethod_ok.2 (.inr ⟨hskips, halone, rfl⟩)

theorem findInClass_single (ho : o ∈ s.operators) (hos : s.operators.Nodup)
    (h : findInClass s c = .ok ds) :
    findInClass { s with operators := [o] } c = .ok (ds.filter (·.isBy o)) := by
  rcases findInClass_ok.1 h with ⟨hskips, rfl⟩ | ⟨hskips, dss, hdss, rfl⟩
  · exact findInClass_ok.2 (.inl ⟨hskips, rfl⟩)
  · refine findInClass_ok.2 (.inr ⟨hskips, dss.map (·.filter (·.isBy o)), ?_, ?_⟩)
    · rw [Result.mapM_ok, List.forall₂_map_right_iff]
      exact (Result.mapM_ok.1 hdss).imp fun m ds hm => findInMethod_single ho hos hm
    · exact List.filter_flatten

/-- Of what is found in a class, the mutations of one operator are those that are found with this
operator alone. -/
theorem find_single (source : ClassSource) (cfg : Config) (s : Settings) (o : Operator)
    (className : String) (ds : List Details) (hresolve : cfg.resolve = .ok s)
    (ho : o ∈ s.operators) (hfind : find source s className = .ok ds) :
    find source { s with operators := [o] } className
      = .ok (ds.filter fun d => d.mutator == o.name) := by
  rcases find_ok.1 hfind with ⟨hread, rfl⟩ | ⟨data, c, hread, hparse, hclass⟩
  · exact find_ok.2 (.inl ⟨hread, rfl⟩)
  · have hsingle := findInClass_single ho (Config.nodup_operators hresolve) hclass
    exact find_ok.2 (.inr ⟨data, c, hread, hparse, hsingle⟩)

end Engine

namespace Specimen

def guardTable : ClassTable := ClassTable.insert {} "S" guardFile

theorem find_guarded (kinds : List FilterKind) :
    Engine.find guardTable.source (guardSettings kinds) "S"
      = .ok (Filter.applyAll ⟨[], [], []⟩ guarded guardMethod (.ofMethod guardMethod) kinds
        guardFound) := by
  have hread : guardTable.source (ClassName.internal "S") = .ok (some guardFile) := by
    decide +kernel
  have hmethod : Engine.findInMethod (guardSettings kinds) guarded guardMethod
      = .ok (Filter.applyAll ⟨[], [], []⟩ guarded guardMethod (.ofMethod guardMethod) kinds
        guardFound) := Result.map_ok.2 ⟨guardFound, scan_guarded, rfl⟩
  refine Engine.find_ok.2 (.inr ⟨guardFile, guarded, hread, parse_guardFile, ?_⟩)
  refine Engine.findInClass_ok.2 (.inr ⟨rfl, [_], Result.mapM_ok.2 (.cons hmethod .nil), ?_⟩)
  exact (List.append_nil _).symm

theorem find_merged : Engine.find guardTable.source (guardSettings [.inlinedFinally]) "S"
    = .ok guardMerged := by
  rw [find_guarded, ← apply_guardFound]
  rfl

end Specimen

open Specimen in
theorem Engine.find_single_multiplications :
    Engine.find guardTable.source { guardSettings [.inlinedFinally] with operators := [.math] } "S"
      = .ok [guardMerged[0]] := by
  rw [Engine.find_single guardTable.source (guardConfig ["INLINED_FINALLY"])
    (guardSettings [.inlinedFinally]) .math "S" guardMerged rfl (by decide) find_merged]
  decide +kernel

end BytecodeMutation
