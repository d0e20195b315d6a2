import BytecodeMutation.Config
import BytecodeMutation.Proofs.Results

namespace BytecodeMutation

namespace Operator

theorem nodup_resolveFrom {names : List String} {chosen os : List Operator} (hc : chosen.Nodup)
    (h : resolveFrom chosen names = .ok os) : os.Nodup := by
  induction names generalizing chosen with
  | nil =>
      cases h
      exact hc
  | cons name names ih =>
      simp only [resolveFrom] at h
      split at h
      · exact ih (nodup_addNew hc) h
      · cases h

end Operator

namespace Config

theorem nodup_addFilter {chosen : List FilterKind} (h : chosen.Nodup) (k : FilterKind) :
    (addFilter chosen k).Nodup := by
  unfold addFilter
  split
  · exact h
  · rename_i hk
    refine List.nodup_append.2 ⟨h, by simp, ?_⟩
    simp only [List.mem_singleton]
    rintro a ha b rfl rfl
    exact hk ha

theorem nodup_foldlM_addFilter {names : List String} {chosen kinds : List FilterKind}
    (hc : chosen.Nodup)
    (h : names.foldlM (fun chosen name => (FilterKind.parse name).map (addFilter chosen)) chosen
      = .ok kinds) : kinds.Nodup := by
  induction names generalizing chosen with
  | nil =>
      cases h
      exact hc
  | cons name names ih =>
      rw [List.foldlM_cons, Result.bind_ok] at h
      obtain ⟨chosen', hchosen', h⟩ := h
      obtain ⟨k, -, rfl⟩ := Result.map_ok.1 hchosen'
      exact ih (nodup_addFilter hc k) h

variable {cfg : Config} {s : Settings}

theorem nodup_operators (h : cfg.resolve = .ok s) : s.operators.Nodup := by
  simp only [resolve, Result.bind_ok, Result.pure_ok] at h
  obtain ⟨os, hos, _, -, _, -, _, -, _, -, rfl⟩ := h
  exact Operator.nodup_resolveFrom List.nodup_nil hos

theorem nodup_filters (h : cfg.resolve = .ok s) : s.filters.Nodup := by
  simp only [resolve, Result.bind_ok, Result.pure_ok] at h
  obtain ⟨_, -, kinds, hkinds, _, -, _, -, _, -, rfl⟩ := h
  have hk : kinds.Nodup := nodup_foldlM_addFilter List.nodup_nil hkinds
  split
  · exact nodup_addFilter hk .inlinedFinally
  · exact hk

end Config

namespace Filter

variable {f : FilterRules} {c : Class} {m : Method} {b : Blocks} {kind : FilterKind}
  {kinds before after : List FilterKind} {ds : List Details}

def suppresses (c : Class) (m : Method) : FilterKind → Nat → Bool
  | .enum, i => (c.header m).isImplicitInEnum && (!(c.header m).isClassInitializer
      || (EnumInitializer.range? c.name m).any (·.contains i))
  | .assert, i => (Assertions.ranges m).any (·.contains i)
  | .stringSwitch, i => (StringSwitch.ranges m).any (·.contains i)
  | _, _ => false

def dropsMethod (f : FilterRules) (c : Class) (m : Method) : FilterKind → Bool
  | .groovy => isGroovy f c
  | .bridge => isHidden f (c.header m)
  | _ => false

def keeps (f : FilterRules) (c : Class) (m : Method) (kind : FilterKind) (d : Details) : Bool :=
  !dropsMethod f c m kind && !suppresses c m kind d.firstOrdinal

theorem keeps_eq : keeps f c m kind
    = fun d => !dropsMethod f c m kind && !suppresses c m kind d.firstOrdinal := rfl

theorem keeps_iff {d : Details} : keeps f c m kind d = true ↔
    dropsMethod f c m kind = false ∧ suppresses c m kind d.firstOrdinal = false := by
  simp [keeps]

theorem apply_eq_filter (h : kind ≠ .inlinedFinally) :
    apply f c m b kind ds = ds.filter (keeps f c m kind) := by
  cases kind with
  | enum =>
      simp only [apply, dropGenerated, keeps_eq, dropsMethod, suppresses]
      cases (c.header m).isImplicitInEnum with
      | false => simp
      | true =>
          cases (c.header m).isClassInitializer with
          | false => simp
          | true =>
              cases hr : EnumInitializer.range? c.name m with
              | none => simp [dropRanges]
              | some r => simp [dropRanges]
  | assert => simp [apply, dropRanges, keeps_eq, dropsMethod, suppresses]
  | stringSwitch => simp [apply, dropRanges, keeps_eq, dropsMethod, suppresses]
  | groovy => cases hg : isGroovy f c <;> simp [apply, keeps_eq, dropsMethod, suppresses, hg]
  | bridge =>
      cases hh : isHidden f (c.header m) <;> simp [apply, keeps_eq, dropsMethod, suppresses, hh]
  | inlinedFinally => exact absurd rfl h

theorem applyAll_eq_filter (h : .inlinedFinally ∉ kinds) :
    applyAll f c m b kinds ds = ds.filter fun d => kinds.all fun k => keeps f c m k d := by
  induction kinds generalizing ds with
  | nil => simp [applyAll]
  | cons kind kinds ih =>
      obtain ⟨hkind, hkinds⟩ := List.ne_and_not_mem_of_not_mem_cons h
      change applyAll f c m b kinds (apply f c m b kind ds) = _
      rw [ih hkinds, apply_eq_filter hkind.symm, List.filter_filter]
      refine List.filter_congr fun d _ => ?_
      rw [List.all_cons, Bool.and_comm]

theorem applyAll_merge (hb : .inlinedFinally ∉ before) (ha : .inlinedFinally ∉ after) :
    applyAll f c m b (before ++ .inlinedFinally :: after) ds
      = (InlinedFinally.apply m b (ds.filter fun d => before.all fun k => keeps f c m k d)).filter
        fun d => after.all fun k => keeps f c m k d := by
  rw [← applyAll_eq_filter (b := b) ha, ← applyAll_eq_filter (b := b) hb]
  simp only [applyAll, List.foldl_append, List.foldl_cons]
  rfl

end Filter

end BytecodeMutation
