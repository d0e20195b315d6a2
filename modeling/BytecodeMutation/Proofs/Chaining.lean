import BytecodeMutation.Proofs.Suppression

namespace BytecodeMutation

namespace Filter

def applyWhileAny (f : FilterRules) (c : Class) (m : Method) (blocks : Blocks) :
    List FilterKind → List Details → List Details
  | [], ds => ds
  | kind :: kinds, ds =>
      if ds.isEmpty then ds else applyWhileAny f c m blocks kinds (apply f c m blocks kind ds)

variable {f : FilterRules} {c : Class} {m : Method} {b : Blocks} {k : FilterKind}
  {kinds : List FilterKind} {d : Details} {ds : List Details}

theorem apply_nil (k : FilterKind) : apply f c m b k [] = [] := by
  by_cases hk : k = .inlinedFinally
  · subst hk
    simp only [apply, InlinedFinally.apply]
    split
    · rfl
    · rfl
  · rw [apply_eq_filter hk]
    rfl

theorem applyAll_nil (kinds : List FilterKind) : applyAll f c m b kinds [] = [] := by
  induction kinds with
  | nil => rfl
  | cons k kinds ih =>
      change applyAll f c m b kinds (apply f c m b k []) = []
      rw [apply_nil, ih]

theorem applyWhileAny_eq (kinds : List FilterKind) (ds : List Details) :
    applyWhileAny f c m b kinds ds = applyAll f c m b kinds ds := by
  induction kinds generalizing ds with
  | nil => rfl
  | cons k kinds ih =>
      cases ds with
      | nil => exact (applyAll_nil (k :: kinds)).symm
      | cons d ds => exact ih (apply f c m b k (d :: ds))

theorem mem_apply (hk : k ≠ .inlinedFinally) :
    d ∈ apply f c m b k ds ↔ d ∈ ds ∧ keeps f c m k d = true := by
  rw [apply_eq_filter hk, List.mem_filter]

theorem all_keeps_iff_mem (hm : .inlinedFinally ∉ kinds) (hd : d ∈ ds) :
    (kinds.all fun k => keeps f c m k d) = true ↔ ∀ k ∈ kinds, d ∈ apply f c m b k ds := by
  rw [List.all_eq_true]
  refine forall₂_congr fun k hk => ?_
  have hne : k ≠ .inlinedFinally := fun h => hm (h ▸ hk)
  rw [mem_apply hne, and_iff_right hd]

theorem applyAll_eq_filter_mem (hm : .inlinedFinally ∉ kinds) :
    applyAll f c m b kinds ds = ds.filter fun d => ∀ k ∈ kinds, d ∈ apply f c m b k ds := by
  rw [applyAll_eq_filter hm]
  refine List.filter_congr fun d hd => ?_
  rw [Bool.eq_iff_iff, decide_eq_true_iff]
  exact all_keeps_iff_mem hm hd

theorem applyAll_applyAll (hm : .inlinedFinally ∉ kinds) :
    applyAll f c m b kinds (applyAll f c m b kinds ds) = applyAll f c m b kinds ds := by
  rw [applyAll_eq_filter hm, applyAll_eq_filter hm, List.filter_filter]
  refine List.filter_congr fun d _ => ?_
  exact Bool.and_self _

theorem applyAll_pointwise (f : FilterRules) (c : Class) (m : Method) (b : Blocks)
    (kinds kinds' : List FilterKind) (ds : List Details) (hm : .inlinedFinally ∉ kinds)
    (hsame : ∀ k, k ∈ kinds ↔ k ∈ kinds') :
    applyAll f c m b kinds ds = applyAll f c m b kinds' ds ∧
    applyWhileAny f c m b kinds ds = applyAll f c m b kinds ds ∧
    (applyAll f c m b kinds ds).Sublist ds ∧
    applyAll f c m b kinds ds = (ds.filter fun d => ∀ k ∈ kinds, d ∈ apply f c m b k ds) ∧
    applyAll f c m b kinds (applyAll f c m b kinds ds) = applyAll f c m b kinds ds := by
  have hm' : .inlinedFinally ∉ kinds' := fun h => hm ((hsame _).2 h)
  have heq : applyAll f c m b kinds ds
      = ds.filter fun d => ∀ k ∈ kinds, d ∈ apply f c m b k ds := applyAll_eq_filter_mem hm
  refine ⟨?_, applyWhileAny_eq kinds ds, ?_, heq, applyAll_applyAll hm⟩
  · rw [heq, applyAll_eq_filter_mem hm']
    simp only [hsame]
  · rw [heq]
    exact List.filter_sublist

end Filter

open Specimen in
theorem Filter.applyAll_pointwise_assert :
    applyAll ⟨[], [], []⟩ guarded guardMethod (.ofMethod guardMethod) [.assert, .enum, .assert]
        guardFound
      = applyAll ⟨[], [], []⟩ guarded guardMethod (.ofMethod guardMethod) [.enum, .assert]
        guardFound ∧
    applyAll ⟨[], [], []⟩ guarded guardMethod (.ofMethod guardMethod) [.assert, .enum, .assert]
        guardFound = [guardFound[0], guardFound[3]] := by
  obtain ⟨hsame, -, -, hkept, -⟩ := applyAll_pointwise ⟨[], [], []⟩ guarded guardMethod
    (.ofMethod guardMethod) [.assert, .enum, .assert] [.enum, .assert] guardFound (by decide)
    (fun k => by cases k <;> decide)
  refine ⟨hsame, ?_⟩
  rw [hkept]
  decide +kernel

end BytecodeMutation
