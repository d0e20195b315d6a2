import Mathlib.Data.List.TakeWhile
import BytecodeMutation.Proofs.Descriptors

namespace BytecodeMutation

def FieldType.dimensions : FieldType → Nat
  | primitive _ => 0
  | object _ => 0
  | array element => element.dimensions + 1

namespace Signature

def types (s : Signature) : List FieldType := s.parameters ++ s.result.toList

end Signature

namespace Descriptor

variable {rest : List Char} {ts : List FieldType} {d : String} {type : MethodType}

theorem skipType_text (t : FieldType) {n : Nat} (hn : n ≤ 255) (rest : List Char) :
    skipType n (t.text ++ rest)
      = if n + t.dimensions ≤ 255 then .ok rest else .error .descriptorDimensions := by
  induction t generalizing n with
  | primitive type =>
      refine Eq.trans ?_ (if_pos hn).symm
      cases type <;> rfl
  | object name =>
      have hafter : after? ';' (name.1 ++ [';'] ++ rest) = some rest := by
        rw [List.append_assoc]
        exact after?_append name.2
      refine Eq.trans ?_ (if_pos hn).symm
      simp only [FieldType.text, List.cons_append, skipType, hafter]
  | array element ih =>
      have hdimensions : n + element.array.dimensions = n + 1 + element.dimensions := by
        rw [FieldType.dimensions]
        omega
      rw [hdimensions]
      simp only [FieldType.text, List.cons_append, skipType]
      -- the bracket itself is refused after 255 others, before its element is looked at
      by_cases hlast : n < 255
      · rw [if_pos hlast, ih hlast]
      · rw [if_neg hlast, if_neg (by omega)]

theorem skipType_zero (t : FieldType) (rest : List Char) : skipType 0 (t.text ++ rest)
    = if t.dimensions ≤ 255 then .ok rest else .error .descriptorDimensions := by
  rw [skipType_text t (Nat.zero_le 255) rest, Nat.zero_add]

theorem checkTypes_text (t : FieldType) (rest : List Char) :
    checkTypes (t.text ++ rest)
      = if t.dimensions ≤ 255 then checkTypes rest else .error .descriptorDimensions := by
  have hskip := skipType_zero t rest
  obtain ⟨c, s, hs⟩ : ∃ c s, t.text ++ rest = c :: s := by
    cases t <;> exact ⟨_, _, rfl⟩
  have hc : c ≠ ')' := by
    rintro rfl
    exact text_append_ne t rest s hs
  rw [hs] at hskip ⊢
  rw [checkTypes.eq_4 c s (fun _ h _ => hc h) hc]
  by_cases hfits : t.dimensions ≤ 255
  · rw [if_pos hfits] at hskip ⊢
    split
    · rename_i r h
      cases hskip.symm.trans h
      rfl
    · rename_i e h
      cases hskip.symm.trans h
  · rw [if_neg hfits] at hskip ⊢
    split
    · rename_i r h
      cases hskip.symm.trans h
    · rename_i e h
      cases hskip.symm.trans h
      rfl

theorem checkTypes_result (r : Option FieldType) :
    checkTypes (')' :: Signature.resultText r)
      = if ∀ t ∈ r.toList, t.dimensions ≤ 255 then .ok () else .error .descriptorDimensions := by
  cases r with
  | none =>
      rw [if_pos (by simp), checkTypes.eq_3 _ (by simp [Signature.resultText])]
      rfl
  | some t =>
      have hskip := skipType_zero t []
      have hhead : ∀ tail, t.text = ')' :: tail → False := by
        intro tail htail
        exact text_append_ne t [] tail (by rw [List.append_nil, htail])
      rw [List.append_nil] at hskip
      rw [Signature.resultText, checkTypes.eq_3 _ hhead, hskip]
      simp only [Option.toList_some, List.mem_singleton, forall_eq]
      by_cases hfits : t.dimensions ≤ 255
      · rw [if_pos hfits, if_pos hfits]
        rfl
      · rw [if_neg hfits, if_neg hfits]
        rfl

theorem checkTypes_texts (ts : List FieldType) (r : Option FieldType) :
    checkTypes (ts.flatMap FieldType.text ++ ')' :: Signature.resultText r)
      = if ∀ t ∈ ts ++ r.toList, t.dimensions ≤ 255 then .ok () else .error .descriptorDimensions := by
  induction ts with
  | nil => exact checkTypes_result r
  | cons t ts ih =>
      rw [List.flatMap_cons, List.append_assoc, checkTypes_text, ih]
      simp only [List.cons_append, List.forall_mem_cons]
      by_cases hfits : t.dimensions ≤ 255
      · simp only [hfits, true_and, if_true]
      · simp only [hfits, false_and, if_false]

theorem check_text (s : Signature) : check s.text.toList
    = if ∀ t ∈ s.types, t.dimensions ≤ 255 then .ok () else .error .descriptorDimensions := by
  rw [Signature.text, String.toList_ofList]
  exact checkTypes_texts s.parameters s.result

theorem readTypes_texts (ts : List FieldType) :
    readTypes (ts.flatMap FieldType.text) = .ok (ts.map FieldType.value) := by
  induction ts with
  | nil => simp [readTypes]
  | cons t ts ih =>
      rw [List.flatMap_cons, readTypes_text, ih]
      rfl

theorem notMem_texts (h : ∀ t ∈ ts, ')' ∉ t.text) : ')' ∉ ts.flatMap FieldType.text := by
  intro hmem
  obtain ⟨t, ht, hmem⟩ := List.mem_flatMap.1 hmem
  exact h t ht hmem

theorem methodType_eq (s : Signature) (h : ∀ t ∈ s.parameters, ')' ∉ t.text) :
    methodType s.text = if ∀ t ∈ s.types, t.dimensions ≤ 255 then .ok s.methodType
      else .error (.during .parseDescriptor .descriptorDimensions) := by
  rw [methodType, check_text]
  by_cases hfits : ∀ t ∈ s.types, t.dimensions ≤ 255
  · have htext : s.text.toList.drop 1
        = s.parameters.flatMap FieldType.text ++ ')' :: Signature.resultText s.result := by
      simp [Signature.text]
    have hsplit := @takeWhile_append_cons _ _ (Signature.resultText s.result) (notMem_texts h)
    simp only [if_pos hfits, htext, hsplit.1, hsplit.2, readTypes_texts, List.drop_one,
      List.tail_cons, readResult_text]
    rfl
  · rw [if_neg hfits, if_neg hfits]
    rfl

theorem isVoid_iff {s : List Char} (h : after? ')' d.toList = some s) :
    isVoid d = true ↔ ∃ r, s = 'V' :: r := by
  rw [isVoid, h]
  split
  · rename_i r heq
    cases heq
    exact iff_of_true rfl ⟨r, rfl⟩
  · rename_i hne
    exact iff_of_false nofun fun ⟨r, hr⟩ => hne r (congrArg some hr)

theorem isVoid_text (s : Signature) (h : ∀ t ∈ s.parameters, ')' ∉ t.text) :
    isVoid s.text = true ↔ s.result = none := by
  have hbefore : ')' ∉ '(' :: s.parameters.flatMap FieldType.text := by
    rw [List.mem_cons, not_or]
    exact ⟨by decide, notMem_texts h⟩
  have hafter : after? ')' s.text.toList = some (Signature.resultText s.result) := by
    rw [Signature.text, String.toList_ofList]
    exact @after?_append ')' ('(' :: s.parameters.flatMap FieldType.text) _ hbefore
  rw [isVoid_iff hafter]
  cases s.result with
  | none => exact iff_of_true ⟨[], rfl⟩ rfl
  | some t =>
      refine iff_of_false ?_ (Option.some_ne_none t)
      rintro ⟨r, hr⟩
      cases t with
      | primitive type => cases type <;> cases hr
      | object name => cases hr
      | array element => cases hr

theorem readType_ne_void {s r : List Char} {t : ValueType} (h : readType s = .ok (t, r)) :
    t ≠ .void := by
  have hprimitive : ∀ c, ValueType.ofPrimitive? c ≠ some .void := by
    intro c
    unfold ValueType.ofPrimitive?
    split <;> simp
  unfold readType at h
  split at h
  · cases h
  · split at h
    · cases h
      decide
    · cases h
  · obtain ⟨⟨t', r'⟩, -, h⟩ := Result.map_ok.1 h
    cases h
    decide
  · rename_i c s _ _
    split at h
    · rename_i t' ht
      cases h
      rintro rfl
      exact hprimitive c ht
    · cases h

theorem after?_of_mem {c : Char} {s : List Char} (h : c ∈ s) :
    after? c s = some ((s.dropWhile (· != c)).drop 1) := by
  obtain ⟨before, rest, rfl, hbefore⟩ := List.eq_append_cons_of_mem h
  rw [after?_append hbefore, (takeWhile_append_cons hbefore).2]
  rfl

theorem readResult_isVoid {s : List Char} {t : ValueType} (h : readResult d s = .ok t) :
    (∃ r, s = 'V' :: r) ↔ t = .void := by
  unfold readResult at h
  split at h
  · cases h
    exact iff_of_true ⟨[], rfl⟩ rfl
  · split at h
    · rename_i t' hread
      cases h
      refine iff_of_false ?_ (readType_ne_void hread)
      rintro ⟨r, rfl⟩
      cases hread
    · cases h
    · cases h

theorem exists_cons_of_check {s : List Char} (h : check s = .ok ()) :
    ∃ inner, s = '(' :: inner := by
  unfold check at h
  split at h
  · rename_i inner
    exact ⟨inner, rfl⟩
  · cases h

theorem isVoid_of_methodType (h : methodType d = .ok type) :
    isVoid d = true ↔ type.result = .void := by
  unfold methodType at h
  obtain ⟨_, hcheck, h⟩ := Result.bind_ok.1 h
  obtain ⟨parameters, -, h⟩ := Result.bind_ok.1 h
  obtain ⟨result, hresult, h⟩ := Result.bind_ok.1 h
  cases h
  obtain ⟨inner, hd⟩ := exists_cons_of_check (attempt_ok.1 hcheck)
  rw [hd, List.drop_succ_cons, List.drop_zero] at hresult
  have hmem : ')' ∈ inner := by
    by_contra hnone
    rw [List.dropWhile_eq_nil_iff.2 (forall_bne hnone)] at hresult
    cases hresult
  have hafter : after? ')' d.toList = some ((inner.dropWhile (· != ')')).drop 1) := by
    rw [hd, after?, if_neg (by decide)]
    exact after?_of_mem hmem
  rw [isVoid_iff hafter]
  exact readResult_isVoid hresult

/-- A descriptor is read as the types that it is written from if their arrays have no more than 255
dimensions, and not at all otherwise. It is void if it has no result, and so is any text that is
read without one. -/
theorem methodType_of_signature (s : Signature) (h : ∀ t ∈ s.parameters, ')' ∉ t.text) :
    (methodType s.text = .ok s.methodType ↔ ∀ t ∈ s.types, t.dimensions ≤ 255) ∧
    (∀ t ∈ s.types, 255 < t.dimensions →
      methodType s.text = .error (.during .parseDescriptor .descriptorDimensions)) ∧
    (isVoid s.text = true ↔ s.result = none) ∧
    ∀ d type, methodType d = .ok type → (isVoid d = true ↔ type.result = .void) := by
  have hread := methodType_eq s h
  refine ⟨⟨fun hok => ?_, fun hfits => hread.trans (if_pos hfits)⟩, fun t ht hdeep => ?_,
    isVoid_text s h, fun d type => isVoid_of_methodType⟩
  · by_contra hdeep
    rw [hread, if_neg hdeep] at hok
    cases hok
  · exact hread.trans (if_neg fun hfits => Nat.not_lt.2 (hfits t ht) hdeep)

end Descriptor

namespace Specimen

def integers : Nat → FieldType
  | 0 => .primitive .int
  | n + 1 => .array (integers n)

theorem dimensions_integers (n : Nat) : (integers n).dimensions = n := by
  induction n with
  | zero => rfl
  | succ n ih => exact congrArg (· + 1) ih

theorem notMem_integers {c : Char} (hopen : c ≠ '[') (hint : c ≠ 'I') (n : Nat) :
    c ∉ (integers n).text := by
  induction n with
  | zero =>
      intro hmem
      exact hint (List.mem_singleton.1 hmem)
  | succ n ih =>
      intro hmem
      rcases List.mem_cons.1 hmem with heq | hmem
      · exact hopen heq
      · exact ih hmem

def lettered : FieldType := .object ⟨"a/IV(".toList, by decide⟩

def mixed : Signature := ⟨[lettered, .primitive .long, integers 255], some lettered⟩

end Specimen

namespace Descriptor

open Specimen

theorem methodType_mixed :
    (∀ t ∈ mixed.parameters, ')' ∉ t.text) ∧
    methodType mixed.text = .ok ⟨[.reference, .long, .reference], .reference⟩ ∧
    isVoid mixed.text = false := by
  have hnames : ∀ t ∈ mixed.parameters, ')' ∉ t.text := by
    simp only [mixed, List.forall_mem_cons]
    exact ⟨by decide, by decide, notMem_integers (by decide) (by decide) 255, nofun⟩
  have hdimensions : ∀ t ∈ mixed.types, t.dimensions ≤ 255 := by
    simp only [mixed, Signature.types, Option.toList_some, List.cons_append, List.nil_append,
      List.forall_mem_cons]
    exact ⟨by decide, by decide, Nat.le_of_eq (dimensions_integers 255), by decide, nofun⟩
  obtain ⟨hread, -, hvoid, -⟩ := methodType_of_signature mixed hnames
  exact ⟨hnames, hread.2 hdimensions, Bool.eq_false_iff.2 fun h => nomatch hvoid.1 h⟩

theorem methodType_deep :
    (∀ t ∈ [integers 256], ';' ∉ t.text ∧ ')' ∉ t.text) ∧
    methodType (Signature.text ⟨[integers 256], none⟩)
      ≠ .ok (Signature.methodType ⟨[integers 256], none⟩) := by
  have hclose : ∀ t ∈ [integers 256], ')' ∉ t.text :=
    List.forall_mem_singleton.2 (notMem_integers (by decide) (by decide) 256)
  have hdeep : ¬ ∀ t ∈ Signature.types ⟨[integers 256], none⟩, t.dimensions ≤ 255 := by
    intro hfits
    have hle := hfits (integers 256) List.mem_cons_self
    rw [dimensions_integers] at hle
    exact absurd hle (by decide)
  refine ⟨fun t ht => ⟨?_, hclose t ht⟩, ?_⟩
  · obtain rfl := List.mem_singleton.1 ht
    exact notMem_integers (by decide) (by decide) 256
  · rw [methodType_eq _ hclose, if_neg hdeep]
    nofun

end Descriptor

end BytecodeMutation
