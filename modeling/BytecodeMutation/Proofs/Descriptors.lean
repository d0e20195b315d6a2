import BytecodeMutation.Descriptor
import BytecodeMutation.Proofs.Results

namespace BytecodeMutation

inductive Primitive where
  | boolean
  | byte
  | char
  | short
  | int
  | long
  | float
  | double
  deriving DecidableEq, Repr

namespace Primitive

def letter : Primitive → Char
  | boolean => 'Z'
  | byte => 'B'
  | char => 'C'
  | short => 'S'
  | int => 'I'
  | long => 'J'
  | float => 'F'
  | double => 'D'

def value : Primitive → ValueType
  | boolean => .boolean
  | byte => .byte
  | char => .char
  | short => .short
  | int => .int
  | long => .long
  | float => .float
  | double => .double

end Primitive

inductive FieldType where
  | primitive (type : Primitive)
  | object (name : {name : List Char // ';' ∉ name})
  | array (element : FieldType)

namespace FieldType

def text : FieldType → List Char
  | primitive type => [type.letter]
  | object name => 'L' :: (name.1 ++ [';'])
  | array element => '[' :: element.text

def value : FieldType → ValueType
  | primitive type => type.value
  | object _ => .reference
  | array _ => .reference

end FieldType

/-- The parameters and the result of a method, which may be none. -/
structure Signature where
  parameters : List FieldType
  result : Option FieldType

namespace Signature

def resultText : Option FieldType → List Char
  | some type => type.text
  | none => ['V']

def text (s : Signature) : String :=
  .ofList ('(' :: (s.parameters.flatMap FieldType.text ++ ')' :: resultText s.result))

def methodType (s : Signature) : MethodType :=
  ⟨s.parameters.map FieldType.value, (s.result.map FieldType.value).getD .void⟩

end Signature

namespace Descriptor

variable {c : Char} {s rest : List Char} {ts : List FieldType}

theorem after?_of_notMem (h : c ∉ s) : after? c s = none := by
  induction s with
  | nil => rfl
  | cons d s ih =>
      obtain ⟨hd, hs⟩ := List.ne_and_not_mem_of_not_mem_cons h
      rw [after?, if_neg (Ne.symm hd), ih hs]

theorem after?_append (h : c ∉ s) : after? c (s ++ c :: rest) = some rest := by
  induction s with
  | nil => simp [after?]
  | cons d s ih =>
      obtain ⟨hd, hs⟩ := List.ne_and_not_mem_of_not_mem_cons h
      rw [List.cons_append, after?, if_neg (Ne.symm hd), ih hs]

theorem readType_text (t : FieldType) (rest : List Char) :
    readType (t.text ++ rest) = .ok (t.value, rest) := by
  induction t with
  | primitive type => cases type <;> rfl
  | object name =>
      have hafter : after? ';' (name.1 ++ [';'] ++ rest) = some rest := by
        rw [List.append_assoc]
        exact after?_append name.2
      simp only [FieldType.text, List.cons_append, readType, hafter]
      rfl
  | array element ih =>
      simp only [FieldType.text, List.cons_append, readType, ih]
      rfl

theorem readTypes_text (t : FieldType) (rest : List Char) :
    readTypes (t.text ++ rest) = (readTypes rest).map (t.value :: ·) := by
  obtain ⟨c, s, hs⟩ : ∃ c s, t.text ++ rest = c :: s := by
    cases t <;> exact ⟨_, _, rfl⟩
  have hread := readType_text t rest
  rw [hs] at hread ⊢
  rw [readTypes.eq_2]
  split
  · rename_i t' r h
    cases hread.symm.trans h
    rfl
  · rename_i e h
    cases hread.symm.trans h

theorem forall_bne (h : c ∉ s) : ∀ d ∈ s, (d != c) = true := by
  intro d hd
  rw [bne_iff_ne]
  rintro rfl
  exact h hd

theorem takeWhile_append_cons (h : c ∉ s) :
    (s ++ c :: rest).takeWhile (· != c) = s ∧ (s ++ c :: rest).dropWhile (· != c) = c :: rest := by
  rw [List.takeWhile_append_of_pos (forall_bne h), List.dropWhile_append_of_pos (forall_bne h)]
  simp

theorem readType_cut (t : FieldType) (h : ')' ∈ t.text) (rest : List Char) :
    readType ((t.text ++ rest).takeWhile (· != ')')) = .error .unterminatedClass := by
  induction t with
  | primitive type => cases type <;> simp [FieldType.text, Primitive.letter] at h
  | object name =>
      obtain ⟨name, hname⟩ := name
      obtain ⟨before, after, rfl, hbefore⟩ :=
        List.eq_append_cons_of_mem (by simpa [FieldType.text] using h : ')' ∈ name)
      have hsplit : (FieldType.object ⟨_, hname⟩).text ++ rest
          = ('L' :: before) ++ ')' :: (after ++ [';'] ++ rest) := by
        simp [FieldType.text]
      have hcut : ')' ∉ 'L' :: before := by simpa using hbefore
      have hend : ';' ∉ before := fun hmem => hname (List.mem_append_left _ hmem)
      rw [hsplit, (takeWhile_append_cons hcut).1, readType, after?_of_notMem hend]
  | array element ih =>
      have helement : ')' ∈ element.text := by simpa [FieldType.text] using h
      have hcut : ('[' :: (element.text ++ rest)).takeWhile (· != ')')
          = '[' :: (element.text ++ rest).takeWhile (· != ')') := rfl
      rw [FieldType.text, List.cons_append, hcut, readType, ih helement]
      rfl

theorem readTypes_takeWhile {us : List ValueType}
    (h : readTypes ((ts.flatMap FieldType.text ++ ')' :: rest).takeWhile (· != ')')) = .ok us) :
    us = ts.map FieldType.value ∧ ')' ∉ ts.flatMap FieldType.text := by
  induction ts generalizing us with
  | nil =>
      simp only [List.flatMap_nil, List.nil_append, List.takeWhile_cons, bne_self_eq_false,
        Bool.false_eq_true, if_false, readTypes, Except.ok.injEq] at h
      exact ⟨h.symm, List.not_mem_nil⟩
  | cons t ts ih =>
      rw [List.flatMap_cons, List.append_assoc] at h
      by_cases ht : ')' ∈ t.text
      · have hcut := readType_cut t ht (ts.flatMap FieldType.text ++ ')' :: rest)
        generalize (t.text ++ (ts.flatMap FieldType.text ++ ')' :: rest)).takeWhile (· != ')')
          = cut at h hcut
        cases cut with
        | nil => cases hcut
        | cons c cut =>
            rw [readTypes.eq_2] at h
            split at h
            · rename_i hread
              cases hread.symm.trans hcut
            · cases h
      · rw [List.takeWhile_append_of_pos (forall_bne ht), readTypes_text] at h
        obtain ⟨us', hus, rfl⟩ := Result.map_ok.1 h
        obtain ⟨rfl, hts⟩ := ih hus
        refine ⟨rfl, fun hmem => ?_⟩
        rcases List.mem_append.1 (List.flatMap_cons ▸ hmem) with hmem | hmem
        · exact ht hmem
        · exact hts hmem

theorem readResult_text (d : String) (r : Option FieldType) :
    readResult d (Signature.resultText r) = .ok ((r.map FieldType.value).getD .void) := by
  cases r with
  | none => rfl
  | some t =>
      have hread := readType_text t []
      rw [List.append_nil] at hread
      have hvoid : t.text ≠ ['V'] := by
        cases t with
        | primitive type => cases type <;> simp [FieldType.text, Primitive.letter]
        | object name => simp [FieldType.text]
        | array element => simp [FieldType.text]
      rw [Signature.resultText, readResult.eq_2 _ _ hvoid, hread]
      rfl

theorem methodType_text (s : Signature) {type : MethodType} (h : methodType s.text = .ok type) :
    type = s.methodType := by
  unfold methodType at h
  obtain ⟨-, -, h⟩ := Result.bind_ok.1 h
  obtain ⟨parameters, hparameters, h⟩ := Result.bind_ok.1 h
  obtain ⟨result, hresult, h⟩ := Result.bind_ok.1 h
  have htext : s.text.toList.drop 1
      = s.parameters.flatMap FieldType.text ++ ')' :: Signature.resultText s.result := by
    simp [Signature.text]
  rw [htext] at hparameters hresult
  obtain ⟨rfl, hnone⟩ := readTypes_takeWhile hparameters
  rw [(takeWhile_append_cons hnone).2, List.drop_one, List.tail_cons, readResult_text] at hresult
  cases hresult
  cases h
  rfl

theorem text_append_inj {t t' : FieldType} {r r' : List Char}
    (h : t.text ++ r = t'.text ++ r') : t.value = t'.value ∧ r = r' := by
  have hread := readType_text t r
  rw [h, readType_text] at hread
  exact ⟨(Prod.mk.inj (Except.ok.inj hread)).1.symm, (Prod.mk.inj (Except.ok.inj hread)).2.symm⟩

theorem text_append_ne (t : FieldType) (r r' : List Char) : t.text ++ r ≠ ')' :: r' := by
  cases t with
  | primitive type => cases type <;> simp [FieldType.text, Primitive.letter]
  | object name => simp [FieldType.text]
  | array element => simp [FieldType.text]

theorem texts_append_inj {ts' : List FieldType} {r r' : List Char}
    (h : ts.flatMap FieldType.text ++ ')' :: r = ts'.flatMap FieldType.text ++ ')' :: r') :
    ts.map FieldType.value = ts'.map FieldType.value ∧ r = r' := by
  induction ts generalizing ts' with
  | nil =>
      cases ts' with
      | nil => exact ⟨rfl, (List.cons.inj h).2⟩
      | cons t' ts' =>
          rw [List.flatMap_cons, List.append_assoc] at h
          exact absurd h.symm (text_append_ne t' _ _)
  | cons t ts ih =>
      rw [List.flatMap_cons, List.append_assoc] at h
      cases ts' with
      | nil => exact absurd h (text_append_ne t _ _)
      | cons t' ts' =>
          rw [List.flatMap_cons, List.append_assoc] at h
          obtain ⟨hvalue, hrest⟩ := text_append_inj h
          obtain ⟨hvalues, hr⟩ := ih hrest
          exact ⟨congrArg₂ List.cons hvalue hvalues, hr⟩

theorem methodType_of_text {s s' : Signature} (h : s.text = s'.text) :
    s.methodType = s'.methodType := by
  have htexts := (List.cons.inj (String.ofList_inj.1 h)).2
  obtain ⟨hparameters, hresult⟩ := texts_append_inj htexts
  have hvalue := readResult_text "" s.result
  rw [hresult, readResult_text] at hvalue
  exact congrArg₂ MethodType.mk hparameters (Except.ok.inj hvalue).symm

end Descriptor

end BytecodeMutation
