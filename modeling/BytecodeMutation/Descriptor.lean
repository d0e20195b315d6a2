import BytecodeMutation.Fault

namespace BytecodeMutation

inductive ValueType where
  | void
  | boolean
  | byte
  | char
  | short
  | int
  | long
  | float
  | double
  | reference
  deriving DecidableEq, Repr

def ValueType.size : ValueType → Nat
  | .void => 0
  | .long | .double => 2
  | _ => 1

def ValueType.ofPrimitive? : Char → Option ValueType
  | 'Z' => some .boolean
  | 'B' => some .byte
  | 'C' => some .char
  | 'S' => some .short
  | 'I' => some .int
  | 'J' => some .long
  | 'F' => some .float
  | 'D' => some .double
  | _ => none

structure MethodType where
  parameters : List ValueType
  result : ValueType
  deriving DecidableEq, Repr

namespace Descriptor

def after? (c : Char) : List Char → Option (List Char)
  | [] => none
  | d :: s => if d = c then some s else after? c s

theorem length_after? {c : Char} {s r : List Char} (h : after? c s = some r) :
    r.length < s.length := by
  induction s with
  | nil => simp [after?] at h
  | cons d s ih =>
      simp only [after?] at h
      split at h
      · simp_all
      · have := ih h
        simp only [List.length_cons]
        omega

def skipType (dimensions : Nat) : List Char → Except Fault (List Char)
  | [] => .error .descriptorEnd
  | '[' :: s => if dimensions < 255 then skipType (dimensions + 1) s
      else .error .descriptorDimensions
  | 'L' :: s => match after? ';' s with
      | some r => .ok r
      | none => .error .descriptorClass
  | 'V' :: s => .ok s
  | c :: s =>
      if (ValueType.ofPrimitive? c).isSome then .ok s
      else if c = ')' ∧ 0 < dimensions then .error .descriptorElement
      else .error .descriptorType

theorem length_skipType {n : Nat} {s r : List Char} (h : skipType n s = .ok r) :
    r.length < s.length := by
  fun_induction skipType n s with
  | case1 => simp at h
  | case2 n s _ ih => have := ih h; simp only [List.length_cons]; omega
  | case3 => simp at h
  | case4 n s r' hr =>
      have := length_after? hr
      simp_all only [Except.ok.injEq, List.length_cons]
      omega
  | case5 => simp at h
  | case6 => simp_all
  | case7 => simp_all
  | case8 => simp at h
  | case9 => simp at h

def checkTypes : List Char → Except Fault Unit
  | [] => .error .descriptorEnd
  | ')' :: ')' :: _ => .error .descriptorReturn
  | ')' :: s => (skipType 0 s).map fun _ => ()
  | c :: s =>
      match _h : skipType 0 (c :: s) with
      | .ok r => checkTypes r
      | .error e => .error e
  termination_by s => s.length
  decreasing_by exact length_skipType _h

def check : List Char → Except Fault Unit
  | '(' :: s => checkTypes s
  | _ => .error .descriptorStart

def readType : List Char → Except Fault (ValueType × List Char)
  | [] => .error .emptyType
  | 'L' :: s => match after? ';' s with
      | some r => .ok (.reference, r)
      | none => .error .unterminatedClass
  | '[' :: s => (readType s).map fun (_, r) => (.reference, r)
  | c :: s => match ValueType.ofPrimitive? c with
      | some t => .ok (t, s)
      | none => .error (.unexpectedTypeCharacter c)

theorem length_readType {s r : List Char} {t : ValueType} (h : readType s = .ok (t, r)) :
    r.length < s.length := by
  fun_induction readType s generalizing t r with
  | case1 => simp at h
  | case2 s r' hr =>
      have := length_after? hr
      simp_all only [Except.ok.injEq, Prod.mk.injEq, List.length_cons]
      omega
  | case3 => simp at h
  | case4 s ih =>
      cases hs : readType s with
      | error e => simp [hs, Except.map] at h
      | ok p =>
          obtain ⟨t', r'⟩ := p
          simp only [hs, Except.map, Except.ok.injEq, Prod.mk.injEq] at h
          have := ih hs
          simp_all only [List.length_cons]
          omega
  | case5 => simp_all
  | case6 => simp at h

def readTypes : List Char → Except Fault (List ValueType)
  | [] => .ok []
  | c :: s =>
      match _h : readType (c :: s) with
      | .ok (t, r) => (readTypes r).map (t :: ·)
      | .error e => .error e
  termination_by s => s.length
  decreasing_by exact length_readType _h

def readResult (descriptor : String) : List Char → Except Fault ValueType
  | ['V'] => .ok .void
  | s => match readType s with
      | .ok (t, []) => .ok t
      | .ok _ => .error (.trailingType descriptor)
      | .error e => .error e

/-- Whether the character after the first closing parenthesis is `V`. -/
def isVoid (descriptor : String) : Bool :=
  match after? ')' descriptor.toList with
  | some ('V' :: _) => true
  | _ => false

def methodType (descriptor : String) : Except Fault MethodType := do
  attempt .parseDescriptor (check descriptor.toList)
  let inner := descriptor.toList.drop 1
  let parameters ← readTypes (inner.takeWhile (· != ')'))
  let result ← readResult descriptor ((inner.dropWhile (· != ')')).drop 1)
  return ⟨parameters, result⟩

end Descriptor

end BytecodeMutation
