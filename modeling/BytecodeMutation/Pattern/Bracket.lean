import BytecodeMutation.Pattern.Escape

namespace BytecodeMutation.Pattern

inductive SetOperation where
  | inter
  | difference
  | symmetric
  deriving DecidableEq, Repr

def SetOperation.apply (o : SetOperation) (s t : CharSet) : CharSet :=
  match o with
  | .inter => s.inter t
  | .difference => s.difference t
  | .symmetric => s.symmetricDifference t

structure NestedSet where
  set : CharSet
  depth : Nat
  deriving DecidableEq, Repr

structure Bracket where
  negated : Bool
  members : CharSet := .empty
  count : Nat := 0
  depth : Nat := 0
  pending : Option (NestedSet × SetOperation) := none
  deriving DecidableEq, Repr

namespace Bracket

def add (b : Bracket) (s : NestedSet) : Bracket :=
  { b with members := b.members.union s.set, count := b.count + 1, depth := max b.depth s.depth }

def content (b : Bracket) (f : Flags) : NestedSet :=
  let last : NestedSet := ⟨b.members, if b.count < 2 then b.depth else b.depth + 1⟩
  match b.pending with
  | none => last
  | some (s, o) => ⟨o.apply (f.fold s.set) (f.fold last.set), max s.depth last.depth + 1⟩

def combine (b : Bracket) (f : Flags) (o : SetOperation) : Bracket :=
  { negated := b.negated, pending := some (b.content f, o) }

def close? (b : Bracket) (f : Flags) : Option NestedSet := do
  let s := b.content f
  return ⟨← f.signed? b.negated (f.fold s.set), s.depth + 1⟩

def addHyphens (f : Flags) (b : Bracket) : Nat → List Char → Bracket × List Char
  | n + 1, '-' :: s => addHyphens f (b.add ⟨.single '-', 0⟩) n (f.skip s)
  | _, s => (b, s)

def start (f : Flags) (s : List Char) : Bracket × List Char :=
  let s := f.skip s
  let negated := s.head? == some '^'
  let s := if negated then f.skip (s.drop 1) else s
  let (b, s) := addHyphens f { negated } s.length s
  match s with
  | ']' :: r => if b.count = 0 then (b.add ⟨.single ']', 0⟩, f.skip r) else (b, s)
  | _ => (b, s)

end Bracket

def namedClass? (s : List Char) : Option (Bool × CharSet × List Char) :=
  match s with
  | ':' :: s =>
      let negated := s.head? == some '^'
      match splitAt? ':' (if negated then s.drop 1 else s) with
      | some (name, ']' :: r) => (asciiClass? (.ofList name)).map fun set => (negated, set, r)
      | _ => none
  | _ => none

def memberAtom? (f : Flags) : List Char → Option (Atom × List Char)
  | [] => none
  | '\\' :: s => escape? f s
  | c :: s => some (.literal c, s)

def memberRange? (f : Flags) (low high : Char) : Option CharSet :=
  f.allowed? (.range low.toNat high.toNat)

def afterHyphen? (f : Flags) (s : List Char) : Option Char :=
  if !f.verbose then s.head?
  else match s.dropWhile Text.isSpace with
    | [] => s.head?
    | '#' :: r => match r.dropWhile Text.isSpace with
        | [] => s.head?
        | c :: _ => some c
    | c :: _ => some c

def member? (f : Flags) (s : List Char) : Option (CharSet × List Char) := do
  let (a, s) ← memberAtom? f s
  let s := f.skip s
  let isRange := s.head? == some '-' &&
    !((afterHyphen? f (s.drop 1)).any fun c => c == ']' || c == '-')
  match a with
  | .literal c =>
      if isRange then
        match ← memberAtom? f (f.skip (s.drop 1)) with
        | (.literal d, r) => if c ≤ d then return (← memberRange? f c d, r) else none
        | _ => none
      else return (← memberRange? f c c, s)
  | .chars set => if isRange then none else return (set, s)
  | .assertion _ => none

def members? (f : Flags) : Nat → Nat → Bracket → List Char → Option (NestedSet × List Char)
  | 0, _, _, _ => none
  | n + 1, levels, b, s =>
      match f.skip s with
      | [] => none
      | ']' :: r => (b.close? f).map fun set => (set, r)
      | '[' :: r =>
          match namedClass? r with
          | some (negated, set, r) => do
              let set ← f.signed? negated (f.fold set)
              members? f n levels (b.add ⟨set, 0⟩) r
          | none =>
              if levels = 0 then none
              else do
                let (inner, r) := Bracket.start f r
                let (set, r) ← members? f n (levels - 1) inner r
                members? f n levels (b.add set) r
      | '&' :: '&' :: r => members? f n levels (b.combine f .inter) r
      | '-' :: '-' :: r => members? f n levels (b.combine f .difference) r
      | '~' :: '~' :: r => members? f n levels (b.combine f .symmetric) r
      | s => do
          let (set, r) ← member? f s
          members? f n levels (b.add ⟨set, 0⟩) r

def bracketed? (f : Flags) (levels : Nat) (s : List Char) : Option (NestedSet × List Char) :=
  if levels = 0 then none
  else
    let (b, r) := Bracket.start f s
    members? f (s.length + 1) (levels - 1) b r

end BytecodeMutation.Pattern
