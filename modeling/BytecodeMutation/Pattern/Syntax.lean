import BytecodeMutation.CharSet

namespace BytecodeMutation

inductive WordEdge where
  | boundary
  | noBoundary
  | start
  | «end»
  | notAfter
  | notBefore
  deriving DecidableEq, Repr

inductive Assertion where
  | textStart
  | textEnd
  | lineStart
  | lineEnd
  | anyLineStart
  | anyLineEnd
  | word (edge : WordEdge) (characters : CharSet)
  deriving DecidableEq, Repr

inductive Pattern where
  | empty
  | chars (s : CharSet)
  | assertion (a : Assertion)
  | seq (p q : Pattern)
  | alt (p q : Pattern)
  | repeated (p : Pattern) (least : Nat) (most : Option Nat)
  | group (p : Pattern)
  deriving DecidableEq, Repr

namespace Pattern

def pairUp {α : Type} (f : α → α → α) : List α → List α
  | a :: b :: r => f a b :: pairUp f r
  | l => l

def balanced {α : Type} (f : α → α → α) (none : α) : Nat → List α → α
  | _, [] => none
  | _, [a] => a
  | 0, a :: _ => a
  | n + 1, l => balanced f none n (pairUp f l)

def isEmpty : Pattern → Bool
  | .empty => true
  | _ => false

def inOrder (ps : List Pattern) : Pattern :=
  let ps := ps.filter (!·.isEmpty)
  balanced .seq .empty ps.length ps

def set? : Pattern → Option CharSet
  | .chars s => some s
  | _ => none

def oneOf (ps : List Pattern) : Pattern :=
  match ps.mapM set? with
  | some (s :: sets) => .chars (sets.foldl CharSet.union s)
  | _ => balanced .alt .empty ps.length ps

def takesSome : Pattern → Bool
  | .empty | .assertion _ => false
  | .chars s => !s.isEmpty
  | .seq p q => p.takesSome || q.takesSome
  | .alt p q => p.takesSome && q.takesSome
  | .repeated p least _ => least != 0 && p.takesSome
  | .group p => p.takesSome

def takesNone : Pattern → Bool
  | .empty | .assertion _ => true
  | .chars _ => false
  | .seq p q | .alt p q => p.takesNone && q.takesNone
  | .repeated p _ most => most == some 0 || p.takesNone
  | .group p => p.takesNone

def times (p : Pattern) (least : Nat) (most : Option Nat) : Pattern :=
  let (least, most) :=
    if p.takesNone then (min least 1, some (min (most.getD 1) 1)) else (least, most)
  if most = some 0 then .empty
  else if least = 1 ∧ most = some 1 then p
  else .repeated p least most

end Pattern

end BytecodeMutation
