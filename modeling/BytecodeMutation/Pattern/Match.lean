import BytecodeMutation.Pattern.Syntax

/-!
Searching text for a pattern in one pass. Every set of characters in the pattern carries a mark that
is set if a match that is under way has just taken a character there, and each character of the text
moves the marks.
-/

namespace BytecodeMutation

structure Place where
  before : Option Char
  after : Option Char
  deriving DecidableEq, Repr

namespace WordEdge

def holds (before after : Bool) : WordEdge → Bool
  | .boundary => before != after
  | .noBoundary => before == after
  | .start => !before && after
  | .end => before && !after
  | .notAfter => !before
  | .notBefore => !after

end WordEdge

namespace Assertion

def holds (p : Place) : Assertion → Bool
  | .textStart => p.before.isNone
  | .textEnd => p.after.isNone
  | .lineStart => p.before.isNone || p.before == some '\n'
  | .lineEnd => p.after.isNone || p.after == some '\n'
  | .anyLineStart =>
      p.before.isNone || p.before == some '\n' || (p.before == some '\r' && p.after != some '\n')
  | .anyLineEnd =>
      p.after.isNone || p.after == some '\r' || (p.after == some '\n' && p.before != some '\r')
  | .word edge characters =>
      edge.holds (p.before.any characters.contains) (p.after.any characters.contains)

end Assertion

/-- A pattern with marks. Compound patterns keep whether a mark is set in them, and whether they
match nothing at all, unless that depends on the place. -/
inductive Marked where
  | empty
  | chars (s : CharSet) (mark : Bool)
  | assertion (a : Assertion)
  | seq (live : Bool) (skips : Option Bool) (p q : Marked)
  | alt (live : Bool) (skips : Option Bool) (p q : Marked)
  | plus (live : Bool) (skips : Option Bool) (p : Marked)
  deriving DecidableEq, Repr

namespace Marked

def live : Marked → Bool
  | .empty | .assertion _ => false
  | .chars _ mark => mark
  | .seq live .. | .alt live .. | .plus live .. => live

def skips : Marked → Option Bool
  | .empty => some true
  | .chars .. => some false
  | .assertion _ => none
  | .seq _ skips .. | .alt _ skips .. | .plus _ skips _ => skips

def both : Option Bool → Option Bool → Option Bool
  | some false, _ | _, some false => some false
  | some true, b => b
  | a, some true => a
  | none, none => none

def either : Option Bool → Option Bool → Option Bool
  | some true, _ | _, some true => some true
  | some false, b => b
  | a, some false => a
  | none, none => none

def andThen (p q : Marked) : Marked := .seq (p.live || q.live) (both p.skips q.skips) p q

def orElse (p q : Marked) : Marked := .alt (p.live || q.live) (either p.skips q.skips) p q

def onceOrMore (p : Marked) : Marked := .plus p.live p.skips p

def optional (p : Marked) : Marked := .orElse .empty p

def copies (p : Marked) (n : Nat) : Marked :=
  if n = 0 then .empty
  else if n = 1 then p
  else
    let half := copies p (n / 2)
    if n % 2 = 0 then .andThen half half else .andThen (.andThen half half) p

def ofPattern : Pattern → Marked
  | .empty => .empty
  | .chars s => .chars s false
  | .assertion a => .assertion a
  | .seq p q => .andThen (ofPattern p) (ofPattern q)
  | .alt p q => .orElse (ofPattern p) (ofPattern q)
  | .group p => ofPattern p
  | .repeated p least most =>
      let p := ofPattern p
      match most, least with
      | some most, _ => .andThen (copies p least) (copies (optional p) (most - least))
      | none, 0 => optional (onceOrMore p)
      | none, n + 1 => .andThen (copies p n) (onceOrMore p)

variable (place : Place)

def skipsAt : Marked → Bool
  | .empty => true
  | .chars .. => false
  | .assertion a => a.holds place
  | .seq _ known p q => known.getD (p.skipsAt && q.skipsAt)
  | .alt _ known p q => known.getD (p.skipsAt || q.skipsAt)
  | .plus _ known p => known.getD p.skipsAt

def endsAt : Marked → Bool
  | .empty | .assertion _ => false
  | .chars _ mark => mark
  | .seq live _ p q => live && (q.endsAt || (p.endsAt && q.skipsAt place))
  | .alt live _ p q => live && (p.endsAt || q.endsAt)
  | .plus live _ p => live && p.endsAt

def take (c : Char) : Bool → Marked → Marked
  | _, .empty => .empty
  | _, .assertion a => .assertion a
  | entered, .chars s _ => .chars s (entered && s.contains c)
  | entered, .seq live known p q =>
      if entered || live then
        let reached := p.endsAt place || (entered && p.skipsAt place)
        let p := p.take c entered
        let q := q.take c reached
        .seq (p.live || q.live) known p q
      else .seq live known p q
  | entered, .alt live known p q =>
      if entered || live then
        let p := p.take c entered
        let q := q.take c entered
        .alt (p.live || q.live) known p q
      else .alt live known p q
  | entered, .plus live known p =>
      if entered || live then
        let p := p.take c (entered || p.endsAt place)
        .plus p.live known p
      else .plus live known p

def search (m : Marked) (before : Option Char) : List Char → Bool
  | [] => m.endsAt ⟨before, none⟩ || m.skipsAt ⟨before, none⟩
  | c :: s =>
      let place := ⟨before, some c⟩
      m.endsAt place || m.skipsAt place || (m.take place c true).search (some c) s

end Marked

def Pattern.occursIn (p : Pattern) (s : String) : Bool :=
  (Marked.ofPattern p).search none s.toList

end BytecodeMutation
