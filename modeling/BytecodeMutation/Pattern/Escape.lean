import BytecodeMutation.Pattern.Flags
import BytecodeMutation.Text

namespace BytecodeMutation.Pattern

def skipVerbose (comment : Bool) : List Char → List Char
  | [] => []
  | c :: s =>
      if comment then skipVerbose (c != '\n') s
      else if Text.isSpace c then skipVerbose false s
      else if c == '#' then skipVerbose true s
      else c :: s

def Flags.skip (f : Flags) (s : List Char) : List Char :=
  if f.verbose then skipVerbose false s else s

def braced? (verbose : Bool) (acc : List Char) (comment : Bool) :
    List Char → Option (List Char × List Char)
  | [] => none
  | c :: s =>
      if comment then braced? verbose acc (c != '\n') s
      else if verbose && Text.isSpace c then braced? verbose acc false s
      else if verbose && c == '#' then braced? verbose acc true s
      else if c == '}' then some (acc.reverse, s)
      else braced? verbose (c :: acc) false s

inductive Atom where
  | literal (c : Char)
  | chars (s : CharSet)
  | assertion (a : Assertion)
  deriving DecidableEq, Repr

def scalar? (digits : List Char) : Option Char := do
  guard (!digits.isEmpty)
  let n ← digits.foldlM (fun n c => (Text.hexDigit? c).map (n * 16 + ·)) 0
  guard (n < 0xd800 || (0xdfff < n && n < 0x110000))
  return .ofNat n

def taken? (f : Flags) : Nat → List Char → Option (List Char × List Char)
  | 0, s => some ([], s)
  | n + 1, s => match f.skip s with
      | [] => none
      | c :: s => (taken? f n s).map fun (cs, r) => (c :: cs, r)

def hexLiteral? (f : Flags) (count : Nat) (s : List Char) : Option (Atom × List Char) := do
  match f.skip s with
  | '{' :: s =>
      let (digits, r) ← braced? f.verbose [] false s
      return (.literal (← scalar? digits), r)
  | s =>
      let (digits, r) ← taken? f count s
      let c ← scalar? digits
      guard (f.unicode || count != 2 || c.toNat < 128)
      return (.literal c, r)

def splitAt? (c : Char) (s : List Char) : Option (List Char × List Char) :=
  match s.dropWhile (· != c) with
  | _ :: r => some (s.takeWhile (· != c), r)
  | [] => none

def propertyParts? (name : List Char) : Option (List Char × List Char) :=
  match splitAt? '!' name with
  | some (property, '=' :: value) => some (property, value)
  | _ => match splitAt? ':' name with
      | some parts => some parts
      | none => splitAt? '=' name

def property? (name : List Char) : Option CharSet :=
  match propertyParts? name with
  | some (property, value) => Unicode.valued? (.ofList property) (.ofList value)
  | none => Unicode.named? (.ofList name)

def propertyClass? (f : Flags) (negated : Bool) (s : List Char) : Option (Atom × List Char) := do
  let (name, r) ← match f.skip s with
    | '{' :: s => braced? f.verbose [] false s
    | c :: r => if c == '\\' then none else some ([c], r)
    | [] => none
  guard f.unicode
  let s := f.fold (← property? name)
  return (.chars (if negated then s.complement else s), r)

def wordEdge? (name : String) : Option WordEdge :=
  match name with
  | "start" => some .start
  | "end" => some .end
  | "start-half" => some .notAfter
  | "end-half" => some .notBefore
  | _ => none

def isEdgeLetter (c : Char) : Bool := c.isAlpha || c == '-'

def wordBoundary? (f : Flags) (s : List Char) : Option (Atom × List Char) :=
  let plain : Atom × List Char := (.assertion (.word .boundary f.words), s)
  match s with
  | '{' :: r =>
      if (f.skip r).head?.any isEdgeLetter then do
        let (name, r) ← braced? f.verbose [] false r
        return (.assertion (.word (← wordEdge? (.ofList name)) f.words), r)
      else some plain
  | _ => some plain

def isEscapable (c : Char) : Bool :=
  c.toNat < 128 && !c.isAlphanum && c != '<' && c != '>'

def escape? (f : Flags) : List Char → Option (Atom × List Char)
  | [] => none
  | c :: s =>
      let edge (e : WordEdge) : Option (Atom × List Char) := some (.assertion (.word e f.words), s)
      match c with
      | 'x' => hexLiteral? f 2 s
      | 'u' => hexLiteral? f 4 s
      | 'U' => hexLiteral? f 8 s
      | 'p' => propertyClass? f false s
      | 'P' => propertyClass? f true s
      | 'd' | 'D' | 's' | 'S' | 'w' | 'W' => (f.letterClass? c).map fun set => (.chars set, s)
      | 'b' => wordBoundary? f s
      | 'B' => edge .noBoundary
      | '<' => edge .start
      | '>' => edge .end
      | 'A' => some (.assertion .textStart, s)
      | 'z' => some (.assertion .textEnd, s)
      | 'a' => some (.literal '\x07', s)
      | 'f' => some (.literal '\x0c', s)
      | 't' => some (.literal '\t', s)
      | 'n' => some (.literal '\n', s)
      | 'r' => some (.literal '\r', s)
      | 'v' => some (.literal '\x0b', s)
      | _ => if isEscapable c then some (.literal c, s) else none

end BytecodeMutation.Pattern
