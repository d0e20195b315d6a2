import BytecodeMutation.Pattern.Syntax
import BytecodeMutation.Unicode.Property
import BytecodeMutation.Unicode.CaseVariants
import BytecodeMutation.Unicode.Query

namespace BytecodeMutation.Pattern

structure Flags where
  ignoreCase : Bool := false
  multiLine : Bool := false
  dotAll : Bool := false
  returns : Bool := false
  unicode : Bool := true
  verbose : Bool := false
  deriving DecidableEq, Repr

def digits : CharSet := Unicode.ofCategories ["nd"]

def spaces : CharSet := (Unicode.property? "whitespace").getD .empty

def wordCharacters : CharSet :=
  ((Unicode.property? "alphabetic").getD .empty).union
    ((Unicode.ofCategories ["mn", "mc", "me", "nd", "pc"]).union (.range 0x200c 0x200d))

def asciiDigits : CharSet := .range 48 57

def asciiSpaces : CharSet := ⟨[(9, 13), (32, 32)]⟩

def asciiWordCharacters : CharSet := ⟨[(48, 57), (65, 90), (95, 95), (97, 122)]⟩

def asciiClass? (name : String) : Option CharSet :=
  match name with
  | "alnum" => some ⟨[(48, 57), (65, 90), (97, 122)]⟩
  | "alpha" => some ⟨[(65, 90), (97, 122)]⟩
  | "ascii" => some (.range 0 127)
  | "blank" => some ⟨[(9, 9), (32, 32)]⟩
  | "cntrl" => some ⟨[(0, 31), (127, 127)]⟩
  | "digit" => some asciiDigits
  | "graph" => some (.range 33 126)
  | "lower" => some (.range 97 122)
  | "print" => some (.range 32 126)
  | "punct" => some ⟨[(33, 47), (58, 64), (91, 96), (123, 126)]⟩
  | "space" => some asciiSpaces
  | "upper" => some (.range 65 90)
  | "word" => some asciiWordCharacters
  | "xdigit" => some ⟨[(48, 57), (65, 70), (97, 102)]⟩
  | _ => none

namespace Flags

variable (f : Flags)

def set? (c : Char) (value : Bool) : Option Flags :=
  match c with
  | 'i' => some { f with ignoreCase := value }
  | 'm' => some { f with multiLine := value }
  | 's' => some { f with dotAll := value }
  | 'R' => some { f with returns := value }
  | 'u' => some { f with unicode := value }
  | 'x' => some { f with verbose := value }
  /- Whether short matches are preferred. -/
  | 'U' => some f
  | _ => none

def fold (s : CharSet) : CharSet :=
  if !f.ignoreCase then s else if f.unicode then Unicode.foldCase s else Unicode.foldAsciiCase s

def allowed? (s : CharSet) : Option CharSet := if f.unicode || s.isAscii then some s else none

def signed? (negated : Bool) (s : CharSet) : Option CharSet :=
  f.allowed? (if negated then s.complement else s)

def words : CharSet := if f.unicode then wordCharacters else asciiWordCharacters

def letterClass? (c : Char) : Option CharSet :=
  match c.toLower with
  | 'd' => f.signed? c.isUpper (if f.unicode then digits else asciiDigits)
  | 's' => f.signed? c.isUpper (if f.unicode then spaces else asciiSpaces)
  | 'w' => f.signed? c.isUpper f.words
  | _ => none

def dot? : Option CharSet :=
  if !f.unicode then none
  else if f.dotAll then some .all
  else if f.returns then some (CharSet.complement ⟨[(10, 10), (13, 13)]⟩)
  else some (CharSet.range 10 10).complement

def startAnchor : Assertion :=
  if !f.multiLine then .textStart else if f.returns then .anyLineStart else .lineStart

def endAnchor : Assertion :=
  if !f.multiLine then .textEnd else if f.returns then .anyLineEnd else .lineEnd

end Flags

end BytecodeMutation.Pattern
