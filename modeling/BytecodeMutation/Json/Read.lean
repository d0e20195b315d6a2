import BytecodeMutation.Json
import BytecodeMutation.Text

namespace BytecodeMutation.Json

def isBlank (c : Char) : Bool := c == ' ' || c == '\n' || c == '\r' || c == '\t'

def skipBlanks (s : List Char) : List Char := s.dropWhile isBlank

def readUnit? : List Char → Option (Nat × List Char)
  | a :: b :: c :: d :: s => do
      let n := (((← Text.hexDigit? a) * 16 + (← Text.hexDigit? b)) * 16 + (← Text.hexDigit? c)) * 16
      return (n + (← Text.hexDigit? d), s)
  | _ => none

def isHighSurrogate (n : Nat) : Bool := 0xd800 ≤ n && n ≤ 0xdbff

def isLowSurrogate (n : Nat) : Bool := 0xdc00 ≤ n && n ≤ 0xdfff

def simpleEscape? : Char → Option Char
  | '"' => some '"'
  | '\\' => some '\\'
  | '/' => some '/'
  | 'b' => some '\x08'
  | 'f' => some '\x0c'
  | 'n' => some '\n'
  | 'r' => some '\r'
  | 't' => some '\t'
  | _ => none

def readString (paired : Bool) (acc : List Char) : Nat → List Char →
    Option (JsonValue × List Char)
  | 0, _ => none
  | n + 1, s =>
      match s with
      | '"' :: s => some (if paired then .string (.ofList acc.reverse) else .unpaired, s)
      | '\\' :: 'u' :: s =>
          match readUnit? s with
          | none => none
          | some (u, r) =>
              if isHighSurrogate u then
                match r with
                | '\\' :: 'u' :: t =>
                    match readUnit? t with
                    | none => none
                    | some (v, t) =>
                        if isLowSurrogate v then
                          readString paired
                            (.ofNat (0x10000 + (u - 0xd800) * 0x400 + (v - 0xdc00)) :: acc) n t
                        else readString false acc n r
                | _ => readString false acc n r
              else if isLowSurrogate u then readString false acc n r
              else readString paired (.ofNat u :: acc) n r
      | '\\' :: c :: s => match simpleEscape? c with
          | some c => readString paired (c :: acc) n s
          | none => none
      | c :: s => if c.toNat < 32 || c == '\\' then none else readString paired (c :: acc) n s
      | [] => none

def digitsValue (ds : List Char) : Nat := ds.foldl (fun n c => n * 10 + (c.toNat - 48)) 0

def readFraction? : List Char → Option (Bool × List Char)
  | '.' :: s =>
      if (s.takeWhile Char.isDigit).isEmpty then none else some (true, s.dropWhile Char.isDigit)
  | s => some (false, s)

def skipSign : List Char → List Char
  | '+' :: s => s
  | '-' :: s => s
  | s => s

def readExponent? : List Char → Option (Bool × List Char)
  | c :: s =>
      if c == 'e' || c == 'E' then
        let s := skipSign s
        if (s.takeWhile Char.isDigit).isEmpty then none else some (true, s.dropWhile Char.isDigit)
      else some (false, c :: s)
  | [] => some (false, [])

def readNumber? (negative : Bool) (s : List Char) : Option (JsonValue × List Char) := do
  let digits := s.takeWhile Char.isDigit
  guard (!digits.isEmpty)
  guard (digits.length == 1 || digits.head? != some '0')
  let (fraction, s) ← readFraction? (s.dropWhile Char.isDigit)
  let (exponent, s) ← readExponent? s
  let n := digitsValue digits
  if fraction || exponent || (negative && n == 0) then return (.fractional, s)
  return (.integer (if negative then -(n : Int) else n), s)

def readWord? (word : List Char) (value : JsonValue) (s : List Char) :
    Option (JsonValue × List Char) :=
  if s.take word.length == word then some (value, s.drop word.length) else none

def addMember (paired : Bool) (acc : List (String × JsonValue)) (name v : JsonValue) :
    Bool × List (String × JsonValue) :=
  match name with
  | .string k => (paired, (k, v) :: acc)
  | _ => (false, acc)

mutual

def readValue? : Nat → List Char → Option (JsonValue × List Char)
  | 0, _ => none
  | n + 1, s =>
      match skipBlanks s with
      | '"' :: s => readString true [] (s.length + 1) s
      | '[' :: s =>
          match skipBlanks s with
          | ']' :: s => some (.array [], s)
          | s => readItems? n [] s
      | '{' :: s =>
          match skipBlanks s with
          | '}' :: s => some (.object [], s)
          | s => readMembers? n true [] s
      | 't' :: s => readWord? ['r', 'u', 'e'] (.bool true) s
      | 'f' :: s => readWord? ['a', 'l', 's', 'e'] (.bool false) s
      | 'n' :: s => readWord? ['u', 'l', 'l'] .null s
      | '-' :: s => readNumber? true s
      | s => readNumber? false s

def readItems? : Nat → List JsonValue → List Char → Option (JsonValue × List Char)
  | 0, _, _ => none
  | n + 1, acc, s =>
      match readValue? n s with
      | none => none
      | some (v, s) =>
          match skipBlanks s with
          | ',' :: s => readItems? n (v :: acc) s
          | ']' :: s => some (.array (v :: acc).reverse, s)
          | _ => none

def readMembers? : Nat → Bool → List (String × JsonValue) → List Char →
    Option (JsonValue × List Char)
  | 0, _, _, _ => none
  | n + 1, paired, acc, s =>
      match skipBlanks s with
      | '"' :: s =>
          match readString true [] (s.length + 1) s with
          | none => none
          | some (name, s) =>
              match skipBlanks s with
              | ':' :: s =>
                  match readValue? n s with
                  | none => none
                  | some (v, s) =>
                      let (paired, acc) := addMember paired acc name v
                      match skipBlanks s with
                      | ',' :: s => readMembers? n paired acc s
                      | '}' :: s => some (if paired then .object acc.reverse else .unpaired, s)
                      | _ => none
              | _ => none
      | _ => none

end

def parse? (s : String) : Option JsonValue :=
  match readValue? (2 * s.length + 2) s.toList with
  | some (v, s) => if (skipBlanks s).isEmpty then some v else none
  | none => none

end BytecodeMutation.Json
