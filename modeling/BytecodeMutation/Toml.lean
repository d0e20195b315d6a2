import BytecodeMutation.Text

namespace BytecodeMutation

inductive TomlValue where
  | text (s : String)
  | texts (s : List String)
  | flag (b : Bool)
  deriving DecidableEq, Repr

namespace Toml

def isBlank (c : Char) : Bool := c == ' ' || c == '\t'

def skipBlanks (s : List Char) : List Char := s.dropWhile isBlank

def isPlain (c : Char) : Bool := c == '\t' || (32 ≤ c.toNat && c.toNat != 127)

def lineBreak? : List Char → Option (List Char)
  | '\n' :: s => some s
  | '\r' :: '\n' :: s => some s
  | _ => none

def skipComment : List Char → List Char
  | '#' :: s => s.dropWhile isPlain
  | s => s

def endLine? (s : List Char) : Option (List Char) :=
  match skipComment (skipBlanks s) with
  | [] => some []
  | s => lineBreak? s

def skipLines : Nat → List Char → List Char
  | 0, s => s
  | n + 1, s =>
      let s := skipComment (skipBlanks s)
      match lineBreak? s with
      | some r => skipLines n r
      | none => s

def codePoint? (digits : Nat) (s : List Char) : Option (Char × List Char) := do
  guard ((s.take digits).length == digits)
  let n ← (s.take digits).foldlM (fun n c => (Text.hexDigit? c).map (n * 16 + ·)) 0
  guard (n < 0xd800 || (0xdfff < n && n < 0x110000))
  return (.ofNat n, s.drop digits)

def escape? : List Char → Option (Char × List Char)
  | 'b' :: s => some ('\x08', s)
  | 't' :: s => some ('\t', s)
  | 'n' :: s => some ('\n', s)
  | 'f' :: s => some ('\x0c', s)
  | 'r' :: s => some ('\r', s)
  | '"' :: s => some ('"', s)
  | '\\' :: s => some ('\\', s)
  | 'u' :: s => codePoint? 4 s
  | 'U' :: s => codePoint? 8 s
  | _ => none

def basicString? (acc : List Char) : Nat → List Char → Option (String × List Char)
  | 0, _ => none
  | n + 1, s =>
      match s with
      | '"' :: s => some (.ofList acc.reverse, s)
      | '\\' :: s => do
          let (c, s) ← escape? s
          basicString? (c :: acc) n s
      | c :: s => if isPlain c then basicString? (c :: acc) n s else none
      | [] => none

def literalString? (s : List Char) : Option (String × List Char) :=
  let inner := s.takeWhile fun c => c != '\'' && isPlain c
  match s.drop inner.length with
  | '\'' :: r => some (.ofList inner, r)
  | _ => none

def skipBreaks : List Char → List Char
  | '\r' :: '\n' :: s => skipBreaks s
  | c :: s => if isBlank c || c == '\n' then skipBreaks s else c :: s
  | [] => []

def joinLines? (s : List Char) : Option (List Char) :=
  (lineBreak? (skipBlanks s)).map skipBreaks

def closing? (quote : Char) (s : List Char) : Option (List Char × List Char) :=
  let quotes := (s.takeWhile (· == quote)).length
  if quotes < 3 then none
  else
    let held := min (quotes - 3) 2
    some (List.replicate held quote, s.drop (held + 3))

def multiLine? (quote : Char) (acc : List Char) : Nat → List Char → Option (String × List Char)
  | 0, _ => none
  | n + 1, s =>
      match closing? quote s with
      | some (held, r) => some (.ofList (acc.reverse ++ held), r)
      | none =>
          match lineBreak? s with
          | some r => multiLine? quote ('\n' :: acc) n r
          | none =>
              match s with
              | c :: s =>
                  if c == '\\' && quote == '"' then
                    match joinLines? s with
                    | some r => multiLine? quote acc n r
                    | none => do
                        let (c, r) ← escape? s
                        multiLine? quote (c :: acc) n r
                  else if isPlain c then multiLine? quote (c :: acc) n s
                  else none
              | [] => none

def dropFirstBreak (s : List Char) : List Char := (lineBreak? s).getD s

def string? : List Char → Option (String × List Char)
  | '"' :: '"' :: '"' :: s => multiLine? '"' [] (s.length + 1) (dropFirstBreak s)
  | '\'' :: '\'' :: '\'' :: s => multiLine? '\'' [] (s.length + 1) (dropFirstBreak s)
  | '"' :: s => basicString? [] (s.length + 1) s
  | '\'' :: s => literalString? s
  | _ => none

def items? (acc : List String) : Nat → List Char → Option (List String × List Char)
  | 0, _ => none
  | n + 1, s =>
      match skipLines (s.length + 1) s with
      | ']' :: s => some (acc.reverse, s)
      | s => do
          let (t, s) ← string? s
          match skipLines (s.length + 1) s with
          | ',' :: s => items? (t :: acc) n s
          | ']' :: s => some ((t :: acc).reverse, s)
          | _ => none

def value? : List Char → Option (TomlValue × List Char)
  | 't' :: 'r' :: 'u' :: 'e' :: s => some (.flag true, s)
  | 'f' :: 'a' :: 'l' :: 's' :: 'e' :: s => some (.flag false, s)
  | '[' :: s => (items? [] (s.length + 1) s).map fun (ts, s) => (.texts ts, s)
  | s => (string? s).map fun (t, s) => (.text t, s)

def isBareKey (c : Char) : Bool := c.isAlphanum || c == '_' || c == '-'

def key? : List Char → Option (String × List Char)
  | '"' :: s => basicString? [] (s.length + 1) s
  | '\'' :: s => literalString? s
  | s =>
      let word := s.takeWhile isBareKey
      if word.isEmpty then none else some (.ofList word, s.drop word.length)

def settings? (acc : List (String × TomlValue)) :
    Nat → List Char → Option (List (String × TomlValue))
  | 0, _ => none
  | n + 1, s =>
      match skipBlanks s with
      | [] => some acc.reverse
      | s =>
          match endLine? s with
          | some r => settings? acc n r
          | none => do
              let (k, s) ← key? s
              match skipBlanks s with
              | '=' :: s => do
                  let (v, s) ← value? (skipBlanks s)
                  guard (!acc.any (·.1 == k))
                  settings? ((k, v) :: acc) n (← endLine? s)
              | _ => none

def withoutMark : List Char → List Char
  | c :: s => if c.toNat == 0xfeff then s else c :: s
  | [] => []

def parse? (text : String) : Option (List (String × TomlValue)) :=
  let s := withoutMark text.toList
  settings? [] (s.length + 1) s

end Toml

end BytecodeMutation
