import BytecodeMutation.Bytes

namespace BytecodeMutation

inductive JsonValue where
  | null
  | bool (b : Bool)
  | integer (n : Int)
  | fractional
  | string (s : String)
  | unpaired
  | array (items : List JsonValue)
  | object (members : List (String × JsonValue))
  deriving Repr, Inhabited

namespace Json

def escapeChar (c : Char) : List Char :=
  if c == '"' then ['\\', '"']
  else if c == '\\' then ['\\', '\\']
  else if c == '\n' then ['\\', 'n']
  else if c == '\r' then ['\\', 'r']
  else if c == '\t' then ['\\', 't']
  else if c.toNat == 8 then ['\\', 'b']
  else if c.toNat == 12 then ['\\', 'f']
  else if c.toNat < 32 then
    ['\\', 'u', '0', '0', Bytes.hexDigit (c.toNat / 16), Bytes.hexDigit (c.toNat % 16)]
  else [c]

def quoted (s : String) : String := .ofList ('"' :: s.toList.flatMap escapeChar ++ ['"'])

def scalar : JsonValue → String
  | .bool b => if b then "true" else "false"
  | .integer n => toString n
  | .string s => quoted s
  | _ => "null"

mutual

def compact : JsonValue → String
  | .array items => "[" ++ ",".intercalate (compactItems items) ++ "]"
  | .object members => "\x7b" ++ ",".intercalate (compactMembers members) ++ "\x7d"
  | .null => scalar .null
  | .bool b => scalar (.bool b)
  | .integer n => scalar (.integer n)
  | .fractional => scalar .fractional
  | .string s => scalar (.string s)
  | .unpaired => scalar .unpaired

def compactItems : List JsonValue → List String
  | [] => []
  | v :: vs => compact v :: compactItems vs

def compactMembers : List (String × JsonValue) → List String
  | [] => []
  | (k, v) :: ms => (quoted k ++ ":" ++ compact v) :: compactMembers ms

end

def indentation (depth : Nat) : String := "".pushn ' ' (2 * depth)

def block (opening closing : String) (depth : Nat) (lines : List String) : String :=
  if lines.isEmpty then opening ++ closing
  else
    let pad := "\n" ++ indentation (depth + 1)
    opening ++ pad ++ ("," ++ pad).intercalate lines ++ "\n" ++ indentation depth ++ closing

mutual

def pretty (depth : Nat) : JsonValue → String
  | .array items => block "[" "]" depth (prettyItems (depth + 1) items)
  | .object members => block "\x7b" "\x7d" depth (prettyMembers (depth + 1) members)
  | .null => scalar .null
  | .bool b => scalar (.bool b)
  | .integer n => scalar (.integer n)
  | .fractional => scalar .fractional
  | .string s => scalar (.string s)
  | .unpaired => scalar .unpaired

def prettyItems (depth : Nat) : List JsonValue → List String
  | [] => []
  | v :: vs => pretty depth v :: prettyItems depth vs

def prettyMembers (depth : Nat) : List (String × JsonValue) → List String
  | [] => []
  | (k, v) :: ms => (quoted k ++ ": " ++ pretty depth v) :: prettyMembers depth ms

end

def optional {α : Type} (f : α → JsonValue) : Option α → JsonValue
  | some a => f a
  | none => .null

end Json

end BytecodeMutation
