namespace BytecodeMutation.Text

def hexDigit? (c : Char) : Option Nat :=
  if c.isDigit then some (c.toNat - 48)
  else if 'a' ≤ c && c ≤ 'f' then some (c.toNat - 87)
  else if 'A' ≤ c && c ≤ 'F' then some (c.toNat - 55)
  else none

def equalIgnoringCase (a b : String) : Bool :=
  a.toList.map Char.toLower == b.toList.map Char.toLower

def isSpace (c : Char) : Bool :=
  let n := c.toNat
  (9 ≤ n && n ≤ 13) || n == 0x20 || n == 0x85 || n == 0xa0 || n == 0x1680
    || (0x2000 ≤ n && n ≤ 0x200a) || n == 0x2028 || n == 0x2029 || n == 0x202f || n == 0x205f
    || n == 0x3000

def trim (s : String) : String :=
  .ofList (((s.toList.dropWhile isSpace).reverse.dropWhile isSpace).reverse)

def replaceChar (a b : Char) (s : String) : String := s.map fun c => if c == a then b else c

end BytecodeMutation.Text

namespace BytecodeMutation.ClassName

def withoutSuffix (suffix s : String) : String :=
  if s.endsWith suffix then (s.dropEnd suffix.length).toString else s

def internal (name : String) : String :=
  Text.replaceChar '.' '/' (withoutSuffix ".class" name)

def dotted (name : String) : String := Text.replaceChar '/' '.' name

def path (name : String) : String := internal name ++ ".class"

end BytecodeMutation.ClassName
