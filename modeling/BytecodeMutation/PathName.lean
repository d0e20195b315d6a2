import BytecodeMutation.Unicode.Property

namespace BytecodeMutation.PathName

def parts (path : String) : List String :=
  ((path.toList.splitOn '/').map String.ofList).filter fun p => p != "" && p != "."

def isAbsolute (path : String) : Bool := path.startsWith "/"

def extensionOf (name : String) : String :=
  let reversed := name.toList.reverse
  let last := reversed.takeWhile (· != '.')
  if last.length + 1 < reversed.length then .ofList last.reverse else ""

def extension (path : String) : String :=
  match (parts path).getLast? with
  | some name => if name == ".." then "" else extensionOf name
  | none => ""

def isDash (path : String) : Bool := path.startsWith "-" && parts path == ["-"]

def quotedChar (c : Char) : List Char :=
  if c == '"' || c == '\'' || c == '\\' then ['\\', c]
  else if c == '\n' then ['\\', 'n']
  else if c == '\r' then ['\\', 'r']
  else if c == '\t' then ['\\', 't']
  else if c.toNat == 0 then ['\\', '0']
  else if Unicode.unprintable.contains c then
    ['\\', 'u', '\x7b'] ++ Nat.toDigits 16 c.toNat ++ ['\x7d']
  else [c]

def quoted (path : String) : String :=
  .ofList ('"' :: path.toList.flatMap quotedChar ++ ['"'])

end BytecodeMutation.PathName
