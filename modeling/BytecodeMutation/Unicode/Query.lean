import BytecodeMutation.Unicode.Age
import BytecodeMutation.Unicode.Breaks
import BytecodeMutation.Unicode.Category
import BytecodeMutation.Unicode.Property
import BytecodeMutation.Unicode.Script

namespace BytecodeMutation.Unicode

def isQuestion : List Char → Bool
  | i :: s :: _ => i.toLower == 'i' && s.toLower == 's'
  | _ => false

def normalized (name : String) : String :=
  let cs := name.toList
  let question := isQuestion cs
  let kept := (if question then cs.drop 2 else cs).filter fun c =>
    c != ' ' && c != '_' && c != '-' && c.toNat < 128
  let n : String := .ofList (kept.map Char.toLower)
  if question && n == "c" then "isc" else n

def named? (name : String) : Option CharSet :=
  let n := normalized name
  match property? n with
  | some s => some s
  | none => match category? n with
      | some s => some s
      | none => script? n

def valued? (property value : String) : Option CharSet :=
  let v := normalized value
  match normalized property with
  | "gc" | "generalcategory" => category? v
  | "sc" | "script" => script? v
  | "scx" | "scriptextensions" => scriptExtension? v
  | "age" => age? v
  | "gcb" | "graphemeclusterbreak" => graphemeBreaks.value? v
  | "wb" | "wordbreak" => wordBreaks.value? v
  | "sb" | "sentencebreak" => sentenceBreaks.value? v
  | _ => none

end BytecodeMutation.Unicode
