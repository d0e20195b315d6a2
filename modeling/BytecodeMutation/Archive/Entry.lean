import BytecodeMutation.Archive.Words
import BytecodeMutation.Text.Lossy

namespace BytecodeMutation

namespace Archive

def upperHalf : Array Char :=
  ("ÇüéâäàåçêëèïîìÄÅÉæÆôöòûùÿÖÜ¢£¥₧ƒáíóúñÑªº¿⌐¬½¼¡«»░▒▓│┤╡╢╖╕╣║╗╝╜╛┐"
    ++ "└┴┬├─┼╞╟╚╔╩╦╠═╬╧╨╤╥╙╘╒╓╫╪┘┌█▄▌▐▀αßΓπΣσµτΦΘΩδ∞φε∩≡±≥≤⌠⌡÷≈°∙·√ⁿ²■\u00a0").toList.toArray

def codePageChar (b : UInt8) : Char :=
  if b < 128 then .ofNat b.toNat else upperHalf.getD (b.toNat - 128) ' '

def textOf (isUtf8 : Bool) (raw : Bytes) : String :=
  if isUtf8 then Text.lossyUtf8 raw else .ofList (raw.map codePageChar)

end Archive

structure ArchiveEntry where
  name : String
  rawName : Bytes
  comment : String
  isEncrypted : Bool
  hasCipher : Bool := false
  method : Nat
  checksum : UInt32
  compressedSize : Nat
  size : Nat
  start : Nat
  deriving DecidableEq, Repr

namespace Archive

def tooLong : Nat := 0xffffffff

def longNumber? (always : Bool) (v used : Nat) (s : Bytes) : Option (Nat × Nat × Bytes) :=
  if always || v == tooLong then (number? 8 s).map fun (v, s) => (v, used + 8, s)
  else some (v, used, s)

def longSizes? (length : Nat) (e : ArchiveEntry) (s : Bytes) : Option (ArchiveEntry × Bytes) := do
  let always := 24 ≤ length
  let (size, used, s) ← longNumber? always e.size 0 s
  let (compressedSize, used, s) ← longNumber? always e.compressedSize used s
  let (start, used, s) ← longNumber? always e.start used s
  guard (used ≤ length)
  let (_, s) ← Bytes.split? (length - used) s
  return ({ e with size, compressedSize, start }, s)

def fileTimes? (length : Nat) (s : Bytes) : Option Bytes := do
  guard (length = 32)
  let (field, s) ← Bytes.split? 32 s
  guard (word field 4 2 = 1 ∧ word field 6 2 = 24)
  return s

def shortTimes? (length : Nat) (s : Bytes) : Option Bytes := do
  let (given, s) ← number? 1 s
  let said := (List.range 8).filter given.testBit
  guard (length = 5 ∨ length = 1 + 4 * said.length)
  let times := if length = 5 then 1 else (said.filter (· < 3)).length
  let (_, s) ← Bytes.split? (4 * times) s
  return s

def cipher? (length : Nat) (s : Bytes) : Option (Nat × Bytes) := do
  guard (length = 7)
  let (field, s) ← Bytes.split? 7 s
  let version := word field 0 2
  let strength := word field 4 1
  guard (word field 2 2 = 0x4541 ∧ 1 ≤ version ∧ version ≤ 2 ∧ 1 ≤ strength ∧ strength ≤ 3)
  return (word field 5 2, s)

def unicodeText? (length : Nat) (other s : Bytes) : Option (Bytes × String × Bytes) := do
  let (_, s) ← number? 1 s
  let (checksum, s) ← number? 4 s
  guard (5 ≤ length)
  let (raw, s) ← Bytes.split? (length - 5) s
  guard ((Checksum.crc32 other).toNat = checksum)
  return (raw, ← Text.utf8? raw, s)

def readField? (kind length : Nat) (e : ArchiveEntry) (s : Bytes) :
    Option (ArchiveEntry × Bytes) :=
  match kind with
  | 0x0001 => longSizes? length e s
  | 0x000a => (fileTimes? length s).map fun s => (e, s)
  | 0x5455 => (shortTimes? length s).map fun s => (e, s)
  | 0x6375 => (unicodeText? length e.comment.toUTF8.toList s).map fun (_, comment, s) =>
      ({ e with comment }, s)
  | 0x7075 => (unicodeText? length e.rawName s).map fun (rawName, name, s) =>
      ({ e with rawName, name }, s)
  | 0x9901 => (cipher? length s).map fun (method, s) => ({ e with method, hasCipher := true }, s)
  | _ => (Bytes.split? length s).map fun (_, s) => (e, s)

def readFields? : Nat → ArchiveEntry → Bytes → Option ArchiveEntry
  | _, e, [] => some e
  | _, e, [_] => some e
  | 0, _, _ => none
  | n + 1, e, s => do
      let (kind, s) ← number? 2 s
      let (length, s) ← number? 2 s
      let (e, s) ← readField? kind length e s
      readFields? n e s

def cipherMethod : Nat := 99

def directorySignature : Bytes := [0x50, 0x4b, 1, 2]

def readEntry? (s : Bytes) : Option (ArchiveEntry × Bytes) := do
  guard (isSigned directorySignature s)
  let (header, rest) ← Bytes.split? 46 s
  let (rawName, rest) ← Bytes.split? (word header 28 2) rest
  let (fields, rest) ← Bytes.split? (word header 30 2) rest
  let (comment, rest) ← Bytes.split? (word header 32 2) rest
  let flags := word header 8 2
  let isUtf8 := flags.testBit 11
  let e ← readFields? fields.length {
    name := textOf isUtf8 rawName, rawName, comment := textOf isUtf8 comment
    isEncrypted := flags.testBit 0, method := word header 10 2
    checksum := .ofNat (word header 16 4), compressedSize := word header 20 4
    size := word header 24 4, start := word header 42 4 } fields
  guard (e.hasCipher || e.method != cipherMethod)
  return (e, rest)

end Archive

def ArchiveEntry.isDirectory (e : ArchiveEntry) : Bool :=
  e.name.endsWith "/" || e.name.endsWith "\\"

end BytecodeMutation
