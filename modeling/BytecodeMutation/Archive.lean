import BytecodeMutation.Archive.Bzip2
import BytecodeMutation.Archive.Directory
import BytecodeMutation.Archive.Inflate
import BytecodeMutation.Archive.Lzma

namespace BytecodeMutation

structure Archive where
  data : Bytes
  entries : List ArchiveEntry
  deriving DecidableEq, Repr

namespace Archive

def read? (data : Bytes) : Option Archive :=
  (Directory.find? data).map fun entries => ⟨data, entries⟩

def entrySignature : Bytes := [0x50, 0x4b, 3, 4]

def isKnownMethod (method : Nat) : Bool := [0, 8, 9, 12, 14, 93, 95, 98].contains method

variable (a : Archive)

def find? (name : String) : Option ArchiveEntry := a.entries.find? (·.name == name)

def compressed? (e : ArchiveEntry) : Option Bytes := do
  guard (!e.isEncrypted && !e.hasCipher && isKnownMethod e.method)
  let (header, rest) ← Bytes.split? 30 (a.data.drop e.start)
  guard (isSigned entrySignature header)
  return (rest.drop (word header 26 2 + word header 28 2)).take e.compressedSize

def decompress? (method size : Nat) (raw : Bytes) : Option Bytes :=
  match method with
  | 0 => some raw
  | 8 => Inflate.inflate? Inflate.standard raw
  | 9 => Inflate.inflate? Inflate.wide raw
  | 12 => Bzip2.decompress? raw
  | 14 => Lzma.decompress? size raw
  | _ => none

def content? (e : ArchiveEntry) : Option Bytes := do
  let content ← decompress? e.method e.size (← a.compressed? e)
  guard (Checksum.crc32 content == e.checksum)
  return content

end Archive

end BytecodeMutation
