import BytecodeMutation.Archive.Entry

namespace BytecodeMutation.Archive

structure Directory where
  start : Nat
  count : Nat
  shift : Nat
  deriving DecidableEq, Repr

namespace Directory

def endSignature : Bytes := [0x50, 0x4b, 5, 6]

def longEndSignature : Bytes := [0x50, 0x4b, 6, 6]

def locatorSignature : Bytes := [0x50, 0x4b, 6, 7]

def short? (data : Bytes) (place : Nat) (record : Bytes) : Option Directory := do
  let offset := word record 16 4
  let start ← if word record 10 2 = 0 then some (max offset place) else do
    guard (offset < place)
    (offsetsBetween directorySignature data offset place).head?
  guard (word record 4 2 = word record 6 2)
  return ⟨start, word record 8 2, start - offset⟩

def isLocated (locator record : Bytes) (locatorPlace place : Nat) : Bool :=
  44 ≤ word record 4 8 && word record 4 8 + 12 == locatorPlace - place
    && word record 20 4 == word locator 4 4
    && word record 32 8 * 46 + word record 48 8 ≤ place

def long? (data : Bytes) (locatorPlace : Nat) (locator : Bytes) : Option Directory := do
  let offset := word locator 8 8
  guard (offset < locatorPlace ∧ word locator 16 4 ≤ 1)
  let place ← (offsetsBetween longEndSignature data offset locatorPlace).find? fun place =>
    isLocated locator (data.drop place) locatorPlace place
  let record := data.drop place
  guard (word record 24 8 ≤ word record 32 8 ∧ word record 14 2 ≤ word record 12 2
    ∧ word record 16 4 = word record 20 4)
  return ⟨word record 48 8 + (place - offset), word record 32 8, place - offset⟩

def ofEnd? (data : Bytes) (place : Nat) : Option Directory := do
  let record := data.drop place
  guard (place + 22 + word record 20 2 ≤ data.length)
  let mayBeLong := word record 10 2 == 0xffff || word record 16 4 == tooLong
  let locator := data.drop (place - 20)
  if mayBeLong && 20 ≤ place && isSigned locatorSignature locator then
    long? data (place - 20) locator
  else short? data place record

def addEntry (entries : List ArchiveEntry) (e : ArchiveEntry) : List ArchiveEntry :=
  if entries.any (·.name == e.name) then entries.map fun f => if f.name == e.name then e else f
  else entries ++ [e]

def readEntries? (shift : Nat) (acc : List ArchiveEntry) : Nat → Bytes → Option (List ArchiveEntry)
  | 0, _ => some acc
  | n + 1, s => do
      let (e, s) ← readEntry? s
      readEntries? shift (addEntry acc { e with start := e.start + shift }) n s

def entries? (data : Bytes) (d : Directory) : Option (List ArchiveEntry) :=
  readEntries? d.shift [] d.count (data.drop d.start)

def find? (data : Bytes) : Option (List ArchiveEntry) :=
  (offsetsOf endSignature data).findSome? fun place => do entries? data (← ofEnd? data place)

end Directory

end BytecodeMutation.Archive
