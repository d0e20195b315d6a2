import BytecodeMutation.Bytes

namespace BytecodeMutation.Archive

def littleEndian (s : Bytes) : Nat := s.foldr (fun b n => b.toNat + 256 * n) 0

def word (s : Bytes) (offset size : Nat) : Nat := littleEndian ((s.drop offset).take size)

def number? (size : Nat) (s : Bytes) : Option (Nat × Bytes) :=
  (Bytes.split? size s).map fun (a, r) => (littleEndian a, r)

def isSigned (signature s : Bytes) : Bool := s.take 4 == signature

def signedAfter (signature : Bytes) (found : List Nat) (offset : Nat) : Bytes → List Nat
  | [] => found
  | b :: s =>
      signedAfter signature (if isSigned signature (b :: s) then offset :: found else found)
        (offset + 1) s

def offsetsOf (signature data : Bytes) : List Nat := signedAfter signature [] 0 data

def offsetsBetween (signature data : Bytes) (first last : Nat) : List Nat :=
  (offsetsOf signature (data.take last)).reverse.filter (first ≤ ·)

end BytecodeMutation.Archive

namespace BytecodeMutation.Checksum

def step (state : UInt32) : UInt32 :=
  if state &&& 1 == 1 then (state >>> 1) ^^^ 0xedb88320 else state >>> 1

def addByte (state : UInt32) (b : UInt8) : UInt32 :=
  let s := state ^^^ b.toUInt32
  step (step (step (step (step (step (step (step s)))))))

def crc32 (data : Bytes) : UInt32 := data.foldl addByte 0xffffffff ^^^ 0xffffffff

def stepForward (state : UInt32) : UInt32 :=
  if state >>> 31 == 1 then (state <<< 1) ^^^ 0x04c11db7 else state <<< 1

def addByteForward (state : UInt32) (b : UInt8) : UInt32 :=
  let s := state ^^^ (b.toUInt32 <<< 24)
  stepForward (stepForward (stepForward (stepForward
    (stepForward (stepForward (stepForward (stepForward s)))))))

def forward (data : Bytes) : UInt32 := data.foldl addByteForward 0xffffffff ^^^ 0xffffffff

example : crc32 [0x31, 0x32, 0x33, 0x34, 0x35, 0x36, 0x37, 0x38, 0x39] =
    0xcbf43926 := by decide +kernel

end BytecodeMutation.Checksum
