import BytecodeMutation.Opcode

namespace BytecodeMutation

inductive Format where
  | plain
  | signedByte
  | signedShort
  | arrayType
  | variable
  | increment
  | shortConstant
  | constant
  | branch
  | farBranch
  | tableSwitch
  | lookupSwitch
  | invokeInterface
  | invokeDynamic
  | multiArray
  | wide
  deriving DecidableEq, Repr

def Format.ofOpcode? (opcode : UInt8) : Option Format :=
  let n := opcode.toNat
  if n ≤ 0x0f then some .plain
  else if n = 0x10 then some .signedByte
  else if n = 0x11 then some .signedShort
  else if n = 0x12 then some .shortConstant
  else if n ≤ 0x14 then some .constant
  else if n ≤ 0x19 then some .variable
  else if n ≤ 0x35 then some .plain
  else if n ≤ 0x3a then some .variable
  else if n ≤ 0x83 then some .plain
  else if n = 0x84 then some .increment
  else if n ≤ 0x98 then some .plain
  else if n ≤ 0xa8 then some .branch
  else if n = 0xa9 then some .variable
  else if n = 0xaa then some .tableSwitch
  else if n = 0xab then some .lookupSwitch
  else if n ≤ 0xb1 then some .plain
  else if n ≤ 0xb8 then some .constant
  else if n = 0xb9 then some .invokeInterface
  else if n = 0xba then some .invokeDynamic
  else if n = 0xbb then some .constant
  else if n = 0xbc then some .arrayType
  else if n = 0xbd then some .constant
  else if n ≤ 0xbf then some .plain
  else if n ≤ 0xc1 then some .constant
  else if n ≤ 0xc3 then some .plain
  else if n = 0xc4 then some .wide
  else if n = 0xc5 then some .multiArray
  else if n ≤ 0xc7 then some .branch
  else if n ≤ 0xc9 then some .farBranch
  else none

end BytecodeMutation
