namespace BytecodeMutation.Opcode

@[match_pattern] abbrev nop : UInt8 := 0x00
@[match_pattern] abbrev aconstNull : UInt8 := 0x01
@[match_pattern] abbrev iconstM1 : UInt8 := 0x02
@[match_pattern] abbrev iconst0 : UInt8 := 0x03
@[match_pattern] abbrev iconst1 : UInt8 := 0x04
@[match_pattern] abbrev iconst5 : UInt8 := 0x08
@[match_pattern] abbrev lconst0 : UInt8 := 0x09
@[match_pattern] abbrev lconst1 : UInt8 := 0x0a
@[match_pattern] abbrev fconst0 : UInt8 := 0x0b
@[match_pattern] abbrev fconst1 : UInt8 := 0x0c
@[match_pattern] abbrev fconst2 : UInt8 := 0x0d
@[match_pattern] abbrev dconst0 : UInt8 := 0x0e
@[match_pattern] abbrev dconst1 : UInt8 := 0x0f
@[match_pattern] abbrev bipush : UInt8 := 0x10
@[match_pattern] abbrev sipush : UInt8 := 0x11
@[match_pattern] abbrev ldc : UInt8 := 0x12
@[match_pattern] abbrev ldcW : UInt8 := 0x13
@[match_pattern] abbrev ldc2W : UInt8 := 0x14
@[match_pattern] abbrev iload : UInt8 := 0x15
@[match_pattern] abbrev aload : UInt8 := 0x19
@[match_pattern] abbrev iload0 : UInt8 := 0x1a
@[match_pattern] abbrev aload0 : UInt8 := 0x2a
@[match_pattern] abbrev istore : UInt8 := 0x36
@[match_pattern] abbrev astore : UInt8 := 0x3a
@[match_pattern] abbrev istore0 : UInt8 := 0x3b
@[match_pattern] abbrev astore0 : UInt8 := 0x4b
@[match_pattern] abbrev pop : UInt8 := 0x57
@[match_pattern] abbrev pop2 : UInt8 := 0x58
@[match_pattern] abbrev dup : UInt8 := 0x59
@[match_pattern] abbrev iadd : UInt8 := 0x60
@[match_pattern] abbrev ladd : UInt8 := 0x61
@[match_pattern] abbrev fadd : UInt8 := 0x62
@[match_pattern] abbrev dadd : UInt8 := 0x63
@[match_pattern] abbrev isub : UInt8 := 0x64
@[match_pattern] abbrev lsub : UInt8 := 0x65
@[match_pattern] abbrev fsub : UInt8 := 0x66
@[match_pattern] abbrev dsub : UInt8 := 0x67
@[match_pattern] abbrev imul : UInt8 := 0x68
@[match_pattern] abbrev lmul : UInt8 := 0x69
@[match_pattern] abbrev fmul : UInt8 := 0x6a
@[match_pattern] abbrev dmul : UInt8 := 0x6b
@[match_pattern] abbrev idiv : UInt8 := 0x6c
@[match_pattern] abbrev ldiv : UInt8 := 0x6d
@[match_pattern] abbrev fdiv : UInt8 := 0x6e
@[match_pattern] abbrev ddiv : UInt8 := 0x6f
@[match_pattern] abbrev irem : UInt8 := 0x70
@[match_pattern] abbrev lrem : UInt8 := 0x71
@[match_pattern] abbrev frem : UInt8 := 0x72
@[match_pattern] abbrev drem : UInt8 := 0x73
@[match_pattern] abbrev ineg : UInt8 := 0x74
@[match_pattern] abbrev lneg : UInt8 := 0x75
@[match_pattern] abbrev fneg : UInt8 := 0x76
@[match_pattern] abbrev dneg : UInt8 := 0x77
@[match_pattern] abbrev ishl : UInt8 := 0x78
@[match_pattern] abbrev lshl : UInt8 := 0x79
@[match_pattern] abbrev ishr : UInt8 := 0x7a
@[match_pattern] abbrev lshr : UInt8 := 0x7b
@[match_pattern] abbrev iushr : UInt8 := 0x7c
@[match_pattern] abbrev lushr : UInt8 := 0x7d
@[match_pattern] abbrev iand : UInt8 := 0x7e
@[match_pattern] abbrev land : UInt8 := 0x7f
@[match_pattern] abbrev ior : UInt8 := 0x80
@[match_pattern] abbrev lor : UInt8 := 0x81
@[match_pattern] abbrev ixor : UInt8 := 0x82
@[match_pattern] abbrev lxor : UInt8 := 0x83
@[match_pattern] abbrev iinc : UInt8 := 0x84
@[match_pattern] abbrev ifeq : UInt8 := 0x99
@[match_pattern] abbrev ifne : UInt8 := 0x9a
@[match_pattern] abbrev iflt : UInt8 := 0x9b
@[match_pattern] abbrev ifge : UInt8 := 0x9c
@[match_pattern] abbrev ifgt : UInt8 := 0x9d
@[match_pattern] abbrev ifle : UInt8 := 0x9e
@[match_pattern] abbrev ifIcmpeq : UInt8 := 0x9f
@[match_pattern] abbrev ifIcmpne : UInt8 := 0xa0
@[match_pattern] abbrev ifIcmplt : UInt8 := 0xa1
@[match_pattern] abbrev ifIcmpge : UInt8 := 0xa2
@[match_pattern] abbrev ifIcmpgt : UInt8 := 0xa3
@[match_pattern] abbrev ifIcmple : UInt8 := 0xa4
@[match_pattern] abbrev ifAcmpeq : UInt8 := 0xa5
@[match_pattern] abbrev ifAcmpne : UInt8 := 0xa6
@[match_pattern] abbrev goto : UInt8 := 0xa7
@[match_pattern] abbrev jsr : UInt8 := 0xa8
@[match_pattern] abbrev ret : UInt8 := 0xa9
@[match_pattern] abbrev tableswitch : UInt8 := 0xaa
@[match_pattern] abbrev lookupswitch : UInt8 := 0xab
@[match_pattern] abbrev ireturn : UInt8 := 0xac
@[match_pattern] abbrev lreturn : UInt8 := 0xad
@[match_pattern] abbrev freturn : UInt8 := 0xae
@[match_pattern] abbrev dreturn : UInt8 := 0xaf
@[match_pattern] abbrev areturn : UInt8 := 0xb0
@[match_pattern] abbrev returnVoid : UInt8 := 0xb1
@[match_pattern] abbrev getstatic : UInt8 := 0xb2
@[match_pattern] abbrev putstatic : UInt8 := 0xb3
@[match_pattern] abbrev getfield : UInt8 := 0xb4
@[match_pattern] abbrev putfield : UInt8 := 0xb5
@[match_pattern] abbrev invokevirtual : UInt8 := 0xb6
@[match_pattern] abbrev invokespecial : UInt8 := 0xb7
@[match_pattern] abbrev invokestatic : UInt8 := 0xb8
@[match_pattern] abbrev invokeinterface : UInt8 := 0xb9
@[match_pattern] abbrev invokedynamic : UInt8 := 0xba
@[match_pattern] abbrev new : UInt8 := 0xbb
@[match_pattern] abbrev newarray : UInt8 := 0xbc
@[match_pattern] abbrev anewarray : UInt8 := 0xbd
@[match_pattern] abbrev arraylength : UInt8 := 0xbe
@[match_pattern] abbrev athrow : UInt8 := 0xbf
@[match_pattern] abbrev checkcast : UInt8 := 0xc0
@[match_pattern] abbrev instanceof : UInt8 := 0xc1
@[match_pattern] abbrev monitorenter : UInt8 := 0xc2
@[match_pattern] abbrev monitorexit : UInt8 := 0xc3
@[match_pattern] abbrev wide : UInt8 := 0xc4
@[match_pattern] abbrev multianewarray : UInt8 := 0xc5
@[match_pattern] abbrev ifnull : UInt8 := 0xc6
@[match_pattern] abbrev ifnonnull : UInt8 := 0xc7
@[match_pattern] abbrev gotoW : UInt8 := 0xc8
@[match_pattern] abbrev jsrW : UInt8 := 0xc9

def isConditional (op : UInt8) : Bool :=
  (ifeq ≤ op && op ≤ ifAcmpne) || op == ifnull || op == ifnonnull

def isJump (op : UInt8) : Bool :=
  op == goto || op == jsr || op == gotoW || op == jsrW

def isFarJump (op : UInt8) : Bool :=
  op == gotoW || op == jsrW

def isSwitch (op : UInt8) : Bool :=
  op == tableswitch || op == lookupswitch

def isExit (op : UInt8) : Bool :=
  (ireturn ≤ op && op ≤ returnVoid) || op == athrow || op == ret

def branches (op : UInt8) : Bool :=
  isConditional op || isJump op || isSwitch op

end BytecodeMutation.Opcode
