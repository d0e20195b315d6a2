import BytecodeMutation.Bytes

/-!
Why reading, analysing or editing a class fails. A fault is a cause inside the activities that
met it, and its message names the outermost activity first.
-/

namespace BytecodeMutation

inductive Limit where
  | conditionalOutOfReach (offset : Nat)
  | codeTooLarge (length : Nat)
  | poolFull
  | stringTooLong
  deriving DecidableEq, Repr

inductive Activity where
  | parseClassFile
  | divideClassFile
  | resolveClassName
  | resolveInterfaceName
  | readSourceFile
  | resolveSourceFile
  | readClassAnnotations
  | resolveAnnotationType
  | parseMethods (className : String)
  | resolveMethodName
  | resolveMethodDescriptor
  | parseCode (name descriptor : String)
  | decodeInstruction (offset : Nat)
  | resolveMethodRef (offset : Nat)
  | resolveFieldRef (offset : Nat)
  | resolveOwner
  | resolveMemberName
  | resolveMemberDescriptor
  | parseHandlers
  | resolveCatchType
  | validate (name descriptor : String)
  | removeCall (owner name : String)
  | parseDescriptor
  | moveHandlers
  | moveVariableEnd
  deriving DecidableEq, Repr

inductive Fault where
  | during (activity : Activity) (cause : Fault)
  | limit (limit : Limit)
  | classTruncated
  | badMagic
  | constantTag (tag : UInt8)
  | trailingBytes (count : Nat)
  | codeLengthMismatch
  | elementTag (tag : UInt8)
  | malformedText
  | unknownAttribute (name : String)
  | typeTarget (target : UInt8)
  | missingMemberRef
  | unexpectedMemberRef
  | missingNameAndType
  | unexpectedNameAndType
  | missingClass
  | unexpectedClass
  | missingUtf8
  | unexpectedUtf8
  | methodCountMismatch
  | wordOutOfBounds
  | invalidLength (offset : Nat)
  | unsupportedOpcode (opcode : UInt8)
  | tableRange
  | lookupPairs
  | missingWideOpcode
  | targetOutOfRange (target : Int)
  | unresolvedConstant
  | branchTooFar (distance : Int32) (offset : Nat)
  | notAnInstruction (target : Nat)
  | misalignedBranch (offset target : Nat)
  | misalignedHandler (start stop handler : Nat)
  | conditionalWithoutTarget
  | descriptorStart
  | descriptorReturn
  | descriptorClass
  | descriptorDimensions
  | descriptorElement
  | descriptorType
  | descriptorEnd
  | emptyType
  | unterminatedClass
  | unexpectedTypeCharacter (c : Char)
  | trailingType (descriptor : String)
  | noCode (method : String)
  | codeDiffers (method : String) (held decoded : Nat)
  | noOrdinal (ordinal : Nat)
  | unexpectedBranch (opcode : UInt8)
  | lostOffset (offset : Nat)
  | variableRangeOverflow
  | variableRangeReversed
  | reservedFrame (type : UInt8)
  | frameLengthMismatch
  | verificationTag (tag : UInt8)
  | lostFrame (offset : Nat)
  | framesOutOfOrder
  | frameDeltaOverflow
  | lostAllocation (offset : Nat)
  /-- A sum left the range of its type. This stops the program, so that nothing is done with it. -/
  | overflow
  deriving DecidableEq, Repr

def hexByte (b : UInt8) : String :=
  "0x" ++ Bytes.toHex [b]

def Limit.message : Limit → String
  | .conditionalOutOfReach offset =>
      s!"conditional branch at offset {offset} no longer reaches its target"
  | .codeTooLarge length => s!"method code grew to {length} bytes"
  | .poolFull => "constant pool is full"
  | .stringTooLong => "constant string exceeds 65535 encoded bytes"

def Activity.message : Activity → String
  | .parseClassFile => "failed to parse class file bytes"
  | .divideClassFile => "failed to walk class file layout"
  | .resolveClassName => "resolve class name"
  | .resolveInterfaceName => "resolve interface name"
  | .readSourceFile => "read SourceFile"
  | .resolveSourceFile => "resolve SourceFile"
  | .readClassAnnotations => "read class annotations"
  | .resolveAnnotationType => "resolve annotation type"
  | .parseMethods className => s!"parse methods of {className}"
  | .resolveMethodName => "resolve method name"
  | .resolveMethodDescriptor => "resolve method descriptor"
  | .parseCode name descriptor => s!"parse bytecode of {name}{descriptor}"
  | .decodeInstruction offset => s!"decode instruction at offset {offset}"
  | .resolveMethodRef offset => s!"resolve method ref at offset {offset}"
  | .resolveFieldRef offset => s!"resolve field ref at offset {offset}"
  | .resolveOwner => "resolve owner"
  | .resolveMemberName => "resolve member name"
  | .resolveMemberDescriptor => "resolve member descriptor"
  | .parseHandlers => "parse handlers"
  | .resolveCatchType => "resolve catch type"
  | .validate name descriptor => s!"validate {name}{descriptor}"
  | .removeCall owner name => s!"call to {owner}::{name}"
  | .parseDescriptor => "parse method descriptor"
  | .moveHandlers => "remap exception table"
  | .moveVariableEnd => "local variable range end"

def Fault.message : Fault → String
  | .during activity cause => s!"{activity.message}: {cause.message}"
  | .limit l => l.message
  | .classTruncated => "class file out of bounds"
  | .badMagic => "invalid class file magic"
  | .constantTag tag => s!"unsupported constant pool tag: {tag}"
  | .trailingBytes count => s!"{count} trailing bytes after class attributes"
  | .codeLengthMismatch => "Code attribute length mismatch"
  | .elementTag tag => s!"unsupported annotation element tag: {tag}"
  | .malformedText => "malformed constant string"
  | .unknownAttribute name => s!"unknown attribute {name}"
  | .typeTarget target => s!"unknown type annotation target: {target}"
  | .missingMemberRef => "missing member ref entry"
  | .unexpectedMemberRef => "unexpected member ref entry"
  | .missingNameAndType => "missing name and type entry"
  | .unexpectedNameAndType => "unexpected name and type entry"
  | .missingClass => "missing class entry"
  | .unexpectedClass => "unexpected class entry"
  | .missingUtf8 => "missing utf8 entry"
  | .unexpectedUtf8 => "unexpected utf8 entry"
  | .methodCountMismatch => "method table length disagrees with class layout"
  | .wordOutOfBounds => "bytecode u32 out of bounds"
  | .invalidLength offset => s!"invalid bytecode length at offset {offset}"
  | .unsupportedOpcode opcode => s!"unsupported opcode {hexByte opcode}"
  | .tableRange => "invalid tableswitch range"
  | .lookupPairs => "invalid lookupswitch pairs"
  | .missingWideOpcode => "missing wide opcode"
  | .targetOutOfRange target => s!"branch target {target} out of range"
  | .unresolvedConstant => "unresolved constant pool entry"
  | .branchTooFar distance offset =>
      s!"branch offset {distance} at {offset} does not fit 16 bits"
  | .notAnInstruction target => s!"branch target {target} is not an instruction start"
  | .misalignedBranch offset target =>
      s!"branch at offset {offset} targets {target} which is not an instruction start"
  | .misalignedHandler start stop handler =>
      s!"exception handler [{start}, {stop}) -> {handler} is not aligned to instructions"
  | .conditionalWithoutTarget => "conditional without branch operand"
  | .descriptorStart => "Invalid descriptor: Method descriptor must start with '('."
  | .descriptorReturn => "Invalid descriptor: Missing return type."
  | .descriptorClass => "Invalid descriptor: Missing semicolon in class name descriptor."
  | .descriptorDimensions => "Array has too many dimensions."
  | .descriptorElement => "Invalid descriptor: Invalid descriptor."
  | .descriptorType => "Invalid descriptor: Unrecognized type descriptor."
  | .descriptorEnd => "Unexpected end of input."
  | .emptyType => "empty field descriptor"
  | .unterminatedClass => "unterminated class descriptor"
  | .unexpectedTypeCharacter c => s!"unexpected descriptor character '{c}'"
  | .trailingType descriptor => s!"trailing characters in {descriptor}"
  | .noCode method => s!"method {method} has no Code attribute"
  | .codeDiffers method held decoded =>
      s!"Code attribute of {method} holds {held} bytes but {decoded} were decoded"
  | .noOrdinal ordinal => s!"no instruction at ordinal {ordinal}"
  | .unexpectedBranch opcode => s!"unexpected branch opcode {hexByte opcode}"
  | .lostOffset offset => s!"offset {offset} is not an instruction start"
  | .variableRangeOverflow => "local variable range overflows"
  | .variableRangeReversed => "local variable range reversed"
  | .reservedFrame type => s!"reserved stack map frame type {type}"
  | .frameLengthMismatch => "StackMapTable length mismatch"
  | .verificationTag tag => s!"unknown verification type tag {tag}"
  | .lostFrame offset => s!"stack map frame at {offset} lost its instruction"
  | .framesOutOfOrder => "stack map frames out of order"
  | .frameDeltaOverflow => "stack map delta overflow: out of range"
  | .lostAllocation offset => s!"uninitialized type refers to lost \x60new\x60 at {offset}"
  | .overflow => "attempt to calculate with overflow"

def Fault.within (activity : Activity) : Fault → Fault
  | .overflow => .overflow
  | cause => .during activity cause

def attempt {α : Type} (activity : Activity) (r : Except Fault α) : Except Fault α :=
  r.mapError (.within activity)

namespace Result

theorem bind_ok {ε α β : Type} {x : Except ε α} {f : α → Except ε β} {b : β} :
    (x >>= f) = .ok b ↔ ∃ a, x = .ok a ∧ f a = .ok b := by
  cases x with
  | error e => simp [bind, Except.bind]
  | ok a => simp [bind, Except.bind]

end Result

end BytecodeMutation
