import BytecodeMutation.Operator
import BytecodeMutation.Pattern.Compile

namespace BytecodeMutation

inductive Inapplicable where
  | limit (limit : Limit)
  | noMethod (location : Location)
  | unknownOperator (id : String)
  | unmatched (id : Identifier)
  | unregistered (id : Identifier)
  deriving DecidableEq, Repr

def Inapplicable.message : Inapplicable → String
  | .limit l => l.message
  | .noMethod location => s!"no method with code at {location.text}"
  | .unknownOperator id => s!"unknown operator {id}"
  | .unmatched id => s!"{id.text} does not match an instruction at every index"
  | .unregistered id => s!"{id.text} was not registered"

inductive SourceError where
  | unsupported (path : String)
  | unopened (path : String)
  | unreadable (path : String)
  | unreadableEntry (path entry : String)
  | malformed (path : String)
  deriving DecidableEq, Repr

def SourceError.message : SourceError → String
  | .unsupported path => s!"unsupported input file: {path}"
  | .unopened path => s!"failed to open {path}"
  | .unreadable path => s!"failed to read {path}"
  | .unreadableEntry path entry => s!"failed to read {path}:{entry}"
  | .malformed path => s!"failed to parse {path}"

inductive EngineError where
  | classNotFound (className : String)
  | invalidClass (className : String) (fault : Fault)
  | notApplicable (className : String) (reason : Inapplicable)
  | operatorFailed (operator : Operator) (location : Location) (ordinal : Nat) (fault : Fault)
  | unknownFilter (name : String)
  | unknownOperator (name : String)
  | invalidPattern (pattern : String) (fault : PatternFault)
  | unreadable (className : String) (reason : SourceError)
  | overflow
  deriving DecidableEq, Repr

def EngineError.ofFault (className : String) : Fault → EngineError
  | .overflow => .overflow
  | fault => .invalidClass className fault

def EngineError.message : EngineError → String
  | .classNotFound className => s!"class not found: {className}"
  | .invalidClass className fault => s!"invalid class {className}: {fault.message}"
  | .notApplicable className reason =>
      s!"mutation not applicable to {className}: {reason.message}"
  | .operatorFailed operator location ordinal fault =>
      s!"operator {operator.id} failed at {location.text} ordinal {ordinal}: {fault.message}"
  | .unknownFilter name => s!"unknown filter: {name}"
  | .unknownOperator name => s!"unknown mutation operator or group: {name}"
  | .invalidPattern pattern _ => s!"invalid pattern {pattern}"
  | .unreadable className reason =>
      s!"failed to read {className} from class source: {reason.message}"
  | .overflow => Fault.overflow.message

end BytecodeMutation
