import BytecodeMutation.Error
import BytecodeMutation.Filter.InlinedFinally
import BytecodeMutation.Pattern.Match

namespace BytecodeMutation

inductive FilterKind where
  | enum
  | assert
  | stringSwitch
  | groovy
  | bridge
  | inlinedFinally
  deriving DecidableEq, Repr

namespace FilterKind

def defaults : List FilterKind := [.enum, .assert, .stringSwitch, .groovy, .bridge]

def all : List FilterKind := defaults ++ [.inlinedFinally]

theorem mem_all (k : FilterKind) : k ∈ all := by cases k <;> decide

def name : FilterKind → String
  | .enum => "ENUM"
  | .assert => "ASSERT"
  | .stringSwitch => "STRING_SWITCH"
  | .groovy => "GROOVY"
  | .bridge => "BRIDGE"
  | .inlinedFinally => "INLINED_FINALLY"

def parse (name : String) : Except EngineError FilterKind :=
  match all.find? fun k => Text.equalIgnoringCase k.name name with
  | some k => .ok k
  | none => .error (.unknownFilter name)

end FilterKind

structure FilterRules where
  groovyInterfaces : List String
  groovyClassPatterns : List Pattern
  syntheticMethodAllowlist : List Pattern
  deriving Repr

namespace Filter

def isGroovy (f : FilterRules) (c : Class) : Bool :=
  c.interfaces.any f.groovyInterfaces.contains
    || f.groovyClassPatterns.any (·.occursIn c.name)

def isHidden (f : FilterRules) (h : MethodHeader) : Bool :=
  (h.isBridge || h.isSynthetic) && !f.syntheticMethodAllowlist.any (·.occursIn h.name)

def dropGenerated (c : Class) (m : Method) (ms : List Details) : List Details :=
  let h := c.header m
  if !h.isImplicitInEnum then ms
  else if !h.isClassInitializer then []
  else dropRanges (EnumInitializer.range? c.name m).toList ms

def apply (f : FilterRules) (c : Class) (m : Method) (blocks : Blocks) (kind : FilterKind)
    (ms : List Details) : List Details :=
  match kind with
  | .enum => dropGenerated c m ms
  | .assert => dropRanges (Assertions.ranges m) ms
  | .stringSwitch => dropRanges (StringSwitch.ranges m) ms
  | .groovy => if isGroovy f c then [] else ms
  | .bridge => if isHidden f (c.header m) then [] else ms
  | .inlinedFinally => InlinedFinally.apply m blocks ms

def applyAll (f : FilterRules) (c : Class) (m : Method) (blocks : Blocks)
    (kinds : List FilterKind) (ms : List Details) : List Details :=
  kinds.foldl (fun ms kind => apply f c m blocks kind ms) ms

end Filter

end BytecodeMutation
