import BytecodeMutation.Filter
import BytecodeMutation.Operator.Selection
import BytecodeMutation.Pattern.Compile
import BytecodeMutation.Toml

namespace BytecodeMutation

structure Config where
  mutators : List String := ["DEFAULTS"]
  excludedMethods : List String := []
  excludedClassAnnotations : List String := ["Generated", "DoNotMutate", "CoverageIgnore"]
  detectInlinedCode : Bool := false
  filters : List String := FilterKind.defaults.map FilterKind.name
  groovyInterfaces : List String := ["groovy/lang/GroovyObject"]
  groovyClassPatterns : List String := ["\\$_.*_closure"]
  syntheticMethodAllowlist : List String := ["^lambda\\$"]
  deriving DecidableEq, Repr

structure Settings where
  operators : List Operator
  excludedMethods : List Pattern
  excludedClassAnnotations : List String
  filters : List FilterKind
  filterRules : FilterRules
  deriving Repr

namespace Config

def set? (c : Config) : String × TomlValue → Option Config
  | ("mutators", .texts ts) => some { c with mutators := ts }
  | ("excluded_methods", .texts ts) => some { c with excludedMethods := ts }
  | ("excluded_class_annotations", .texts ts) => some { c with excludedClassAnnotations := ts }
  | ("detect_inlined_code", .flag b) => some { c with detectInlinedCode := b }
  | ("filters", .texts ts) => some { c with filters := ts }
  | ("groovy_interfaces", .texts ts) => some { c with groovyInterfaces := ts }
  | ("groovy_class_patterns", .texts ts) => some { c with groovyClassPatterns := ts }
  | ("synthetic_method_allowlist", .texts ts) => some { c with syntheticMethodAllowlist := ts }
  | _ => none

def ofSettings? (settings : List (String × TomlValue)) : Option Config :=
  settings.foldlM set? {}

def ofToml? (text : String) : Option Config := do ofSettings? (← Toml.parse? text)

def compile (patterns : List String) : Except EngineError (List Pattern) :=
  patterns.mapM fun p => (Pattern.compile p).mapError (.invalidPattern p)

def addFilter (chosen : List FilterKind) (k : FilterKind) : List FilterKind :=
  if k ∈ chosen then chosen else chosen ++ [k]

def resolveFilters (names : List String) : Except EngineError (List FilterKind) :=
  names.foldlM (fun chosen name => (FilterKind.parse name).map (addFilter chosen)) []

def resolve (c : Config) : Except EngineError Settings := do
  let operators ← Operator.resolve c.mutators
  let filters ← resolveFilters c.filters
  let excludedMethods ← compile c.excludedMethods
  let groovyClassPatterns ← compile c.groovyClassPatterns
  let syntheticMethodAllowlist ← compile c.syntheticMethodAllowlist
  return {
    operators, excludedMethods
    excludedClassAnnotations := c.excludedClassAnnotations
    filters := if c.detectInlinedCode then addFilter filters .inlinedFinally else filters
    filterRules := {
      groovyInterfaces := c.groovyInterfaces.map (Text.replaceChar '.' '/')
      groovyClassPatterns, syntheticMethodAllowlist } }

end Config

namespace Settings

def standard : Settings :=
  let c : Config := {}
  { operators := Operator.defaults
    excludedMethods := []
    excludedClassAnnotations := c.excludedClassAnnotations
    filters := FilterKind.defaults
    filterRules := {
      groovyInterfaces := c.groovyInterfaces
      groovyClassPatterns := c.groovyClassPatterns.filterMap Pattern.parse?
      syntheticMethodAllowlist := c.syntheticMethodAllowlist.filterMap Pattern.parse? } }

def skipsMethod (s : Settings) (name : String) : Bool :=
  s.excludedMethods.any (·.occursIn name)

def simpleName (qualified : String) : String :=
  .ofList ((qualified.toList.reverse.takeWhile fun c => c != '.' && c != '$').reverse)

def skipsAnnotated (s : Settings) (annotations : List String) : Bool :=
  annotations.any fun a =>
    let qualified := Text.replaceChar '/' '.' a
    s.excludedClassAnnotations.any fun e => e == qualified || e == simpleName qualified

end Settings

structure ClassSelection where
  included : List Pattern
  excluded : List Pattern
  deriving Repr

namespace ClassSelection

def ofTexts (included excluded : List String) : Except EngineError ClassSelection := do
  return ⟨← Config.compile included, ← Config.compile excluded⟩

def accepts (f : ClassSelection) (name : String) : Bool :=
  let dotted := ClassName.dotted (ClassName.internal name)
  (f.included.isEmpty || f.included.any (·.occursIn dotted))
    && !f.excluded.any (·.occursIn dotted)

end ClassSelection

end BytecodeMutation
