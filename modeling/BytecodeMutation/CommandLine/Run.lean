import BytecodeMutation.Config
import BytecodeMutation.ClassInput
import BytecodeMutation.CommandLine.Arguments
import BytecodeMutation.Json.Read
import BytecodeMutation.Report

namespace BytecodeMutation.CommandLine

structure World where
  node? : String → Option FileNode
  standardInput : Bytes

inductive Failure where
  | inputMissing (path : String)
  | classpathMissing (path : String)
  | configUnreadable (path : String)
  | configMalformed (path : String)
  | settings (e : EngineError)
  | source (e : SourceError)
  | scan (className : String) (e : EngineError)
  | apply (id : Identifier) (e : EngineError)
  | standardInputUnreadable
  | identifierUnreadable (path : String)
  | identifierMalformed
  | outputUnopened (path : String)
  | outputUnwritten (path : String)
  deriving DecidableEq, Repr

def settingsMessage : EngineError → String
  | .invalidPattern pattern fault => s!"invalid pattern {pattern}: {fault.message}"
  | e => e.message

def Failure.message : Failure → String
  | .inputMissing path => s!"input not found: {path}"
  | .classpathMissing path => s!"classpath entry not found: {path}"
  | .configUnreadable path => s!"read config {PathName.quoted path}"
  | .configMalformed path => s!"parse toml from {PathName.quoted path}"
  | .settings e => settingsMessage e
  | .source e => e.message
  | .scan className _ => s!"failed to scan {className}"
  | .apply id _ => s!"failed to apply {id.text}"
  | .standardInputUnreadable => "failed to read identifier from stdin"
  | .identifierUnreadable path => s!"failed to read {path}"
  | .identifierMalformed => "failed to parse mutation identifier"
  | .outputUnopened path => s!"failed to open {path}"
  | .outputUnwritten path => s!"failed to write {path}"

def Failure.cause? : Failure → Option EngineError
  | .scan _ e | .apply _ e => some e
  | _ => none

def Failure.report (f : Failure) : String :=
  s!"Error: {f.message}\n" ++ match f.cause? with
    | some e => s!"\nCaused by:\n    {e.message}\n"
    | none => ""

inductive Outcome where
  | misuse
  | print (text : String)
  | write (path : String) (content : Bytes) (otherwise : Failure)
  | fail (f : Failure)
  | stop
  deriving DecidableEq, Repr

def Outcome.ofFailure (f : Failure) : Outcome :=
  if f.cause? = some .overflow then .stop else .fail f

namespace World

variable (w : World)

def exists? (path : String) : Bool := (w.node? path).isSome

def text? (path : String) : Option String := do
  let node ← w.node? path
  let content ← node.content?
  Text.utf8? content

end World

def requirePaths (w : World) (input : String) (classpath : List String) : Except Failure Unit :=
  if !w.exists? input then .error (.inputMissing input)
  else match classpath.find? fun path => !w.exists? path with
    | some path => .error (.classpathMissing path)
    | none => .ok ()

def readConfig (w : World) : Option String → Except Failure Config
  | none => .ok {}
  | some path => match w.text? path with
      | none => .error (.configUnreadable path)
      | some text => match Config.ofToml? text with
          | some c => .ok c
          | none => .error (.configMalformed path)

def settingsFor (w : World) (path : Option String) (mutators : List String) :
    Except Failure Settings := do
  let c ← readConfig w path
  let c := if mutators.isEmpty then c else { c with mutators }
  c.resolve.mapError .settings

def openPath (w : World) (input : String) (classpath : List String) : Except Failure ClassPath :=
  (ClassPath.open? w.node? input classpath).mapError .source

def listInput (w : World) (input : String) : Except Failure (List String) := do
  let i ← (ClassInput.open? input (w.node? input)).mapError .source
  i.classes.mapError .source

def scan (source : ClassSource) (s : Settings) (names : List String) :
    Except Failure Report := do
  let found ← names.mapM fun name => (Engine.find source s name).mapError (.scan name)
  return ⟨names.length, found.flatten⟩

def invocation (arguments : List String) : Invocation :=
  let all := "jmutate" :: arguments
  ⟨all, some (" ".intercalate all)⟩

def render (format : ReportFormat) (s : Settings) (arguments : List String) (r : Report) :
    JsonValue :=
  match format with
  | .json => r.record
  | .sarif => Sarif.log s.operators r.mutations (invocation arguments)

def findAll (w : World) (o : ListOptions) : Except Failure (Settings × Report) := do
  requirePaths w o.input o.classpath
  let s ← settingsFor w o.config o.mutators
  let filter ← (ClassSelection.ofTexts o.targetClasses []).mapError .settings
  let path ← openPath w o.input o.classpath
  let names ← listInput w o.input
  return (s, ← scan path.source s (names.filter filter.accepts))

def list (w : World) (arguments : List String) (o : ListOptions) : Outcome :=
  match findAll w o with
  | .error f => .ofFailure f
  | .ok (s, r) =>
      let text := Json.pretty 0 (render o.format s arguments r) ++ "\n"
      match o.output with
      | none => .print text
      | some path =>
          if PathName.isDash path then .print text
          else .write path text.toUTF8.toList (.outputUnopened path)

def identifierFrom (w : World) (path : String) : Except Failure Identifier := do
  let text ← if PathName.isDash path then
      match Text.utf8? w.standardInput with
      | some text => pure text
      | none => throw .standardInputUnreadable
    else
      match w.text? path with
      | some text => pure text
      | none => throw (.identifierUnreadable path)
  match (Json.parse? text).bind Identifier.ofRecord? with
  | some id => return id
  | none => throw .identifierMalformed

def makeMutant (w : World) (o : ApplyOptions) : Except Failure Mutant := do
  requirePaths w o.input o.classpath
  let _ ← settingsFor w o.config []
  let id ← identifierFrom w o.id
  let path ← openPath w o.input o.classpath
  (Engine.mutant path.source id).mapError (.apply id)

def apply (w : World) (o : ApplyOptions) : Outcome :=
  match makeMutant w o with
  | .error f => .ofFailure f
  | .ok m => .write o.output m.bytes (.outputUnwritten o.output)

def run (w : World) (arguments : List String) : Outcome :=
  match Command.parse? arguments with
  | none => .misuse
  | some .version => .print "jmutate 0.1.0\n"
  | some (.list o _) => list w arguments o
  | some (.apply o) => apply w o

def Command.paths : Command → List String
  | .version => []
  | .list o _ => o.input :: o.classpath ++ o.config.toList
  | .apply o =>
      o.input :: o.classpath ++ o.config.toList ++ if PathName.isDash o.id then [] else [o.id]

def Command.readsInput : Command → Bool
  | .apply o => PathName.isDash o.id
  | _ => false

end BytecodeMutation.CommandLine
