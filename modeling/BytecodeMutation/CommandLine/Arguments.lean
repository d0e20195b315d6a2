namespace BytecodeMutation.CommandLine

inductive ReportFormat where
  | json
  | sarif
  deriving DecidableEq, Repr

structure ListOptions where
  input : String
  classpath : List String
  mutators : List String
  config : Option String
  targetClasses : List String
  format : ReportFormat
  output : Option String
  timing : Bool
  deriving DecidableEq, Repr

structure ApplyOptions where
  input : String
  classpath : List String
  config : Option String
  id : String
  output : String
  deriving DecidableEq, Repr

inductive Command where
  | version
  | list (options : ListOptions) (quiet : Bool)
  | apply (options : ApplyOptions)
  deriving DecidableEq, Repr

inductive ValueKind where
  | path
  | text
  | texts
  | format
  deriving DecidableEq, Repr

structure OptionSpec where
  name : String
  kind : ValueKind
  repeatable : Bool
  deriving DecidableEq, Repr

structure Grammar where
  options : List OptionSpec
  flags : List String
  deriving DecidableEq, Repr

def listGrammar : Grammar where
  options := [⟨"input", .path, false⟩, ⟨"classpath", .path, true⟩, ⟨"mutators", .texts, true⟩,
    ⟨"config", .path, false⟩, ⟨"target-classes", .text, true⟩, ⟨"format", .format, false⟩,
    ⟨"output", .path, false⟩]
  flags := ["quiet", "timing"]

def applyGrammar : Grammar where
  options := [⟨"input", .path, false⟩, ⟨"classpath", .path, true⟩, ⟨"config", .path, false⟩,
    ⟨"id", .path, false⟩, ⟨"output", .path, false⟩]
  flags := ["quiet"]

structure Parsed where
  values : List (String × List String) := []
  flags : List String := []
  deriving DecidableEq, Repr

namespace Parsed

variable (p : Parsed)

def all (name : String) : List String :=
  p.values.flatMap fun (n, values) => if n == name then values else []

def get? (name : String) : Option String := (p.all name).head?

end Parsed

def formatOf? : String → Option ReportFormat
  | "json" => some .json
  | "sarif" => some .sarif
  | _ => none

def valuesOf? (kind : ValueKind) (text : String) : Option (List String) :=
  match kind with
  | .path => if text.isEmpty then none else some [text]
  | .text => some [text]
  | .texts => some (text.splitOn ",")
  | .format => (formatOf? text).map fun _ => [text]

def looksLikeOption (argument : String) : Bool := argument.startsWith "-" && argument != "-"

def isVerbosity (argument : String) : Bool :=
  argument == "--verbose" || match argument.toList with
    | '-' :: 'v' :: more => more.all (· == 'v')
    | _ => false

def long? (argument : String) : Option (String × Option String) :=
  if argument.startsWith "--" then
    let cs := argument.toList.drop 2
    let name : String := .ofList (cs.takeWhile (· != '='))
    match cs.dropWhile (· != '=') with
    | _ :: value => some (name, some (.ofList value))
    | [] => some (name, none)
  else none

def setFlag? (p : Parsed) (name : String) : Option Parsed :=
  if p.flags.contains name then none else some { p with flags := name :: p.flags }

def setOption? (p : Parsed) (spec : OptionSpec) (text : String) : Option Parsed :=
  if !spec.repeatable && p.values.any (·.1 == spec.name) then none
  else (valuesOf? spec.kind text).map fun values =>
    { p with values := p.values ++ [(spec.name, values)] }

def parseOptions? (g : Grammar) (p : Parsed) : List String → Option Parsed
  | [] => some p
  | argument :: rest =>
      if isVerbosity argument then parseOptions? g p rest
      else if argument == "--" then if rest.isEmpty then some p else none
      else match long? argument with
        | none => none
        | some (name, value) =>
            match g.options.find? (·.name == name), value, rest with
            | some spec, some text, rest =>
                match setOption? p spec text with
                | some p => parseOptions? g p rest
                | none => none
            | some spec, none, text :: rest =>
                if looksLikeOption text then none
                else match setOption? p spec text with
                  | some p => parseOptions? g p rest
                  | none => none
            | some _, none, [] => none
            | none, some _, _ => none
            | none, none, rest =>
                if g.flags.contains name then
                  match setFlag? p name with
                  | some p => parseOptions? g p rest
                  | none => none
                else none

def listOptions? (p : Parsed) : Option ListOptions := do
  return {
    input := ← p.get? "input"
    classpath := p.all "classpath"
    mutators := p.all "mutators"
    config := p.get? "config"
    targetClasses := p.all "target-classes"
    format := ((p.get? "format").bind formatOf?).getD .json
    output := p.get? "output"
    timing := p.flags.contains "timing" }

def applyOptions? (p : Parsed) : Option ApplyOptions := do
  return {
    input := ← p.get? "input"
    classpath := p.all "classpath"
    config := p.get? "config"
    id := ← p.get? "id"
    output := ← p.get? "output" }

def asksVersion (argument : String) : Bool :=
  argument == "--version" || match argument.toList with
    | '-' :: more => (more.dropWhile (· == 'v')).head? == some 'V'
    | _ => false

def parseFrom? (quiet : Bool) : List String → Option Command
  | [] => none
  | argument :: rest =>
      if asksVersion argument then some .version
      else if isVerbosity argument then parseFrom? quiet rest
      else if argument == "--quiet" then if quiet then none else parseFrom? true rest
      else if argument == "list" then do
        let p ← parseOptions? listGrammar {} rest
        return .list (← listOptions? p) (quiet || p.flags.contains "quiet")
      else if argument == "apply" then do
        return .apply (← applyOptions? (← parseOptions? applyGrammar {} rest))
      else none

def Command.parse? (arguments : List String) : Option Command := parseFrom? false arguments

end BytecodeMutation.CommandLine
