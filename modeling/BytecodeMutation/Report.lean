import BytecodeMutation.Text
import BytecodeMutation.Mutation.Record
import BytecodeMutation.Operator

namespace BytecodeMutation

structure Report where
  classes : Nat
  mutations : List Details
  deriving DecidableEq, Repr

def Report.record (r : Report) : JsonValue :=
  .object [("classes", .integer r.classes), ("mutations", .array (r.mutations.map Details.record))]

structure Invocation where
  arguments : List String
  commandLine : Option String := none
  deriving DecidableEq, Repr

namespace Sarif

def text (s : String) : JsonValue := .object [("text", .string s)]

def strings (ss : List String) : JsonValue := .array (ss.map .string)

def object (members : List (Option (String × JsonValue))) : JsonValue :=
  .object (members.filterMap id)

def rule (o : Operator) : JsonValue :=
  .object [("id", .string o.name), ("name", .string o.id),
    ("shortDescription", text o.description)]

def packagePath (className : String) : String :=
  .ofList ((className.toList.reverse.dropWhile (· != '/')).reverse)

def physicalLocation (d : Details) (filename : String) : JsonValue :=
  object [
    some ("artifactLocation", .object [("uri",
      .string (packagePath d.id.location.className ++ filename))]),
    d.line.map fun (n : Nat) => ("region", .object [("startLine", .integer n)])]

def logicalLocation (l : Location) : JsonValue :=
  .object [("kind", .string "function"),
    ("name", .string s!"{ClassName.dotted l.className}.{l.methodName}{l.methodDescriptor}")]

def location (d : Details) : JsonValue :=
  object [some ("logicalLocations", .array [logicalLocation d.id.location]),
    d.filename.map fun f => ("physicalLocation", physicalLocation d f)]

def result (d : Details) : JsonValue :=
  .object [("locations", .array [location d]), ("message", text d.description),
    ("ruleId", .string d.mutator)]

def invocation (i : Invocation) : JsonValue :=
  object [some ("arguments", strings i.arguments),
    i.commandLine.map fun c => ("commandLine", .string c),
    some ("executionSuccessful", .bool true)]

def tool (os : List Operator) : JsonValue :=
  .object [("driver", .object [("name", .string "jmutate"), ("rules", .array (os.map rule)),
    ("version", .string "0.1.0")])]

def run (os : List Operator) (ms : List Details) (i : Invocation) : JsonValue :=
  .object [("invocations", .array [invocation i]), ("results", .array (ms.map result)),
    ("tool", tool os)]

def schema : String :=
  "https:" ++ "//" ++ "schemastore.azurewebsites.net" ++ "/schemas/json/sarif-2.1.0.json"

def log (os : List Operator) (ms : List Details) (i : Invocation) : JsonValue :=
  .object [("$schema", .string schema), ("runs", .array [run os ms i]),
    ("version", .string "2.1.0")]

end Sarif

end BytecodeMutation
