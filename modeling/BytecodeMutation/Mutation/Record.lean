import BytecodeMutation.Json
import BytecodeMutation.Mutation

namespace BytecodeMutation

namespace Record

def member? (name : String) (members : List (String × JsonValue)) : Option (Option JsonValue) :=
  match members.filter (·.1 == name) with
  | [] => some none
  | [m] => some (some m.2)
  | _ => none

def fields? (names : List String) (needed : Nat) : JsonValue → Option (List (Option JsonValue))
  | .object members => names.mapM fun name => member? name members
  | .array items =>
      if needed ≤ items.length ∧ items.length ≤ names.length then
        some (items.map some ++ List.replicate (names.length - items.length) none)
      else none
  | _ => none

def string? : JsonValue → Option String
  | .string s => some s
  | _ => none

def bool? : JsonValue → Option Bool
  | .bool b => some b
  | _ => none

def below? (bound : Nat) : JsonValue → Option Nat
  | .integer n => if 0 ≤ n ∧ n.toNat < bound then some n.toNat else none
  | _ => none

def list? {α : Type} (f : JsonValue → Option α) : JsonValue → Option (List α)
  | .array items => items.mapM f
  | _ => none

def optional? {α : Type} (f : JsonValue → Option α) : Option JsonValue → Option (Option α)
  | none | some .null => some none
  | some v => (f v).map some

end Record

open Record

namespace Location

def record (l : Location) : JsonValue :=
  .object [("class_name", .string l.className), ("method_name", .string l.methodName),
    ("method_descriptor", .string l.methodDescriptor)]

def ofRecord? (v : JsonValue) : Option Location := do
  match ← fields? ["class_name", "method_name", "method_descriptor"] 3 v with
  | [some c, some m, some d] => return ⟨← string? c, ← string? m, ← string? d⟩
  | _ => none

end Location

namespace Identifier

def record (id : Identifier) : JsonValue :=
  .object [("location", id.location.record),
    ("indexes", .array (id.indexes.map fun (i : Nat) => .integer i)),
    ("operator", .string id.operator)]

def ofRecord? (v : JsonValue) : Option Identifier := do
  match ← fields? ["location", "indexes", "operator"] 3 v with
  | [some l, some is, some o] =>
      return ⟨← Location.ofRecord? l, ← list? (below? UInt64.size) is, ← string? o⟩
  | _ => none

end Identifier

namespace Details

def record (d : Details) : JsonValue :=
  .object [("id", d.id.record), ("description", .string d.description),
    ("line", Json.optional (fun (n : Nat) => .integer n) d.line), ("block", .integer d.block),
    ("mutator", .string d.mutator), ("filename", Json.optional .string d.filename),
    ("in_finally_block", .bool d.inFinallyBlock)]

def ofRecord? (v : JsonValue) : Option Details := do
  match ← fields? ["id", "description", "line", "block", "mutator", "filename",
      "in_finally_block"] 6 v with
  | [some id, some description, line, some block, some mutator, filename, inFinally] =>
      return {
        id := ← Identifier.ofRecord? id
        description := ← string? description
        line := ← optional? (below? UInt32.size) line
        block := ← below? UInt32.size block
        mutator := ← string? mutator
        filename := ← optional? string? filename
        inFinallyBlock := ← (match inFinally with
          | none => some false
          | some b => bool? b) }
  | _ => none

end Details

end BytecodeMutation
