import BytecodeMutation.Bytes

namespace BytecodeMutation

inductive FileNode where
  | file (content : Bytes)
  | directory (entries : List (String × FileNode))
  deriving Repr, Inhabited

namespace FileNode

def content? : FileNode → Option Bytes
  | .file content => some content
  | .directory _ => none

def child? (name : String) : FileNode → Option FileNode
  | .file _ => none
  | .directory entries => entries.lookup name

def find? (node : FileNode) : List String → Option FileNode
  | [] => some node
  | name :: names => (node.child? name).bind (·.find? names)

mutual

def files : FileNode → List (List String × Bytes)
  | .file content => [([], content)]
  | .directory entries => filesIn entries

def filesIn : List (String × FileNode) → List (List String × Bytes)
  | [] => []
  | (name, node) :: entries =>
      node.files.map (fun (names, content) => (name :: names, content)) ++ filesIn entries

end

theorem find?_append (node : FileNode) (a b : List String) :
    node.find? (a ++ b) = (node.find? a).bind (·.find? b) := by
  induction a generalizing node with
  | nil => rfl
  | cons name names ih =>
      cases h : node.child? name with
      | none => simp [find?, h]
      | some child => simp [find?, h, ih]

end FileNode

end BytecodeMutation
