import BytecodeMutation.Archive
import BytecodeMutation.ClassFile.Structure
import BytecodeMutation.Text
import BytecodeMutation.Engine
import BytecodeMutation.FileTree
import BytecodeMutation.PathName

namespace BytecodeMutation

inductive ClassInput where
  | directory (root : FileNode)
  | archive (path : String) (content : Option Bytes)
  | classFile (name : String) (data : Bytes)
  deriving Repr

namespace ClassInput

def ownName (data : Bytes) : Except Fault String := do
  let s ← ClassStructure.read data
  s.pool.className s.thisClass

def open? (path : String) (node : Option FileNode) : Except SourceError ClassInput :=
  match node with
  | some (.directory entries) => .ok (.directory (.directory entries))
  | _ =>
      let content := node.bind FileNode.content?
      match PathName.extension path with
      | "jar" => .ok (.archive path content)
      | "class" => match content with
          | none => .error (.unreadable path)
          | some data => match ownName data with
              | .ok name => .ok (.classFile name data)
              | .error _ => .error (.malformed path)
      | _ => .error (.unsupported path)

def isClassPath (path : String) : Bool :=
  !path.endsWith "module-info.class" && !path.endsWith "package-info.class"

def listed? (names : List String) : Option String :=
  let path := "/".intercalate names
  if names.getLast?.any (PathName.extensionOf · == "class") && isClassPath path then
    some (ClassName.internal path)
  else none

def listedEntry? (e : ArchiveEntry) : Option String :=
  if !e.isDirectory && e.name.endsWith ".class" && isClassPath e.name then
    some (ClassName.internal e.name)
  else none

def openArchive (path : String) (content : Option Bytes) : Except SourceError Archive :=
  match content with
  | none => .error (.unopened path)
  | some data => match Archive.read? data with
      | some a => .ok a
      | none => .error (.unreadable path)

def names : ClassInput → Except SourceError (List String)
  | .directory root => .ok (root.files.filterMap fun (names, _) => listed? names)
  | .archive path content => do
      let a ← openArchive path content
      if a.entries.all fun e => (a.compressed? e).isSome then
        return a.entries.filterMap listedEntry?
      else throw (.unreadable path)
  | .classFile name _ => .ok [name]

def classes (input : ClassInput) : Except SourceError (List String) :=
  input.names.map (·.mergeSort fun a b => a ≤ b)

def readBelow (root : FileNode) (path : String) : Option Bytes :=
  if PathName.isAbsolute path then none
  else (root.find? (PathName.parts path)).bind FileNode.content?

def readEntry (path : String) (a : Archive) (entry : String) :
    Except SourceError (Option Bytes) :=
  match a.find? entry with
  | none => .ok none
  | some e => match a.content? e with
      | some content => .ok (some content)
      | none => .error (.unreadableEntry path entry)

def read : ClassInput → ClassSource
  | .directory root, name => .ok (readBelow root (ClassName.path name))
  | .archive path content, name => do
      readEntry path (← openArchive path content) (ClassName.path name)
  | .classFile own data, name =>
      .ok (if ClassName.internal own == ClassName.internal name then some data else none)

end ClassInput

structure ClassPath where
  inputs : List ClassInput
  deriving Repr

namespace ClassPath

def open? (node? : String → Option FileNode) (input : String) (entries : List String) :
    Except SourceError ClassPath := do
  let first ← ClassInput.open? input (node? input)
  let rest ← (entries.mergeSort fun a b => a ≤ b).mapM fun path =>
    ClassInput.open? path (node? path)
  return ⟨first :: rest⟩

def readFirst (name : String) : List ClassInput → Except SourceError (Option Bytes)
  | [] => .ok none
  | input :: inputs => do
      match ← input.read name with
      | some data => return some data
      | none => readFirst name inputs

def source (p : ClassPath) : ClassSource := fun name => readFirst name p.inputs

end ClassPath

end BytecodeMutation
