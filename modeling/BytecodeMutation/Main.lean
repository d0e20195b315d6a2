import BytecodeMutation.CommandLine.Run

namespace BytecodeMutation.CommandLine

partial def loadNode (e : IO.FS.DirEntry) : IO (Option FileNode) := do
  try
    if ← e.path.isDir then
      let children ← e.path.readDir
      let nodes ← children.toList.filterMapM fun child => do
        return (← loadNode child).map fun node => (child.fileName, node)
      return some (.directory nodes)
    else
      return some (.file (← IO.FS.readBinFile e.path).toList)
  catch _ => return none

partial def readAll (stream : IO.FS.Stream) (read : ByteArray) : IO ByteArray := do
  let more ← stream.read 65536
  if more.isEmpty then return read else readAll stream (read ++ more)

def loadWorld (command : Command) : IO World := do
  let nodes ← command.paths.mapM fun path => do return (path, ← loadNode ⟨".", path⟩)
  let input ← if command.readsInput then readAll (← IO.getStdin) .empty else pure .empty
  return ⟨fun path => (nodes.lookup path).join, input.toList⟩

def usage : String :=
  "\n".intercalate [
    "usage: jmutate list --input PATH [--classpath PATH]... [--mutators NAMES]... [--config PATH]",
    "                    [--target-classes REGEX]... [--format json|sarif] [--output PATH]",
    "                    [--timing]",
    "       jmutate apply --input PATH [--classpath PATH]... [--config PATH] --id PATH",
    "                     --output PATH",
    "       jmutate --version"]

def fail (f : Failure) : IO UInt32 := do
  IO.eprint f.report
  return 1

def carryOut (outcome : Outcome) : IO UInt32 := do
  match outcome with
  | .misuse => IO.eprintln usage; return 2
  | .print text => IO.print text; return 0
  | .fail f => fail f
  | .stop => IO.eprintln Fault.overflow.message; return 101
  | .write path content otherwise =>
      try
        IO.FS.writeBinFile path ⟨content.toArray⟩
        return 0
      catch _ => fail otherwise

def reportsTime : Command → Bool
  | .list o quiet => o.timing && !quiet
  | _ => false

def execute (arguments : List String) : IO UInt32 := do
  let started ← IO.monoMsNow
  match Command.parse? arguments with
  | none => carryOut .misuse
  | some command =>
      let code ← carryOut (run (← loadWorld command) arguments)
      if code == 0 && reportsTime command then
        let time := (← IO.monoMsNow) - started
        IO.eprintln s!"timing: total_ms={time}"
      return code

end BytecodeMutation.CommandLine

def main (arguments : List String) : IO UInt32 := BytecodeMutation.CommandLine.execute arguments
