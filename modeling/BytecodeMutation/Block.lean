import Std.Data.TreeSet
import BytecodeMutation.Method

namespace BytecodeMutation

structure Blocks where
  blocks : Array Nat
  deriving DecidableEq, Repr

namespace Blocks

def leadersAfter (s next : Site) : List Nat :=
  (if Opcode.branches s.opcode then s.instruction.targets else [])
    ++ if Opcode.branches s.opcode || Opcode.isExit s.opcode then [next.offset] else []

def leaders (m : Method) : List Nat :=
  m.handlers.map (·.handler)
    ++ (m.code.zip (m.code.drop 1)).flatMap (fun (s, next) => leadersAfter s next)
    ++ (m.code.getLast?.map (·.instruction.targets)).getD []

def push (isLeader : Nat → Bool) (blocks : Array Nat) (s : Site) : Array Nat :=
  blocks.push <| match blocks.back? with
    | none => 0
    | some b => if isLeader s.offset then b + 1 else b

def ofMethod (m : Method) : Blocks :=
  let starts : Std.TreeSet Nat := .ofList (leaders m)
  ⟨m.code.foldl (push starts.contains) #[]⟩

def numberOf (b : Blocks) (ordinal : Nat) : Nat := b.blocks.getD ordinal 0

def count (b : Blocks) : Nat := (b.blocks.back?.map (· + 1)).getD 0

end Blocks

end BytecodeMutation
