import Std.Data.TreeMap.Basic
import BytecodeMutation.Instruction.Encode

/-!
Placing the instructions of an edited method. Jumps that no longer reach their targets are widened
until every jump fits; each round but the last widens one jump at least.
-/

namespace BytecodeMutation

structure Piece where
  origin : Option Nat
  instruction : Instruction
  deriving DecidableEq, Repr

abbrev OffsetMap := Std.TreeMap Nat Nat

structure Placement where
  pieces : List Piece
  offsets : List Nat
  map : OffsetMap

namespace Placement

def maxCodeLength : Nat := 65535

def next (offset : Nat) (s : Piece) : Nat := offset + s.instruction.encodedLength offset

def offsetsFrom (offset : Nat) (acc : List Nat) : List Piece → List Nat × Nat
  | [] => (acc.reverse, offset)
  | s :: rest => offsetsFrom (next offset s) (offset :: acc) rest

def addOrigin (map : OffsetMap) (placed : Piece × Nat) : OffsetMap :=
  match placed.1.origin with
  | some origin => map.insert origin placed.2
  | none => map

/-- Later pieces win over earlier ones of the same origin, and the old end over both. -/
def mapOf (pieces : List Piece) (offsets : List Nat) (oldLength newLength : Nat) : OffsetMap :=
  ((pieces.zip offsets).foldl addOrigin ∅).insert oldLength newLength

def reaches (source target : Nat) : Bool :=
  target ≤ source + 32767 && source ≤ target + 32768

def widenPiece (map : OffsetMap) (offset : Nat) (s : Piece) : Except Fault (Piece × Bool) :=
  let op := s.instruction.opcode
  match s.instruction.operand with
  | .branch target =>
      if Opcode.isFarJump op then .ok (s, false)
      else match map[target]? with
        | none => .error (.notAnInstruction target)
        | some moved =>
            if reaches offset moved then .ok (s, false)
            else if op == Opcode.goto then
              .ok ({ s with instruction := ⟨Opcode.gotoW, .branch target⟩ }, true)
            else if op == Opcode.jsr then
              .ok ({ s with instruction := ⟨Opcode.jsrW, .branch target⟩ }, true)
            else if Opcode.isConditional op then .error (.limit (.conditionalOutOfReach offset))
            else .error (.unexpectedBranch op)
  | _ => .ok (s, false)

def widenFrom (map : OffsetMap) (acc : List Piece) (widened : Bool) :
    List (Piece × Nat) → Except Fault (List Piece × Bool)
  | [] => .ok (acc.reverse, widened)
  | (s, offset) :: rest =>
      match widenPiece map offset s with
      | .ok (s, w) => widenFrom map (s :: acc) (widened || w) rest
      | .error e => .error e

def isNarrowJump (s : Piece) : Bool :=
  match s.instruction.operand with
  | .branch _ => !Opcode.isFarJump s.instruction.opcode
  | _ => false

def narrowJumps (pieces : List Piece) : Nat := pieces.countP isNarrowJump

theorem widenPiece_narrow {map : OffsetMap} {offset : Nat} {s t : Piece} {w : Bool}
    (h : widenPiece map offset s = .ok (t, w)) :
    if w then isNarrowJump s = true ∧ isNarrowJump t = false else t = s := by
  obtain ⟨origin, op, operand⟩ := s
  simp only [widenPiece] at h
  split at h
  · rename_i target _
    split at h
    · simp_all
    · split at h
      · simp at h
      · split at h
        · simp_all
        · split at h
          · simp only [Except.ok.injEq, Prod.mk.injEq] at h
            obtain ⟨rfl, rfl⟩ := h
            simp_all [isNarrowJump, Opcode.isFarJump, Opcode.gotoW, Opcode.jsrW, Opcode.goto]
          · split at h
            · simp only [Except.ok.injEq, Prod.mk.injEq] at h
              obtain ⟨rfl, rfl⟩ := h
              simp_all [isNarrowJump, Opcode.isFarJump, Opcode.gotoW, Opcode.jsrW, Opcode.jsr]
            · split at h <;> simp at h
  · simp_all

theorem widenFrom_narrow {map : OffsetMap} {acc pieces : List Piece} {rest : List (Piece × Nat)}
    {widened out : Bool} (h : widenFrom map acc widened rest = .ok (pieces, out)) :
    (out = false → widened = false) ∧
      narrowJumps pieces + (if out && !widened then 1 else 0)
        ≤ narrowJumps acc + narrowJumps (rest.map (·.1)) := by
  induction rest generalizing acc widened with
  | nil =>
      simp only [widenFrom, Except.ok.injEq, Prod.mk.injEq] at h
      obtain ⟨rfl, rfl⟩ := h
      cases widened <;> simp [narrowJumps]
  | cons p rest ih =>
      obtain ⟨s, offset⟩ := p
      simp only [widenFrom] at h
      split at h
      · rename_i t w hw
        have hs := widenPiece_narrow hw
        obtain ⟨h₁, h₂⟩ := ih h
        cases w <;> cases widened <;> cases out <;>
          simp_all [narrowJumps, List.countP_cons] <;> omega
      · simp at h

def round (oldLength : Nat) (pieces : List Piece) : Except Fault (Placement ⊕ List Piece) :=
  let (offsets, length) := offsetsFrom 0 [] pieces
  if maxCodeLength < length then .error (.limit (.codeTooLarge length))
  else
    let map := mapOf pieces offsets oldLength length
    match widenFrom map [] false (pieces.zip offsets) with
    | .error e => .error e
    | .ok (_, false) => .ok (.inl ⟨pieces, offsets, map⟩)
    | .ok (widened, true) => .ok (.inr widened)

theorem length_offsetsFrom {offset : Nat} {acc : List Nat} {pieces : List Piece} :
    (offsetsFrom offset acc pieces).1.length = acc.length + pieces.length := by
  induction pieces generalizing offset acc with
  | nil => simp [offsetsFrom]
  | cons s rest ih => simp only [offsetsFrom, ih, List.length_cons]; omega

theorem narrowJumps_round {oldLength : Nat} {pieces widened : List Piece}
    (h : round oldLength pieces = .ok (.inr widened)) :
    narrowJumps widened < narrowJumps pieces := by
  simp only [round] at h
  split at h
  · simp at h
  · split at h
    · simp at h
    · simp at h
    · rename_i hw
      simp only [Except.ok.injEq, Sum.inr.injEq] at h
      subst h
      have hl : (offsetsFrom 0 [] pieces).1.length = pieces.length := by simp [length_offsetsFrom]
      have hm : (pieces.zip (offsetsFrom 0 [] pieces).1).map (·.1) = pieces := by
        rw [List.map_fst_zip]; omega
      have := (widenFrom_narrow hw).2
      rw [hm] at this
      simp [narrowJumps] at this ⊢
      omega

def ofPieces (oldLength : Nat) (pieces : List Piece) : Except Fault Placement :=
  match _h : round oldLength pieces with
  | .error e => .error e
  | .ok (.inl p) => .ok p
  | .ok (.inr widened) => ofPieces oldLength widened
  termination_by narrowJumps pieces
  decreasing_by exact narrowJumps_round _h

end Placement

end BytecodeMutation
