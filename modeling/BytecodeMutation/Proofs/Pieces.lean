import BytecodeMutation.Assembly
import BytecodeMutation.Proofs.PoolGrowth

namespace BytecodeMutation

namespace Assembly

def marked (origin : Nat) : List Instruction → List Piece
  | [] => []
  | i :: is => ⟨some origin, i⟩ :: is.map fun i => ⟨none, i⟩

def emitted (code : List Site) : StreamItem → List Piece
  | .kept ordinal => code[ordinal]?.toList.map fun s => ⟨some s.offset, s.instruction⟩
  | .replaced ordinal is => code[ordinal]?.toList.flatMap fun s => marked s.offset is

structure Settles (cs : List (UInt16 × Constant)) (s p : Piece) : Prop where
  origin : p.origin = s.origin
  instruction : PoolTail.Resolves cs s.instruction p.instruction

variable {start : UInt16} {t u : PoolTail} {acc pieces : List Piece}

open PoolTail

theorem Settles.mono {cs ds : List (UInt16 × Constant)} {s p : Piece} (h : Settles cs s p)
    (hs : cs ⊆ ds) : Settles ds s p :=
  ⟨h.origin, h.instruction.mono hs⟩

theorem replacementPieces_ok {origin : Nat} {first : Bool} {is : List Instruction}
    (ht : t.Extends start)
    (h : replacementPieces t origin acc first is = .ok (pieces, u)) :
    Step start t u ∧ ∃ ps, pieces = ps.reverse ++ acc ∧ List.Forall₂ (Settles u.constants)
      (if first then marked origin is else is.map fun i => ⟨none, i⟩) ps := by
  induction is generalizing t acc first with
  | nil =>
      cases h
      refine ⟨⟨ht, List.Subset.refl _⟩, [], rfl, ?_⟩
      cases first <;> exact .nil
  | cons i is ih =>
      obtain ⟨⟨j, v⟩, hresolve, hrest⟩ := Result.bind_ok.1 h
      obtain ⟨hstep, hj⟩ := ht.resolve hresolve
      obtain ⟨hsteps, ps, rfl, hps⟩ := ih hstep.holds hrest
      refine ⟨hstep.trans hsteps, ⟨if first then some origin else none, j⟩ :: ps, by simp, ?_⟩
      cases first with
      | true => exact .cons ⟨rfl, hj.mono hsteps.subset⟩ hps
      | false => exact .cons ⟨rfl, hj.mono hsteps.subset⟩ hps

def IsSettled (code : List Site) : Prop := ∀ s ∈ code, ∀ r, s.instruction.operand ≠ .newConstant r

theorem piecesFrom_ok {code : List Site} {stream : List StreamItem} (ht : t.Extends start)
    (h : piecesFrom code.toArray t acc stream = .ok (pieces, u)) :
    Step start t u ∧ ∃ ps, pieces = acc.reverse ++ ps ∧ (IsSettled code →
      List.Forall₂ (Settles u.constants) (stream.flatMap (emitted code)) ps) := by
  induction stream generalizing t acc with
  | nil =>
      cases h
      exact ⟨⟨ht, List.Subset.refl _⟩, [], by simp, fun _ => .nil⟩
  | cons item items ih =>
      cases item with
      | kept ordinal =>
          unfold piecesFrom at h
          split at h
          · rename_i s hs
            rw [List.getElem?_toArray] at hs
            obtain ⟨hstep, ps, rfl, hps⟩ := ih ht h
            refine ⟨hstep, ⟨some s.offset, s.instruction⟩ :: ps, by simp, fun hcode => ?_⟩
            simp only [List.flatMap_cons, emitted, hs, Option.toList_some, List.map_singleton]
            exact .cons ⟨rfl, .same (hcode s (List.mem_of_getElem? hs))⟩ (hps hcode)
          · cases h
      | replaced ordinal is =>
          unfold piecesFrom at h
          split at h
          · rename_i s hs
            rw [List.getElem?_toArray] at hs
            obtain ⟨⟨acc', v⟩, hpieces, hrest⟩ := Result.bind_ok.1 h
            obtain ⟨hstep, qs, rfl, hqs⟩ := replacementPieces_ok ht hpieces
            obtain ⟨hsteps, ps, rfl, hps⟩ := ih hstep.holds hrest
            refine ⟨hstep.trans hsteps, qs ++ ps, by simp, fun hcode => ?_⟩
            simp only [List.flatMap_cons, emitted, hs, Option.toList_some, List.flatMap_nil,
              List.append_nil]
            exact List.rel_append (hqs.imp fun _ _ h => h.mono hsteps.subset) (hps hcode)
          · cases h

end Assembly

end BytecodeMutation
