import BytecodeMutation.Fault
import BytecodeMutation.Instruction.Format
import BytecodeMutation.Instruction.Encode

namespace BytecodeMutation

namespace Instruction

def targetOf (offset : Nat) (distance : Int32) : Except Fault Nat :=
  let target := (offset : Int) + distance.toInt
  if 0 ≤ target ∧ target < 4294967296 then .ok target.toNat
  else .error (.during (.decodeInstruction offset) (.targetOutOfRange target))

def signed16 (a b : UInt8) : Int16 := (Bytes.word16 a b).toInt16

def signed32 (a b c d : UInt8) : Int32 := (Bytes.word32 a b c d).toInt32

def words? : Nat → List Int32 → Bytes → Option (List Int32 × Bytes)
  | 0, acc, s => some (acc.reverse, s)
  | n + 1, acc, a :: b :: c :: d :: s => words? n (signed32 a b c d :: acc) s
  | _ + 1, _, _ => none

theorem words?_suffix {n : Nat} {acc ws : List Int32} {s r : Bytes}
    (h : words? n acc s = some (ws, r)) : r <:+ s := by
  fun_induction words? n acc s with
  | case1 acc s =>
      cases h
      exact List.suffix_rfl
  | case2 n acc a b c d s ih => exact (ih h).trans ⟨[a, b, c, d], rfl⟩
  | case3 => cases h

def pairs : List Int32 → List (Int32 × Int32)
  | k :: d :: r => (k, d) :: pairs r
  | _ => []

def tableCount (low high : Int32) : Int := high.toInt - low.toInt + 1

def tableWords (offset : Nat) (s : Bytes) : Except Fault (Int32 × Int32 × List Int32 × Bytes) :=
  match words? 3 [] s with
  | some ([default, low, high], r) =>
      if 0 ≤ tableCount low high ∧ tableCount low high < 2147483648 then
        match words? (tableCount low high).toNat [] r with
        | some (ds, r) => .ok (default, low, ds, r)
        | none => .error (.invalidLength offset)
      else .error .tableRange
  | _ => .error .wordOutOfBounds

def lookupWords (offset : Nat) (s : Bytes) : Except Fault (Int32 × List Int32 × Bytes) :=
  match words? 2 [] s with
  | some ([default, count], r) =>
      if 0 ≤ count.toInt then
        match words? (count.toInt.toNat * 2) [] r with
        | some (ws, r) => .ok (default, ws, r)
        | none => .error (.invalidLength offset)
      else .error .lookupPairs
  | _ => .error .wordOutOfBounds

def decodeOperand (format : Format) (offset : Nat) (op : UInt8) (s : Bytes) :
    Except Fault (Instruction × Bytes) :=
  let ok (operand : Operand) (r : Bytes) : Except Fault (Instruction × Bytes) :=
    .ok (⟨op, operand⟩, r)
  match format, s with
  | .plain, r => ok .absent r
  | .signedByte, a :: r => ok (.byte a.toInt8) r
  | .signedShort, a :: b :: r => ok (.short (signed16 a b)) r
  | .arrayType, a :: r => ok (.arrayType a) r
  | .variable, a :: r => ok (.variable a.toUInt16) r
  | .increment, a :: b :: r => ok (.increment a.toUInt16 b.toInt8.toInt16) r
  | .shortConstant, a :: r => ok (.constant a.toUInt16) r
  | .constant, a :: b :: r => ok (.constant (Bytes.word16 a b)) r
  | .branch, a :: b :: r => do ok (.branch (← targetOf offset (signed16 a b).toInt32)) r
  | .farBranch, a :: b :: c :: d :: r => do ok (.branch (← targetOf offset (signed32 a b c d))) r
  | .tableSwitch, s => do
      let (default, low, ds, r) ← tableWords offset (s.drop (switchPadding offset))
      let default ← targetOf offset default
      ok (.tableSwitch default low (← ds.mapM (targetOf offset))) r
  | .lookupSwitch, s => do
      let (default, ws, r) ← lookupWords offset (s.drop (switchPadding offset))
      let default ← targetOf offset default
      let cases ← (pairs ws).mapM fun (key, d) => (targetOf offset d).map (key, ·)
      ok (.lookupSwitch default cases) r
  | .invokeInterface, a :: b :: c :: _ :: r => ok (.invokeInterface (Bytes.word16 a b) c) r
  | .invokeDynamic, a :: b :: _ :: _ :: r => ok (.invokeDynamic (Bytes.word16 a b)) r
  | .multiArray, a :: b :: c :: r => ok (.multiArray (Bytes.word16 a b) c) r
  | .wide, [] => .error .missingWideOpcode
  | .wide, inner :: s =>
      if inner == Opcode.iinc then
        match s with
        | a :: b :: c :: d :: r =>
            .ok (⟨inner, .increment (Bytes.word16 a b) (signed16 c d)⟩, r)
        | _ => .error (.invalidLength offset)
      else
        match s with
        | a :: b :: r => .ok (⟨inner, .variable (Bytes.word16 a b)⟩, r)
        | _ => .error (.invalidLength offset)
  | _, _ => .error (.invalidLength offset)

def decodeNext (offset : Nat) (op : UInt8) (s : Bytes) : Except Fault (Instruction × Bytes) :=
  match Format.ofOpcode? op with
  | some format => decodeOperand format offset op s
  | none => .error (.unsupportedOpcode op)

variable {format : Format} {offset : Nat} {op : UInt8} {s r : Bytes} {i : Instruction}

theorem tableWords_suffix {default low : Int32} {ds : List Int32}
    (h : tableWords offset s = .ok (default, low, ds, r)) : r <:+ s := by
  unfold tableWords at h
  split at h
  · rename_i hhead
    split at h
    · split at h
      · rename_i htargets
        cases h
        exact (words?_suffix htargets).trans (words?_suffix hhead)
      · cases h
    · cases h
  · cases h

theorem lookupWords_suffix {default : Int32} {ws : List Int32}
    (h : lookupWords offset s = .ok (default, ws, r)) : r <:+ s := by
  unfold lookupWords at h
  split at h
  · rename_i hhead
    split at h
    · split at h
      · rename_i hcases
        cases h
        exact (words?_suffix hcases).trans (words?_suffix hhead)
      · cases h
    · cases h
  · cases h

theorem decodeWide_suffix (h : decodeOperand .wide offset op s = .ok (i, r)) : r <:+ s := by
  cases s with
  | nil => cases h
  | cons inner s =>
      unfold decodeOperand at h
      simp only at h
      split at h
      · split at h
        · cases h
          exact ⟨[_, _, _, _, _], rfl⟩
        · cases h
      · split at h
        · cases h
          exact ⟨[_, _, _], rfl⟩
        · cases h

theorem decodeOperand_suffix (h : decodeOperand format offset op s = .ok (i, r)) : r <:+ s := by
  cases format with
  | plain =>
      cases h
      exact List.suffix_rfl
  | signedByte | arrayType | «variable» | shortConstant =>
      rcases s with _ | ⟨a, s⟩ <;> cases h
      exact ⟨[a], rfl⟩
  | signedShort | increment | constant =>
      rcases s with _ | ⟨a, _ | ⟨b, s⟩⟩ <;> cases h
      exact ⟨[a, b], rfl⟩
  | multiArray =>
      rcases s with _ | ⟨a, _ | ⟨b, _ | ⟨c, s⟩⟩⟩ <;> cases h
      exact ⟨[a, b, c], rfl⟩
  | invokeInterface | invokeDynamic =>
      rcases s with _ | ⟨a, _ | ⟨b, _ | ⟨c, _ | ⟨d, s⟩⟩⟩⟩ <;> cases h
      exact ⟨[a, b, c, d], rfl⟩
  | branch =>
      rcases s with _ | ⟨a, _ | ⟨b, s⟩⟩
      · cases h
      · cases h
      · obtain ⟨target, -, h⟩ := Result.bind_ok.1 h
        cases h
        exact ⟨[a, b], rfl⟩
  | farBranch =>
      rcases s with _ | ⟨a, _ | ⟨b, _ | ⟨c, _ | ⟨d, s⟩⟩⟩⟩
      · cases h
      · cases h
      · cases h
      · cases h
      · obtain ⟨target, -, h⟩ := Result.bind_ok.1 h
        cases h
        exact ⟨[a, b, c, d], rfl⟩
  | tableSwitch =>
      obtain ⟨⟨default, low, ds, rest⟩, htable, h⟩ := Result.bind_ok.1 h
      obtain ⟨target, -, h⟩ := Result.bind_ok.1 h
      obtain ⟨targets, -, h⟩ := Result.bind_ok.1 h
      cases h
      exact (tableWords_suffix htable).trans (List.drop_suffix _ s)
  | lookupSwitch =>
      obtain ⟨⟨default, ws, rest⟩, hlookup, h⟩ := Result.bind_ok.1 h
      obtain ⟨target, -, h⟩ := Result.bind_ok.1 h
      obtain ⟨cases, -, h⟩ := Result.bind_ok.1 h
      cases h
      exact (lookupWords_suffix hlookup).trans (List.drop_suffix _ s)
  | wide => exact decodeWide_suffix h

theorem decodeNext_suffix (h : decodeNext offset op s = .ok (i, r)) : r <:+ s := by
  unfold decodeNext at h
  split at h
  · exact decodeOperand_suffix h
  · cases h

/-- How many bytes an instruction took that began with `op`: as many as it is written with, but
for the wide form, which is also read where the short form would do. -/
def readLength (offset : Nat) (op : UInt8) (i : Instruction) : Nat :=
  if op == Opcode.wide then if i.opcode == Opcode.iinc then 6 else 4
  else i.encodedLength offset

def decodeFrom (offset : Nat) (acc : List (Nat × Instruction)) :
    Bytes → Except Fault (List (Nat × Instruction))
  | [] => .ok acc.reverse
  | op :: s =>
      match _h : decodeNext offset op s with
      | .error e => .error e
      | .ok (i, r) => decodeFrom (offset + readLength offset op i) ((offset, i) :: acc) r
  termination_by s => s.length
  decreasing_by
    exact Nat.lt_succ_of_le (decodeNext_suffix _h).length_le

def decode (code : Bytes) : Except Fault (List (Nat × Instruction)) :=
  decodeFrom 0 [] code

end Instruction

end BytecodeMutation
