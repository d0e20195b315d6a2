import BytecodeMutation.Proofs.Application
import BytecodeMutation.Proofs.Canonical
import BytecodeMutation.Proofs.Parsing
import BytecodeMutation.Proofs.Shapes
import BytecodeMutation.Proofs.Writing

namespace BytecodeMutation

abbrev Checked := ExceptT Fault Option

namespace Checked

variable {α β : Type}

def of (x : Except Fault α) : Checked α := ExceptT.mk (some x)

def overflow : Checked α := ExceptT.mk none

def int32 (v : Int) : Checked Int32 :=
  if -2147483648 ≤ v ∧ v < 2147483648 then of (.ok (.ofInt v)) else overflow

def add (a b : Int32) : Checked Int32 := int32 (a.toInt + b.toInt)

def sub (a b : Int32) : Checked Int32 := int32 (a.toInt - b.toInt)

theorem of_bind {x : Except Fault α} {f : α → Except Fault β} {g : α → Checked β}
    (h : ∀ a, x = .ok a → g a = of (f a)) : (of x >>= g) = of (x >>= f) := by
  cases x with
  | error e => rfl
  | ok a => exact h a rfl

theorem of_map {x : Except Fault α} (f : α → β) : f <$> of x = of (x.map f) := by
  cases x <;> rfl

theorem of_mapM {f : α → Except Fault β} {g : α → Checked β} {xs : List α}
    (h : ∀ x ∈ xs, g x = of (f x)) : xs.mapM g = of (xs.mapM f) := by
  induction xs with
  | nil => rfl
  | cons x xs ih =>
      obtain ⟨hx, hxs⟩ := List.forall_mem_cons.1 h
      rw [List.mapM_cons, List.mapM_cons, hx, ih hxs]
      exact of_bind fun y _ => of_bind fun ys _ => rfl

theorem int32_of_mem {v : Int} (hl : -2147483648 ≤ v) (hu : v < 2147483648) :
    int32 v = of (.ok (.ofInt v)) :=
  if_pos ⟨hl, hu⟩

theorem int32_of_le {v : Int} (h : 2147483648 ≤ v) : int32 v = overflow :=
  if_neg (by omega)

end Checked

namespace Instruction

open Checked

variable (moved : TargetMap) (offset : Nat)

def checkedDistance (target : Nat) : Checked Int32 := do
  let t ← of (moved target)
  sub (.ofNat t) (.ofNat offset)

def checkedTable (low : Int32) (default : Nat) (targets : List Nat) : Checked Bytes := do
  let next ← add low (.ofNat targets.length)
  let high ← sub next 1
  let default ← checkedDistance moved offset default
  let distances ← targets.mapM (checkedDistance moved offset)
  return List.replicate (switchPadding offset) 0 ++ Bytes.ofInt32 default ++ Bytes.ofInt32 low
    ++ Bytes.ofInt32 high ++ distances.flatMap Bytes.ofInt32

def checkedLookup (default : Nat) (cases : List (Int32 × Nat)) : Checked Bytes := do
  let default ← checkedDistance moved offset default
  let distances ← cases.mapM fun (key, target) => (key, ·) <$> checkedDistance moved offset target
  return List.replicate (switchPadding offset) 0 ++ Bytes.ofInt32 default
    ++ Bytes.ofNat32 cases.length
    ++ distances.flatMap fun (key, d) => Bytes.ofInt32 key ++ Bytes.ofInt32 d

def checkedBranch (opcode : UInt8) (target : Nat) : Checked Bytes := do
  let d ← checkedDistance moved offset target
  if Opcode.isFarJump opcode then return opcode :: Bytes.ofInt32 d
  else if Operand.fitsShort d then return opcode :: Bytes.ofInt16 d.toInt16
  else throw (.branchTooFar d offset)

def checkedEncode (i : Instruction) : Checked Bytes :=
  match i.operand with
  | .branch target => checkedBranch moved offset i.opcode target
  | .tableSwitch default low targets =>
      (i.opcode :: ·) <$> checkedTable moved offset low default targets
  | .lookupSwitch default cases => (i.opcode :: ·) <$> checkedLookup moved offset default cases
  | _ => of (i.encode moved offset)

variable {moved offset} {i : Instruction}

theorem checkedDistance_eq {t : Nat} (hoffset : offset < 65536)
    (ht : ∀ t', moved t = .ok t' → t' < 65536) :
    checkedDistance moved offset t = of (distanceTo moved offset t) := by
  cases h : moved t with
  | error e => simp only [checkedDistance, distanceTo, h]; rfl
  | ok t' =>
      have hlt := ht t' h
      have hdistance : sub (.ofNat t') (.ofNat offset) = of (.ok (distance offset t')) := by
        rw [sub, Int32.toInt_ofNat_of_lt (by omega), Int32.toInt_ofNat_of_lt (by omega)]
        exact int32_of_mem (by omega) (by omega)
      simp only [checkedDistance, distanceTo, h]
      exact hdistance

theorem add_sub_eq {low : Int32} {n : Nat} (hn : n < 2147483648)
    (hleast : -2147483648 ≤ low.toInt + n - 1) (hmost : low.toInt + n < 2147483648) :
    (do sub (← add low (.ofNat n)) 1 : Checked Int32) = of (.ok (low + .ofNat n - 1)) := by
  have hlow := low.le_toInt
  have hnext : add low (.ofNat n) = of (.ok (.ofInt (low.toInt + n))) := by
    rw [add, Int32.toInt_ofNat_of_lt hn]
    exact int32_of_mem (by omega) (by omega)
  have hhigh : sub (.ofInt (low.toInt + n)) 1 = of (.ok (.ofInt (low.toInt + n - 1))) := by
    rw [sub, Int32.toInt_ofInt_of_le (by omega) (by omega)]
    exact int32_of_mem hleast (by show low.toInt + n - 1 < _; omega)
  rw [hnext, highest_eq]
  exact hhigh

theorem checkedTable_eq {low : Int32} {default : Nat} {targets : List Nat}
    (hdistance : ∀ t ∈ default :: targets,
      checkedDistance moved offset t = of (distanceTo moved offset t))
    (hn : targets.length < 2147483648) (hleast : -2147483648 ≤ low.toInt + targets.length - 1)
    (hmost : low.toInt + targets.length < 2147483648) :
    checkedTable moved offset low default targets
      = of (encodeTable moved offset low default targets) := by
  obtain ⟨hdefault, htargets⟩ := List.forall_mem_cons.1 hdistance
  have hkeys := add_sub_eq hn hleast hmost
  have hhigh := (highest_ok hn).2 ⟨hleast, hmost, rfl⟩
  rw [← highest_eq] at hhigh
  simp only [checkedTable, encodeTable, ← bind_assoc, hkeys, hdefault, of_mapM htargets, hhigh]
  exact of_bind fun high _ => of_bind fun d _ => of_bind fun ds _ => rfl

theorem checkedTable_overflow {low : Int32} {default : Nat} {targets : List Nat}
    (hn : targets.length < 2147483648) (hkey : 2147483648 ≤ low.toInt + targets.length) :
    checkedTable moved offset low default targets = overflow := by
  have hnext : add low (.ofNat targets.length) = overflow := by
    rw [add, Int32.toInt_ofNat_of_lt hn]
    exact int32_of_le hkey
  rw [checkedTable, hnext]
  rfl

theorem checkedLookup_eq {default : Nat} {cases : List (Int32 × Nat)}
    (hdistance : ∀ t ∈ default :: cases.map (·.2),
      checkedDistance moved offset t = of (distanceTo moved offset t)) :
    checkedLookup moved offset default cases = of (encodeLookup moved offset default cases) := by
  obtain ⟨hdefault, htargets⟩ := List.forall_mem_cons.1 hdistance
  have hcases : ∀ c ∈ cases, ((c.1, ·) <$> checkedDistance moved offset c.2)
      = of ((distanceTo moved offset c.2).map (c.1, ·)) := fun c hc => by
    rw [htargets c.2 (List.mem_map_of_mem hc), of_map]
  simp only [checkedLookup, encodeLookup, hdefault, of_mapM hcases]
  exact of_bind fun d _ => of_bind fun ds _ => rfl

theorem checkedBranch_eq {op : UInt8} {target : Nat}
    (hdistance : checkedDistance moved offset target = of (distanceTo moved offset target)) :
    checkedBranch moved offset op target = of (encodeBranch moved op offset target) := by
  simp only [checkedBranch, encodeBranch, hdistance]
  refine of_bind fun d _ => ?_
  split
  · rfl
  split <;> rfl

theorem checkedEncode_eq (hdistance : ∀ t ∈ i.targets,
      checkedDistance moved offset t = of (distanceTo moved offset t))
    (htable : ∀ default low targets, i.operand ≠ .tableSwitch default low targets) :
    checkedEncode moved offset i = of (i.encode moved offset) := by
  obtain ⟨op, operand⟩ := i
  cases operand with
  | branch target => exact checkedBranch_eq (hdistance target List.mem_cons_self)
  | tableSwitch default low targets => exact absurd rfl (htable default low targets)
  | lookupSwitch default cases =>
      simp only [checkedEncode, encode, checkedLookup_eq hdistance, of_map]
  | _ => rfl

def DeclaresKeys (code : Bytes) (offset : Nat) (low high : Int32) : Prop :=
  ∃ default rest, code.drop (offset + 1 + switchPadding offset)
    = [default, low, high].flatMap Bytes.ofInt32 ++ rest

theorem format_of_tableSwitch {format : Format} {op : UInt8} {s r : Bytes} {default : Nat}
    {low : Int32} {targets : List Nat} (hf : Format.ofOpcode? op = some format)
    (h : decodeOperand format offset op s = .ok (i, r))
    (hi : i.operand = .tableSwitch default low targets) : format = .tableSwitch := by
  by_cases hw : format = .wide
  · subst hw
    cases s with
    | nil => cases h
    | cons inner s =>
        simp only [decodeOperand] at h
        split at h <;> split at h <;> cases h <;> cases hi
  · obtain ⟨rfl, hlegal, -⟩ := decodeOperand_legal hf hw h
    rw [Legal, hi] at hlegal
    exact Option.some.inj (hf.symm.trans hlegal.1)

theorem Decodes.declaresKeys {code : Bytes} {is : List (Nat × Instruction)}
    (h : Decodes 0 code is) {d : Nat × Instruction} (hd : d ∈ is) {default : Nat} {low : Int32}
    {targets : List Nat} (hi : d.2.operand = .tableSwitch default low targets) :
    ∃ high, DeclaresKeys code d.1 low high ∧ high.toInt - low.toInt + 1 = targets.length ∧
      targets.length < 2147483648 := by
  obtain ⟨op, s, r, hdrop, hnext⟩ := h.read d hd
  rw [Nat.sub_zero] at hdrop
  unfold decodeNext at hnext
  split at hnext
  · rename_i format hf
    obtain rfl := format_of_tableSwitch hf hnext hi
    obtain ⟨⟨default', low', ds, r'⟩, htable, hnext⟩ := Result.bind_ok.1 hnext
    obtain ⟨t, -, hnext⟩ := Result.bind_ok.1 hnext
    obtain ⟨ts, hts, hnext⟩ := Result.bind_ok.1 hnext
    obtain ⟨hinstruction, rfl⟩ := Prod.mk.inj (Except.ok.inj hnext)
    rw [← hinstruction] at hi
    cases hi
    obtain ⟨high, hwords, hcount, hlt⟩ := tableWords_ok htable
    rw [← length_mapM_ok hts] at hcount hlt
    refine ⟨high, ⟨default', ds.flatMap Bytes.ofInt32 ++ r', ?_⟩, hcount, hlt⟩
    rw [Nat.add_assoc, ← List.drop_drop, hdrop, Nat.add_comm, List.drop_succ_cons, hwords,
      List.flatMap_append, List.append_assoc]
  · cases hnext

/-- The only sum that leaves its range when an instruction of an accepted class is written, at an
offset and with targets that fit 16 bits, is the one past the highest key of a switch that goes up
to the greatest key there is, and it stops the writing. A sum that wrapped around would give the key
that the code declares all the same. -/
theorem checkedEncode_overflows (data : Bytes) (c : Class) (m : Method) (s : Site)
    (moved : TargetMap) (offset : Nat) (hparse : Class.parse data = .ok c) (hm : m ∈ c.methods)
    (hs : s ∈ m.code) (hoffset : offset < 65536)
    (hmoved : ∀ t ∈ s.instruction.targets, ∀ t', moved t = .ok t' → t' < 65536) :
    ∃ p code handlers, m.Reads p code handlers ∧
      ((∀ default low targets, s.instruction.operand ≠ .tableSwitch default low targets) →
        checkedEncode moved offset s.instruction = of (s.instruction.encode moved offset)) ∧
      ∀ default low targets, s.instruction.operand = .tableSwitch default low targets →
        ∃ high, DeclaresKeys code s.offset low high ∧ low + .ofNat targets.length - 1 = high ∧
          checkedEncode moved offset s.instruction =
            (if high = 2147483647 then overflow else of (s.instruction.encode moved offset)) ∧
          (high = 2147483647 → s.instruction.encode moved offset = .error .overflow) := by
  obtain ⟨p, code, handlers, hreads⟩ := Class.isRead_of_mem hparse hm
  have hdecodes := (Method.sites_iff.1 hreads.sites).1
  have hdistance : ∀ t ∈ s.instruction.targets,
      checkedDistance moved offset t = of (distanceTo moved offset t) :=
    fun t ht => checkedDistance_eq hoffset (hmoved t ht)
  refine ⟨p, code, handlers, hreads, checkedEncode_eq hdistance, ?_⟩
  intro default low targets hi
  obtain ⟨high, hkeys, hcount, hn⟩ := hdecodes.declaresKeys (List.mem_map_of_mem hs) hi
  have hleast := high.le_toInt
  have hmost := high.toInt_lt
  have hmax : (2147483647 : Int32).toInt = 2147483647 := rfl
  have hstops : high = 2147483647 → s.instruction.encode moved offset = .error .overflow := by
    intro htop
    rw [htop, hmax] at hcount
    refine encode_overflow (fun k hk => ?_) fun hrange => ?_
    · rw [hi] at hk
      cases hk
      exact hn
    · have hnext : low.toInt + targets.length < 2147483648 :=
        (hrange (low, targets.length) (by rw [hi]; rfl)).2
      omega
  refine ⟨high, hkeys, high_eq hcount, ?_, hstops⟩
  simp only [Instruction.targets, hi, Operand.targets] at hdistance
  simp only [checkedEncode, encode, hi]
  split
  · rename_i htop
    rw [htop, hmax] at hcount
    rw [checkedTable_overflow hn (by omega)]
    rfl
  · rename_i htop
    have hne : high.toInt ≠ 2147483647 := fun heq => htop (Int32.toInt_inj.1 (heq.trans hmax.symm))
    rw [checkedTable_eq hdistance hn (by omega) (by omega), of_map]

end Instruction

namespace Specimen

def switchFile : Bytes :=
  [0xca, 0xfe, 0xba, 0xbe, 0, 0, 0, 0x32, 0, 8,
    1, 0, 4, 0x43, 0x6f, 0x64, 0x65, 1, 0, 1, 0x67, 1, 0, 4, 0x28, 0x49, 0x29, 0x56,
    1, 0, 1, 0x53, 7, 0, 4, 1, 0, 1, 0x4f, 7, 0, 6,
    0, 0x21, 0, 5, 0, 7, 0, 0, 0, 0, 0, 1,
    0, 9, 0, 2, 0, 3, 0, 1, 0, 1, 0, 0, 0, 0x35, 0, 1, 0, 1, 0, 0, 0, 0x29,
    0x1a, 0xaa, 0, 0, 0, 0, 0, 0x13, 0x7f, 0xff, 0xff, 0xff, 0x7f, 0xff, 0xff, 0xff, 0, 0, 0, 0x27,
    0x1a, 0xaa, 0, 0, 0, 0, 0, 0x13, 0x80, 0, 0, 0, 0x80, 0, 0, 0, 0xff, 0xff, 0xff, 0xeb,
    0xb1, 0, 0, 0, 0, 0, 0]

def greatestSwitch : Site :=
  ⟨1, ⟨Opcode.tableswitch, .tableSwitch 20 2147483647 [40]⟩, .other⟩

def leastSwitch : Site := ⟨21, ⟨Opcode.tableswitch, .tableSwitch 40 (-2147483648) [0]⟩, .other⟩

def switching : Method :=
  { index := 0, name := "g", descriptor := "(I)V", access := 9, codeLength := 41
    code := [⟨0, .plain 0x1a, .other⟩, greatestSwitch, ⟨20, .plain 0x1a, .other⟩, leastSwitch,
      ⟨40, .plain Opcode.returnVoid, .other⟩]
    handlers := [], lines := [] }

def switcher : Class := { owner with methods := [switching] }

theorem parse_switchFile : Class.parse switchFile = .ok switcher := by decide +kernel

end Specimen

open Specimen in
theorem Instruction.checkedEncode_overflows_least :
    Class.parse switchFile = .ok switcher ∧ switching ∈ switcher.methods ∧
    leastSwitch ∈ switching.code ∧
    checkedEncode .ok 65535 leastSwitch.instruction
      = .of (leastSwitch.instruction.encode .ok 65535) := by
  have hmethod : switching ∈ switcher.methods := by decide
  have hsite : leastSwitch ∈ switching.code := by decide
  have htargets : ∀ t ∈ leastSwitch.instruction.targets, t < 65536 := by decide
  obtain ⟨_, _, _, -, -, htable⟩ :=
    checkedEncode_overflows switchFile switcher switching leastSwitch .ok 65535 parse_switchFile
      hmethod hsite (by decide) fun t ht t' heq => Except.ok.inj heq ▸ htargets t ht
  obtain ⟨high, -, rfl, hchecked, -⟩ := htable 40 (-2147483648) [0] rfl
  refine ⟨parse_switchFile, hmethod, hsite, hchecked.trans (if_neg ?_)⟩
  decide

open Specimen in
theorem Instruction.checkedEncode_greatest :
    Class.parse switchFile = .ok switcher ∧ switching ∈ switcher.methods ∧
    greatestSwitch ∈ switching.code ∧ (∀ t ∈ greatestSwitch.instruction.targets, t < 65536) ∧
    checkedEncode .ok 1 greatestSwitch.instruction = .overflow ∧
    greatestSwitch.instruction.encode .ok 1 = .error .overflow :=
  ⟨parse_switchFile, by decide, by decide, by decide, rfl, rfl⟩

end BytecodeMutation
