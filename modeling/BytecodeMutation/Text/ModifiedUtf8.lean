import BytecodeMutation.Bytes

/-!
The two encodings of constant strings: UTF-8, and its modified form in which NUL takes two bytes
and a supplementary character is a pair of three-byte surrogates.
-/

namespace BytecodeMutation.Text

def isContinuation (b : UInt8) : Bool := 0x80 ≤ b && b ≤ 0xbf

def low6 (b : UInt8) : Nat := b.toNat - 0x80

def two (a b : UInt8) : Nat := (a.toNat - 0xc0) * 64 + low6 b

def three (a b c : UInt8) : Nat := ((a.toNat - 0xe0) * 64 + low6 b) * 64 + low6 c

def four (a b c d : UInt8) : Nat := (((a.toNat - 0xf0) * 64 + low6 b) * 64 + low6 c) * 64 + low6 d

def isSurrogate (n : Nat) : Bool := 0xd800 ≤ n && n ≤ 0xdfff

def utf8After (acc : List Char) : Bytes → Option (List Char)
  | [] => some acc.reverse
  | a :: s =>
      if a < 0x80 then utf8After (.ofNat a.toNat :: acc) s
      else if 0xc2 ≤ a && a ≤ 0xdf then
        match s with
        | b :: s => if isContinuation b then utf8After (.ofNat (two a b) :: acc) s else none
        | _ => none
      else if 0xe0 ≤ a && a ≤ 0xef then
        match s with
        | b :: c :: s =>
            if isContinuation b && isContinuation c && 0x800 ≤ three a b c
                && !isSurrogate (three a b c) then
              utf8After (.ofNat (three a b c) :: acc) s
            else none
        | _ => none
      else if 0xf0 ≤ a && a ≤ 0xf4 then
        match s with
        | b :: c :: d :: s =>
            if isContinuation b && isContinuation c && isContinuation d && 0x10000 ≤ four a b c d
                && four a b c d ≤ 0x10ffff then
              utf8After (.ofNat (four a b c d) :: acc) s
            else none
        | _ => none
      else none

def utf8? (s : Bytes) : Option String := (utf8After [] s).map String.ofList

def joinSurrogates (high low : Nat) : Nat := 0x10000 + (high - 0xd800) * 0x400 + (low - 0xdc00)

def isHigh (n : Nat) : Bool := 0xd800 ≤ n && n ≤ 0xdbff

def isLow (n : Nat) : Bool := 0xdc00 ≤ n && n ≤ 0xdfff

def lowSurrogate? : Bytes → Option (Nat × Bytes)
  | a :: b :: c :: s =>
      if a == 0xed && isContinuation b && isContinuation c && isLow (three a b c) then
        some (three a b c, s)
      else none
  | _ => none

def modifiedChar? (a : UInt8) (s : Bytes) : Option (Char × Bytes) :=
  if a == 0 then none
  else if a < 0x80 then some (.ofNat a.toNat, s)
  else if a == 0xc0 then
    match s with
    | b :: s => if b == 0x80 then some (.ofNat 0, s) else none
    | _ => none
  else if 0xc2 ≤ a && a ≤ 0xdf then
    match s with
    | b :: s => if isContinuation b then some (.ofNat (two a b), s) else none
    | _ => none
  else if 0xe0 ≤ a && a ≤ 0xef then
    match s with
    | b :: c :: s =>
        if isContinuation b && isContinuation c && 0x800 ≤ three a b c then
          if isHigh (three a b c) then
            (lowSurrogate? s).map fun (low, s) => (.ofNat (joinSurrogates (three a b c) low), s)
          else if isLow (three a b c) then none
          else some (.ofNat (three a b c), s)
        else none
    | _ => none
  else none

theorem length_lowSurrogate? {s r : Bytes} {n : Nat} (h : lowSurrogate? s = some (n, r)) :
    r.length ≤ s.length := by
  unfold lowSurrogate? at h
  split at h
  · split at h
    · obtain ⟨-, rfl⟩ := Prod.mk.inj (Option.some.inj h)
      simp only [List.length_cons]
      omega
    · exact nomatch h
  · exact nomatch h

theorem length_modifiedChar? {a : UInt8} {s r : Bytes} {c : Char}
    (h : modifiedChar? a s = some (c, r)) : r.length ≤ s.length := by
  unfold modifiedChar? at h
  split at h
  · exact nomatch h
  split at h
  · obtain ⟨-, rfl⟩ := Prod.mk.inj (Option.some.inj h)
    exact Nat.le_refl _
  split at h
  · split at h
    · split at h
      · obtain ⟨-, rfl⟩ := Prod.mk.inj (Option.some.inj h)
        exact Nat.le_succ _
      · exact nomatch h
    · exact nomatch h
  split at h
  · split at h
    · split at h
      · obtain ⟨-, rfl⟩ := Prod.mk.inj (Option.some.inj h)
        exact Nat.le_succ _
      · exact nomatch h
    · exact nomatch h
  split at h
  · split at h
    · split at h
      · split at h
        · obtain ⟨⟨n, t⟩, ht, heq⟩ := Option.map_eq_some_iff.1 h
          obtain ⟨-, rfl⟩ := Prod.mk.inj heq
          have hlen := length_lowSurrogate? ht
          simp only [List.length_cons]
          omega
        split at h
        · exact nomatch h
        · obtain ⟨-, rfl⟩ := Prod.mk.inj (Option.some.inj h)
          simp only [List.length_cons]
          omega
      · exact nomatch h
    · exact nomatch h
  · exact nomatch h

def modifiedAfter (acc : List Char) : Bytes → Option (List Char)
  | [] => some acc.reverse
  | a :: s =>
      match _h : modifiedChar? a s with
      | some (c, r) => modifiedAfter (c :: acc) r
      | none => none
  termination_by s => s.length
  decreasing_by exact Nat.lt_succ_of_le (length_modifiedChar? _h)

def constantString? (s : Bytes) : Option String :=
  match utf8? s with
  | some t => some t
  | none => (modifiedAfter [] s).map String.ofList

def threeBytes (n : Nat) : Bytes :=
  [.ofNat (0xe0 + n / 4096), .ofNat (0x80 + n / 64 % 64), .ofNat (0x80 + n % 64)]

def modifiedBytes (c : Char) : Bytes :=
  let n := c.toNat
  if n = 0 then [0xc0, 0x80]
  else if n < 0x80 then [.ofNat n]
  else if n < 0x800 then [.ofNat (0xc0 + n / 64), .ofNat (0x80 + n % 64)]
  else if n < 0x10000 then threeBytes n
  else threeBytes (0xd800 + (n - 0x10000) / 0x400) ++ threeBytes (0xdc00 + (n - 0x10000) % 0x400)

def modifiedUtf8 (s : String) : Bytes := s.toList.flatMap modifiedBytes

end BytecodeMutation.Text
