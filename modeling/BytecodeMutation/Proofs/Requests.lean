import Mathlib.Data.Finset.Card
import Mathlib.Data.Finset.Dedup
import BytecodeMutation.Proofs.Codec
import BytecodeMutation.Proofs.Slots

namespace BytecodeMutation

/-- What a request needs in a pool. A string serves all requests, anything else only one. -/
inductive Need where
  | integer (value : Int32)
  | string (text : String)
  | owner (method : MemberRef)
  | signature (method : MemberRef)
  | member (method : MemberRef)
  deriving DecidableEq

namespace NewConstant

variable {r r' : NewConstant} {rs : List NewConstant} {n : Need}

def strings : NewConstant → List String
  | .integer _ => []
  | .method m => [m.owner, m.name, m.descriptor]

def needs : NewConstant → List Need
  | .integer value => [.integer value]
  | .method m =>
      [.string m.owner, .owner m, .string m.name, .string m.descriptor, .signature m, .member m]

def needsOf (rs : List NewConstant) : Finset Need := (rs.flatMap needs).toFinset

def IsTooLong (r : NewConstant) : Prop := ∃ s ∈ r.strings, 65535 < (Text.modifiedUtf8 s).length

theorem mem_needsOf : n ∈ needsOf rs ↔ ∃ r ∈ rs, n ∈ r.needs := by
  rw [needsOf, List.mem_toFinset, List.mem_flatMap]

theorem needsOf_concat : needsOf (rs ++ [r]) = needsOf rs ∪ r.needs.toFinset := by
  rw [needsOf, List.flatMap_append, List.flatMap_singleton, List.toFinset_append]
  rfl

theorem needsOf_concat_of_mem (h : r ∈ rs) : needsOf (rs ++ [r]) = needsOf rs := by
  rw [needsOf_concat, Finset.union_eq_left]
  intro n hn
  exact mem_needsOf.2 ⟨r, h, List.mem_toFinset.1 hn⟩

theorem string_mem_needs {s : String} : .string s ∈ r.needs ↔ s ∈ r.strings := by
  cases r with
  | integer value => simp [needs, strings]
  | method m => simp [needs, strings]

theorem eq_of_mem_needs (h : n ∈ r.needs) (h' : n ∈ r'.needs) (hn : ∀ s, n ≠ .string s) :
    r = r' := by
  cases r <;> cases r' <;> simp only [needs, List.mem_cons, List.not_mem_nil, or_false] at h h' <;>
    grind

theorem not_mem_needsOf (hr : r ∉ rs) (h : n ∈ r.needs) (hn : ∀ s, n ≠ .string s) :
    n ∉ needsOf rs := by
  intro hmem
  obtain ⟨r', hr', h'⟩ := mem_needsOf.1 hmem
  rw [eq_of_mem_needs h h' hn] at hr
  exact hr hr'

end NewConstant

open NewConstant

namespace PoolTail

variable {start i : UInt16} {t u : PoolTail} {k : Nat} {c : Constant} {e : Fault}
  {cache : List (NewConstant × UInt16)} {E E' : Finset Need} {n : Need}

structure Counts (start : UInt16) (k : Nat) (t : PoolTail) : Prop where
  next : t.next.toNat = start.toNat + k
  slots : (t.constants.reverse.map fun d => d.1.toNat) = List.range' start.toNat k

theorem Counts.push_ok (h : t.Counts start k) (hp : t.push c = .ok (i, u)) :
    u.Counts start (k + 1) ∧ u.strings = t.strings ∧ u.requests = t.requests := by
  unfold push at hp
  split at hp
  · cases hp
  · rename_i hnext
    cases hp
    have hne : t.next.toNat ≠ 65535 := fun heq => hnext (beq_iff_eq.2 (UInt16.toNat_inj.1 heq))
    have hlt := t.next.toNat_lt
    refine ⟨⟨?_, ?_⟩, rfl, rfl⟩
    · rw [UInt16.toNat_add, UInt16.toNat_one, Nat.mod_eq_of_lt (by omega), h.next, Nat.add_assoc]
    · rw [List.reverse_cons, List.map_append, h.slots, List.range'_concat, Nat.one_mul, ← h.next]
      rfl

theorem Counts.push_error (h : t.Counts start k) (hp : t.push c = .error e) :
    e = .limit .poolFull ∧ 65535 < start.toNat + (k + 1) := by
  unfold push at hp
  split at hp
  · rename_i hnext
    cases hp
    have hlast : t.next.toNat = 65535 := congrArg UInt16.toNat (beq_iff_eq.1 hnext)
    have hcount := h.next
    exact ⟨rfl, by omega⟩
  · cases hp

structure Covers (start : UInt16) (cache : List (NewConstant × UInt16)) (E : Finset Need)
    (t : PoolTail) : Prop where
  counts : t.Counts start E.card
  strings : ∀ s, (t.strings.lookup s).isSome = true ↔ .string s ∈ E
  short : ∀ s, .string s ∈ E → (Text.modifiedUtf8 s).length ≤ 65535
  requests : t.requests = cache

def Fits (start : UInt16) (cache : List (NewConstant × UInt16)) (E : Finset Need) :
    Except Fault (UInt16 × PoolTail) → Prop
  | .ok (_, u) => u.Covers start cache E
  | .error e => (e = .limit .poolFull ∧ 65535 < start.toNat + E.card) ∨
      (e = .limit .stringTooLong ∧ ∃ s, .string s ∈ E ∧ 65535 < (Text.modifiedUtf8 s).length)

theorem Fits.bind {x : Except Fault (UInt16 × PoolTail)}
    {f : UInt16 × PoolTail → Except Fault (UInt16 × PoolTail)} (hx : Fits start cache E x)
    (hsub : E ⊆ E') (hf : ∀ i u, u.Covers start cache E → Fits start cache E' (f (i, u))) :
    Fits start cache E' (x >>= f) := by
  cases x with
  | ok r => exact hf r.1 r.2 hx
  | error e =>
      rcases hx with ⟨he, hfull⟩ | ⟨he, s, hs, hlong⟩
      · have hcard := Finset.card_le_card hsub
        exact .inl ⟨he, by omega⟩
      · exact .inr ⟨he, s, hsub hs, hlong⟩

theorem Covers.push (h : t.Covers start cache E) (hn : n ∉ E) (hs : ∀ s, n ≠ .string s)
    (c : Constant) : Fits start cache (insert n E) (t.push c) := by
  have hcard := Finset.card_insert_of_notMem hn
  have hold : ∀ s, .string s ∈ insert n E ↔ .string s ∈ E := by
    intro s
    rw [Finset.mem_insert, or_iff_right fun heq => hs s heq.symm]
  cases hp : t.push c with
  | error e =>
      obtain ⟨he, hfull⟩ := h.counts.push_error hp
      exact .inl ⟨he, by rwa [hcard]⟩
  | ok r =>
      obtain ⟨hcounts, hstrings, hrequests⟩ := h.counts.push_ok hp
      refine ⟨hcard ▸ hcounts, fun s => ?_, fun s hmem => h.short s ((hold s).1 hmem),
        hrequests.trans h.requests⟩
      rw [hstrings, h.strings, hold]

theorem Covers.pushString (h : t.Covers start cache E) (s : String) :
    Fits start cache (insert (.string s) E) (t.pushString s) := by
  unfold PoolTail.pushString
  have hcached := h.strings s
  split
  · rename_i index hlookup
    rw [hlookup] at hcached
    rw [Finset.insert_eq_of_mem (hcached.1 rfl)]
    exact h
  · rename_i hlookup
    rw [hlookup] at hcached
    have hn : .string s ∉ E := fun hmem => Bool.false_ne_true (hcached.2 hmem)
    have hcard := Finset.card_insert_of_notMem hn
    simp only
    split
    · rename_i hlong
      exact .inr ⟨rfl, s, Finset.mem_insert_self _ _, hlong⟩
    · rename_i hshort
      cases hp : t.push (.utf8 (Text.modifiedUtf8 s)) with
      | error e =>
          obtain ⟨he, hfull⟩ := h.counts.push_error hp
          exact .inl ⟨he, by rwa [hcard]⟩
      | ok r =>
          obtain ⟨hcounts, hstrings, hrequests⟩ := h.counts.push_ok hp
          refine ⟨?_, fun s' => ?_, fun s' hmem => ?_, hrequests.trans h.requests⟩
          · rw [hcard]
            exact ⟨hcounts.next, hcounts.slots⟩
          · rw [List.lookup_cons, hstrings, Finset.mem_insert, ← h.strings, Need.string.injEq]
            cases hs : s' == s with
            | true => simp [beq_iff_eq.1 hs]
            | false => simp [beq_eq_false_iff_ne.1 hs]
          · rcases Finset.mem_insert.1 hmem with heq | hmem
            · cases heq
              exact Nat.le_of_not_lt hshort
            · exact h.short s' hmem

theorem Covers.pushMethod {m : MemberRef} (h : t.Covers start cache E)
    (howner : .owner m ∉ E) (hsignature : .signature m ∉ E) (hmember : .member m ∉ E) :
    Fits start cache (E ∪ (NewConstant.method m).needs.toFinset) (t.pushMethod m) := by
  obtain ⟨E₁, h₁⟩ : ∃ F, F = insert (.string m.owner) E := ⟨_, rfl⟩
  obtain ⟨E₂, h₂⟩ : ∃ F, F = insert (.owner m) E₁ := ⟨_, rfl⟩
  obtain ⟨E₃, h₃⟩ : ∃ F, F = insert (.string m.name) E₂ := ⟨_, rfl⟩
  obtain ⟨E₄, h₄⟩ : ∃ F, F = insert (.string m.descriptor) E₃ := ⟨_, rfl⟩
  obtain ⟨E₅, h₅⟩ : ∃ F, F = insert (.signature m) E₄ := ⟨_, rfl⟩
  have hlast : E ∪ (NewConstant.method m).needs.toFinset = insert (.member m) E₅ := by
    ext n
    simp only [h₁, h₂, h₃, h₄, h₅, needs, Finset.mem_union, List.mem_toFinset, List.mem_cons,
      List.not_mem_nil, or_false, Finset.mem_insert]
    tauto
  rw [hlast]
  have hs₅ : E₅ ⊆ insert (.member m) E₅ := Finset.subset_insert _ _
  have hs₄ : E₄ ⊆ insert (.member m) E₅ := (h₅ ▸ Finset.subset_insert _ _ : E₄ ⊆ E₅).trans hs₅
  have hs₃ : E₃ ⊆ insert (.member m) E₅ := (h₄ ▸ Finset.subset_insert _ _ : E₃ ⊆ E₄).trans hs₄
  have hs₂ : E₂ ⊆ insert (.member m) E₅ := (h₃ ▸ Finset.subset_insert _ _ : E₂ ⊆ E₃).trans hs₃
  have hs₁ : E₁ ⊆ insert (.member m) E₅ := (h₂ ▸ Finset.subset_insert _ _ : E₁ ⊆ E₂).trans hs₂
  refine Fits.bind (h₁ ▸ h.pushString m.owner) hs₁ fun _ _ c₁ => ?_
  have hn₁ : .owner m ∉ E₁ := by simpa [h₁] using howner
  refine Fits.bind (h₂ ▸ c₁.push hn₁ nofun _) hs₂ fun _ _ c₂ => ?_
  refine Fits.bind (h₃ ▸ c₂.pushString m.name) hs₃ fun _ _ c₃ => ?_
  refine Fits.bind (h₄ ▸ c₃.pushString m.descriptor) hs₄ fun _ _ c₄ => ?_
  have hn₄ : .signature m ∉ E₄ := by simpa [h₁, h₂, h₃, h₄] using hsignature
  refine Fits.bind (h₅ ▸ c₄.push hn₄ nofun _) hs₅ fun _ _ c₅ => ?_
  have hn₅ : .member m ∉ E₅ := by simpa [h₁, h₂, h₃, h₄, h₅] using hmember
  exact c₅.push hn₅ nofun _

def append (t : PoolTail) : NewConstant → Except Fault (UInt16 × PoolTail)
  | .integer value => t.push (.other 3 (Bytes.ofInt32 value))
  | .method m => t.pushMethod m

theorem Covers.append {rs : List NewConstant} {r : NewConstant}
    (h : t.Covers start cache (needsOf rs)) (hr : r ∉ rs) :
    Fits start cache (needsOf (rs ++ [r])) (t.append r) := by
  rw [needsOf_concat]
  cases r with
  | integer value =>
      have hn : .integer value ∉ needsOf rs := not_mem_needsOf hr (List.mem_singleton_self _) nofun
      have hinsert : needsOf rs ∪ (NewConstant.integer value).needs.toFinset
          = insert (.integer value) (needsOf rs) := by
        rw [needs, List.toFinset_cons, List.toFinset_nil, Finset.union_insert, Finset.union_empty]
      rw [hinsert]
      exact h.push hn nofun _
  | method m =>
      have hn : ∀ n ∈ (NewConstant.method m).needs, (∀ s, n ≠ .string s) → n ∉ needsOf rs :=
        fun n hn hs => not_mem_needsOf hr hn hs
      exact h.pushMethod (hn _ (by simp [needs]) nofun) (hn _ (by simp [needs]) nofun)
        (hn _ (by simp [needs]) nofun)

theorem request_eq_append {r : NewConstant} (h : t.requests.lookup r = none) : t.request r
    = (t.append r).map fun (i, u) => (i, { u with requests := (r, i) :: u.requests }) := by
  unfold request
  rw [h]
  cases r with
  | integer value =>
      change (t.push _ >>= _) = (t.push _).map _
      cases t.push (.other 3 (Bytes.ofInt32 value)) <;> rfl
  | method m =>
      change (t.pushMethod m >>= _) = (t.pushMethod m).map _
      cases t.pushMethod m <;> rfl

structure Answers (start : UInt16) (ps : List (NewConstant × UInt16)) (t : PoolTail) : Prop where
  covers : t.Covers start t.requests (needsOf (ps.map (·.1)))
  cached : ∀ r i, t.requests.lookup r = some i ↔ (r, i) ∈ ps

theorem answers_nil (start : UInt16) : Answers start [] ⟨start, [], [], []⟩ where
  covers := ⟨⟨rfl, rfl⟩, by simp [needsOf], by simp [needsOf], rfl⟩
  cached := by simp

variable {ps : List (NewConstant × UInt16)} {r : NewConstant} {rs : List NewConstant}
  {is : List UInt16}

theorem Answers.lookup_eq_none (h : t.Answers start ps) (hr : t.requests.lookup r = none) :
    r ∉ ps.map (·.1) := by
  intro hmem
  obtain ⟨⟨r', i⟩, hp, rfl⟩ := List.mem_map.1 hmem
  rw [(h.cached r' i).2 hp] at hr
  cases hr

theorem Answers.request_ok (h : t.Answers start ps) (hp : t.request r = .ok (i, u)) :
    u.Answers start (ps ++ [(r, i)]) := by
  have hmap : (ps ++ [(r, i)]).map (·.1) = ps.map (·.1) ++ [r] := List.map_append
  cases hlookup : t.requests.lookup r with
  | some j =>
      have hmem : (r, j) ∈ ps := (h.cached r j).1 hlookup
      simp only [request, hlookup] at hp
      cases hp
      refine ⟨?_, fun r' i' => ?_⟩
      · rw [hmap, needsOf_concat_of_mem (List.mem_map_of_mem (f := (·.1)) hmem)]
        exact h.covers
      · rw [h.cached, List.mem_append, List.mem_singleton, or_iff_left_of_imp]
        intro heq
        cases heq
        exact hmem
  | none =>
      have hfits := h.covers.append (h.lookup_eq_none hlookup)
      rw [request_eq_append hlookup] at hp
      obtain ⟨⟨j, v⟩, hv, heq⟩ := Result.map_ok.1 hp
      cases heq
      rw [hv] at hfits
      refine ⟨?_, fun r' i' => ?_⟩
      · rw [hmap]
        exact ⟨⟨hfits.counts.next, hfits.counts.slots⟩, hfits.strings, hfits.short, rfl⟩
      · rw [List.lookup_cons, hfits.requests, List.mem_append, List.mem_singleton, ← h.cached]
        cases hs : r' == r with
        | true =>
            obtain rfl := beq_iff_eq.1 hs
            simp [hlookup, eq_comm]
        | false => simp [beq_eq_false_iff_ne.1 hs]

theorem Answers.request_error (h : t.Answers start ps) (hp : t.request r = .error e) :
    (e = .limit .poolFull ∧ 65535 < start.toNat + (needsOf (ps.map (·.1) ++ [r])).card) ∨
      (e = .limit .stringTooLong ∧ r.IsTooLong) := by
  cases hlookup : t.requests.lookup r with
  | some j =>
      simp only [request, hlookup] at hp
      cases hp
  | none =>
      have hfits := h.covers.append (h.lookup_eq_none hlookup)
      rw [request_eq_append hlookup] at hp
      rw [Result.map_error.1 hp] at hfits
      rcases hfits with hfull | ⟨he, s, hs, hlong⟩
      · exact .inl hfull
      · -- strings of earlier requests were short enough
        rw [needsOf_concat, Finset.mem_union] at hs
        rcases hs with hs | hs
        · have hshort := h.covers.short s hs
          omega
        · exact .inr ⟨he, s, string_mem_needs.1 (List.mem_toFinset.1 hs), hlong⟩

theorem Answers.refuses_iff (h : t.Answers start ps) (r : NewConstant) :
    (∃ e, t.request r = .error e) ↔
      65535 < start.toNat + (needsOf (ps.map (·.1) ++ [r])).card ∨ r.IsTooLong := by
  constructor
  · rintro ⟨e, he⟩
    exact (h.request_error he).imp (·.2) (·.2)
  · intro hlimits
    cases hp : t.request r with
    | error e => exact ⟨e, rfl⟩
    | ok q =>
        exfalso
        have hanswers := h.request_ok hp
        have hcovers := hanswers.covers
        rw [List.map_append] at hcovers
        rcases hlimits with hfull | ⟨s, hs, hlong⟩
        · have hnext := hcovers.counts.next
          have hlt := q.2.next.toNat_lt
          simp only [List.map_cons, List.map_nil] at hnext
          omega
        · have hmem : .string s ∈ needsOf (ps.map (·.1) ++ [r]) :=
            mem_needsOf.2 ⟨r, List.mem_append_right _ (List.mem_singleton_self r),
              string_mem_needs.2 hs⟩
          have hshort := hcovers.short s hmem
          omega

def requestAll (t : PoolTail) : List NewConstant → Except Fault (List UInt16 × PoolTail)
  | [] => .ok ([], t)
  | r :: rs => do
      let (i, t) ← t.request r
      let (is, t) ← t.requestAll rs
      return (i :: is, t)

theorem requestAll_cons : t.requestAll (r :: rs) = .ok (is, u) ↔ ∃ i v is',
    t.request r = .ok (i, v) ∧ v.requestAll rs = .ok (is', u) ∧ is = i :: is' := by
  simp only [requestAll, Result.bind_ok, Result.pure_ok, Prod.exists, Prod.mk.injEq]
  constructor
  · rintro ⟨i, v, hv, is', u', hu, rfl, rfl⟩
    exact ⟨i, v, is', hv, hu, rfl⟩
  · rintro ⟨i, v, is', hv, hu, rfl⟩
    exact ⟨i, v, hv, is', u, hu, rfl, rfl⟩

theorem Answers.requestAll (h : t.Answers start ps) (hp : t.requestAll rs = .ok (is, u)) :
    is.length = rs.length ∧ u.Answers start (ps ++ rs.zip is) := by
  induction rs generalizing t ps is with
  | nil =>
      cases hp
      rw [List.zip_nil_left, List.append_nil]
      exact ⟨rfl, h⟩
  | cons r rs ih =>
      obtain ⟨i, v, is', hv, hu, rfl⟩ := requestAll_cons.1 hp
      obtain ⟨hlen, hanswers⟩ := ih (h.request_ok hv) hu
      rw [List.append_assoc] at hanswers
      exact ⟨congrArg Nat.succ hlen, hanswers⟩

theorem Extends.requestAll (h : t.Extends start) (hp : t.requestAll rs = .ok (is, u)) :
    u.Extends start := by
  induction rs generalizing t is with
  | nil =>
      cases hp
      exact h
  | cons r rs ih =>
      obtain ⟨i, v, is', hv, hu, rfl⟩ := requestAll_cons.1 hp
      exact ih (h.request hv).1.holds hu

end PoolTail

namespace Constant

variable {count index : UInt16} {cs : List (UInt16 × Constant)}

theorem le_of_mem (hcover : Cover count index cs)
    (hfull : index.toNat + slotCount cs = count.toNat) : ∀ d ∈ cs, index.toNat ≤ d.1.toNat := by
  induction cs generalizing index with
  | nil => exact nofun
  | cons d cs ih =>
      obtain ⟨slot, c⟩ := d
      obtain ⟨-, rfl, -, -, hcs⟩ := hcover
      obtain ⟨hnext, hrest⟩ := toNat_next hfull
      refine List.forall_mem_cons.2 ⟨Nat.le_refl _, fun d hd => ?_⟩
      have hle := ih hcs hrest d hd
      omega

theorem lookup_of_mem (hcover : Cover count index cs)
    (hfull : index.toNat + slotCount cs = count.toNat) : ∀ d ∈ cs, cs.lookup d.1 = some d.2 := by
  induction cs generalizing index with
  | nil => exact nofun
  | cons d cs ih =>
      obtain ⟨slot, c⟩ := d
      obtain ⟨-, rfl, -, -, hcs⟩ := hcover
      obtain ⟨hnext, hrest⟩ := toNat_next hfull
      have hpos := slots_pos c
      intro d hd
      rcases List.mem_cons.1 hd with rfl | hd
      · exact List.lookup_cons_self
      · have hle := le_of_mem hcs hrest d hd
        have hne : (d.1 == slot) = false := by
          rw [beq_eq_false_iff_ne]
          rintro heq
          rw [heq] at hle
          omega
        rw [List.lookup_cons, hne]
        exact ih hcs hrest d hd

end Constant

def ConstantTable.integer? (t : ConstantTable) (i : UInt16) : Option Int32 :=
  match t.constants.lookup i with
  | some (.other 3 [a, b, c, d]) => some (Instruction.signed32 a b c d)
  | _ => none

namespace NewConstant

variable {table : ConstantTable} {p : Pool} {r r' : NewConstant} {i : UInt16}

def IsAt (table : ConstantTable) (p : Pool) (i : UInt16) : NewConstant → Prop
  | .integer value => table.integer? i = some value
  | .method m => p.memberRef i = .ok m

theorem isAt_of_holds (hp : p.IsOf table) (h : PoolTail.Holds table.constants r i) :
    r.IsAt table p i := by
  cases r with
  | integer value =>
      have hlookup := Constant.lookup_of_mem hp.valid hp.full _ h
      have hvalue : Instruction.signed32 _ _ _ _ = value := Instruction.signed32_inverts.2 rfl
      simp only [IsAt, ConstantTable.integer?, hlookup]
      exact congrArg some hvalue
  | method m => exact Pool.memberRef_of_holds hp h

theorem get?_of_integer? (hp : p.IsOf table) {value : Int32} (h : table.integer? i = some value) :
    p.get? i = some .other := by
  unfold ConstantTable.integer? at h
  split at h
  · rename_i a b c d hlookup
    obtain ⟨item, items, hitems, hget⟩ := Pool.get?_of_mem hp (PoolTail.mem_of_lookup hlookup)
    cases hitems
    exact hget
  · cases h

theorem IsAt.unique (hp : p.IsOf table) (h : r.IsAt table p i) (h' : r'.IsAt table p i) :
    r = r' := by
  have hmixed : ∀ {value m}, table.integer? i = some value → p.memberRef i = .ok m → False := by
    intro value m hvalue hm
    obtain ⟨owner, signature, -, -, hget, -⟩ := Pool.memberRef_iff.1 hm
    cases (get?_of_integer? hp hvalue).symm.trans hget
  cases r with
  | integer value =>
      cases r' with
      | integer value' => exact congrArg integer (Option.some.inj (h.symm.trans h'))
      | method m' => exact (hmixed h h').elim
  | method m =>
      cases r' with
      | integer value' => exact (hmixed h' h).elim
      | method m' => exact congrArg method (Except.ok.inj (h.symm.trans h'))

end NewConstant

namespace PoolTail

theorem Holds.mem {cs : List (UInt16 × Constant)} {r : NewConstant} {i : UInt16}
    (h : Holds cs r i) : ∃ c, (i, c) ∈ cs := by
  cases r with
  | integer value => exact ⟨_, h⟩
  | method m =>
      obtain ⟨owner, -, signature, -, -, hmem, -⟩ := h
      exact ⟨_, hmem⟩

theorem Answers.index_iff {start : UInt16} {t : PoolTail} {ps : List (NewConstant × UInt16)}
    {table : ConstantTable} {p : Pool} (h : t.Answers start ps) (hp : p.IsOf table)
    (hat : ∀ r i, (r, i) ∈ ps → r.IsAt table p i) {r r' : NewConstant} {i i' : UInt16}
    (hr : (r, i) ∈ ps) (hr' : (r', i') ∈ ps) : r = r' ↔ i = i' := by
  constructor
  · rintro rfl
    rw [← h.cached] at hr hr'
    exact Option.some.inj (hr.symm.trans hr')
  · rintro rfl
    exact (hat r i hr).unique hp (hat r' i hr')

/-- Requests are given new slots of the extended pool that hold what they ask for, equal ones the
same slot and others different ones. What is appended are the needs of the requests, each once, in
the slots that follow those of the old pool; the count never passes the last slot, as a request is
refused just when it would, or when one of its strings is too long. -/
theorem requestAll_extends (table : ConstantTable) (p : Pool) (rs : List NewConstant)
    (is : List UInt16) (t : PoolTail) (hp : p.IsOf table)
    (hrs : requestAll ⟨table.count, [], [], []⟩ rs = .ok (is, t)) :
    is.length = rs.length ∧
    (∃ p' : Pool, ConstantTable.read (t.extend table).write = .ok (t.extend table, []) ∧
      Pool.ofTable (t.extend table) = .ok p' ∧ p.Within p' ∧
      ∀ r i, (r, i) ∈ rs.zip is → table.count.toNat ≤ i.toNat ∧ r.IsAt (t.extend table) p' i) ∧
    (∀ r i r' i', (r, i) ∈ rs.zip is → (r', i') ∈ rs.zip is → (r = r' ↔ i = i')) ∧
    ((t.extend table).count.toNat = table.count.toNat + t.constants.length ∧
      t.constants.length = (needsOf rs).card ∧
      (t.constants.reverse.map fun d => d.1.toNat)
        = List.range' table.count.toNat (needsOf rs).card) ∧
    ∀ r, ((∃ e, t.request r = .error e) ↔
        65535 < table.count.toNat + (needsOf (rs ++ [r])).card ∨ r.IsTooLong) ∧
      ∀ e, t.request r = .error e →
        (e = .limit .poolFull ∧ 65535 < table.count.toNat + (needsOf (rs ++ [r])).card) ∨
          (e = .limit .stringTooLong ∧ r.IsTooLong) := by
  obtain ⟨hlen, hanswers⟩ := (answers_nil table.count).requestAll hrs
  rw [List.nil_append] at hanswers
  have hextends := (extends_nil table.count).requestAll hrs
  obtain ⟨p', hp', hwithin⟩ := hp.extend hextends
  have hmap : (rs.zip is).map (·.1) = rs := List.map_fst_zip (Nat.le_of_eq hlen.symm)
  have hsub : t.constants ⊆ (t.extend table).constants := by
    intro d hd
    exact List.mem_append_right _ (List.mem_reverse.2 hd)
  have hcounts := hanswers.covers.counts
  rw [hmap] at hcounts
  have hat : ∀ r i, (r, i) ∈ rs.zip is →
      table.count.toNat ≤ i.toNat ∧ r.IsAt (t.extend table) p' i := by
    intro r i hr
    have hholds := hextends.requests r i (mem_of_lookup ((hanswers.cached r i).2 hr))
    obtain ⟨c, hc⟩ := hholds.mem
    have hslot := List.mem_map_of_mem (f := fun d => d.1.toNat) (List.mem_reverse.2 hc)
    rw [hcounts.slots, List.mem_range'_1] at hslot
    exact ⟨hslot.1, isAt_of_holds hp' (hholds.mono hsub)⟩
  have hlength : t.constants.length = (needsOf rs).card := by
    have hslots := congrArg List.length hcounts.slots
    rwa [List.length_map, List.length_reverse, List.length_range'] at hslots
  have hread : ConstantTable.read (t.extend table).write = .ok (t.extend table, []) :=
    ConstantTable.read_iff.2 ⟨hp'.valid, (List.append_nil _).symm⟩
  refine ⟨hlen, ⟨p', hread, hp'.read, hwithin, hat⟩,
    fun r i r' i' hr hr' => hanswers.index_iff hp' (fun r i hr => (hat r i hr).2) hr hr',
    ⟨?_, hlength, hcounts.slots⟩, fun r => ⟨?_, fun e he => ?_⟩⟩
  · rw [hlength]
    exact hcounts.next
  · have hrefuses := hanswers.refuses_iff r
    rwa [hmap] at hrefuses
  · have herror := hanswers.request_error he
    rwa [hmap] at herror

end PoolTail

namespace Specimen

def numberTable : ConstantTable :=
  ⟨4, [(1, .utf8 [0x53]), (2, .double 5 [0, 0, 0, 0, 0, 0, 0, 1])]⟩

def numberPool : Pool := ⟨#[.empty, .utf8 "S", .other, .empty]⟩

theorem isOf_numberTable : numberPool.IsOf numberTable where
  valid := (ConstantTable.read_iff.1
    (show ConstantTable.read numberTable.write = .ok (numberTable, []) by decide +kernel)).1
  full := by decide
  read := by decide +kernel

def callRequests : List NewConstant :=
  [.integer 100000, .method ⟨"S", "g", "()V"⟩, .integer 100000, .method ⟨"S", "S", "()V"⟩]

end Specimen

open Specimen in
theorem PoolTail.requestAll_extends_calls : ∃ t,
    requestAll ⟨numberTable.count, [], [], []⟩ callRequests = .ok ([4, 10, 4, 13], t) ∧
    (t.extend numberTable).count.toNat = 14 ∧
    (∃ p' : Pool, Pool.ofTable (t.extend numberTable) = .ok p' ∧
      p'.memberRef 10 = .ok ⟨"S", "g", "()V"⟩ ∧ p'.memberRef 13 = .ok ⟨"S", "S", "()V"⟩) ∧
    ¬ ∃ e, t.request (.integer 7) = .error e := by
  have hslots : (requestAll ⟨numberTable.count, [], [], []⟩ callRequests).map (·.1)
      = .ok [4, 10, 4, 13] := by decide +kernel
  obtain ⟨⟨is, t⟩, ht, rfl⟩ := Result.map_ok.1 hslots
  obtain ⟨-, ⟨p', -, hp', -, hat⟩, -, ⟨hcount, hlength, -⟩, hrefuses⟩ :=
    requestAll_extends numberTable numberPool callRequests [4, 10, 4, 13] t isOf_numberTable ht
  have hneeds : (needsOf callRequests).card = 10 := by decide +kernel
  refine ⟨t, ht, ?_, ⟨p', hp', ?_, ?_⟩, ?_⟩
  · rw [hcount, hlength, hneeds]
    rfl
  · exact (hat (.method ⟨"S", "g", "()V"⟩) 10 (by decide)).2
  · exact (hat (.method ⟨"S", "S", "()V"⟩) 13 (by decide)).2
  · rw [(hrefuses (.integer 7)).1]
    rintro (hfull | ⟨s, hs, -⟩)
    · exact absurd hfull (by decide +kernel)
    · cases hs

end BytecodeMutation
