import BytecodeMutation.ClassFile.Basic
import BytecodeMutation.ClassFile.Pool
import BytecodeMutation.Proofs.PoolGrowth

namespace BytecodeMutation

namespace Constant

theorem length_slotsOf {c : Constant} {items : List PoolItem} (h : Pool.slotsOf c = .ok items) :
    items.length = c.slots.toNat := by
  cases c with
  | utf8 text =>
      simp only [Pool.slotsOf] at h
      split at h
      · cases h
        rfl
      · cases h
  | «class» | member | nameAndType | double | other =>
      cases h
      rfl

abbrev Fill (cs : List (UInt16 × Constant)) (xss : List (List PoolItem)) : Prop :=
  List.Forall₂ (fun d items => Pool.slotsOf d.2 = .ok items) cs xss

variable {count index : UInt16} {cs : List (UInt16 × Constant)} {xss : List (List PoolItem)}

theorem length_flatten (h : Fill cs xss) : xss.flatten.length = slotCount cs := by
  induction h with
  | nil => rfl
  | @cons d items cs xss hd _ ih =>
      rw [List.flatten_cons, List.length_append, ih, length_slotsOf hd]
      rfl

theorem slots_pos (c : Constant) : 0 < c.slots.toNat := by
  cases c <;> simp [slots]

theorem toNat_next {slot : UInt16} {c : Constant} {ds : List (UInt16 × Constant)}
    (h : slot.toNat + slotCount ((slot, c) :: ds) = count.toNat) :
    (slot + c.slots).toNat = slot.toNat + c.slots.toNat ∧
      (slot + c.slots).toNat + slotCount ds = count.toNat := by
  have hcount := count.toNat_lt
  rw [slotCount_cons] at h
  have hnext : (slot + c.slots).toNat = slot.toNat + c.slots.toNat := by
    rw [UInt16.toNat_add, Nat.mod_eq_of_lt (by omega)]
  omega

theorem getElem?_flatten (hcover : Cover count index cs)
    (hfull : index.toNat + slotCount cs = count.toNat) (h : Fill cs xss) :
    ∀ d ∈ cs, index ≤ d.1 ∧ ∃ item items, Pool.slotsOf d.2 = .ok (item :: items) ∧
      xss.flatten[d.1.toNat - index.toNat]? = some item := by
  induction h generalizing index with
  | nil => exact nofun
  | @cons d items cs xss hd _ ih =>
      obtain ⟨slot, c⟩ := d
      obtain ⟨-, rfl, -, -, hcs⟩ := hcover
      obtain ⟨hnext, hrest⟩ := toNat_next hfull
      have hlen : items.length = c.slots.toNat := length_slotsOf hd
      have hpos := slots_pos c
      intro e he
      rcases List.mem_cons.1 he with rfl | he
      · obtain ⟨item, items, rfl⟩ := List.exists_cons_of_length_pos (hlen ▸ hpos)
        refine ⟨UInt16.le_refl _, item, items, hd, ?_⟩
        simp
      · obtain ⟨hle, item, rest, hitem, hget⟩ := ih hcs hrest e he
        rw [UInt16.le_iff_toNat_le, hnext] at hle
        refine ⟨UInt16.le_iff_toNat_le.2 (by omega), item, rest, hitem, ?_⟩
        rw [List.flatten_cons, List.getElem?_append_right (by omega), hlen, ← hget, hnext]
        congr 1
        omega

theorem mem_of_getElem? {name : String} {k : Nat} (hcover : Cover count index cs)
    (hfull : index.toNat + slotCount cs = count.toNat) (h : Fill cs xss)
    (hk : xss.flatten[k]? = some (.utf8 name)) : ∃ slot text, (slot, .utf8 text) ∈ cs ∧
      slot.toNat = index.toNat + k ∧ Text.constantString? text = some name := by
  induction h generalizing index k with
  | nil => cases hk
  | @cons d items cs xss hd _ ih =>
      obtain ⟨slot, c⟩ := d
      obtain ⟨-, rfl, -, -, hcs⟩ := hcover
      obtain ⟨hnext, hrest⟩ := toNat_next hfull
      have hlen : items.length = c.slots.toNat := length_slotsOf hd
      rw [List.flatten_cons] at hk
      by_cases hlt : k < items.length
      · rw [List.getElem?_append_left hlt] at hk
        cases c with
        | utf8 text =>
            simp only [Pool.slotsOf] at hd
            split at hd
            · rename_i t ht
              cases hd
              obtain rfl : k = 0 := by simpa using hlt
              cases hk
              exact ⟨slot, text, List.mem_cons_self, rfl, ht⟩
            · cases hd
        | «class» | member | nameAndType | double | other =>
            cases hd
            have hmem := List.mem_of_getElem? hk
            simp at hmem
      · rw [List.getElem?_append_right (Nat.le_of_not_lt hlt)] at hk
        obtain ⟨slot', text, hmem, hslot, htext⟩ := ih hcs hrest hk
        exact ⟨slot', text, List.mem_cons_of_mem _ hmem, by omega, htext⟩

end Constant

namespace Pool

open Constant

variable {t : ConstantTable} {p p' : Pool} {i : UInt16}

theorem ofTable_iff (hfull : t.IsFull) : ofTable t = .ok p ↔
    ∃ xss, Fill t.constants xss ∧ p.entries.toList = .empty :: xss.flatten := by
  have htake : ∀ {xss}, Fill t.constants xss →
      (PoolItem.empty :: xss.flatten).take t.count.toNat = .empty :: xss.flatten := by
    intro xss h
    have hcount : 1 + slotCount t.constants = t.count.toNat := hfull
    rw [List.take_of_length_le]
    rw [List.length_cons, length_flatten h]
    omega
  constructor
  · intro h
    obtain ⟨xss, hxss, h⟩ := Result.bind_ok.1 h
    cases h
    have hfill : Fill t.constants xss := Result.mapM_ok.1 hxss
    exact ⟨xss, hfill, by rw [htake hfill]⟩
  · rintro ⟨xss, hfill, hp⟩
    refine Result.bind_ok.2 ⟨xss, Result.mapM_ok.2 hfill, ?_⟩
    rw [htake hfill, ← hp]
    rfl

theorem get?_eq (hp : p.entries.toList = .empty :: items) :
    p.get? i = (.empty :: items)[i.toNat]? := by
  rw [← hp, Array.getElem?_toList]
  rfl

structure IsOf (p : Pool) (t : ConstantTable) : Prop where
  valid : t.Valid
  full : t.IsFull
  read : ofTable t = .ok p

theorem IsOf.entries (hp : p.IsOf t) :
    ∃ xss, Fill t.constants xss ∧ p.entries.toList = .empty :: xss.flatten :=
  (ofTable_iff hp.full).1 hp.read

theorem get?_of_mem (hp : p.IsOf t) {d : UInt16 × Constant} (hd : d ∈ t.constants) :
    ∃ item items, slotsOf d.2 = .ok (item :: items) ∧ p.get? d.1 = some item := by
  obtain ⟨xss, hfill, hentries⟩ := hp.entries
  obtain ⟨hle, item, items, hitems, hget⟩ := getElem?_flatten hp.valid hp.full hfill d hd
  refine ⟨item, items, hitems, ?_⟩
  rw [get?_eq hentries, ← hget]
  have hone : 1 ≤ d.1.toNat := UInt16.le_iff_toNat_le.1 hle
  rw [List.getElem?_cons]
  rw [if_neg (by omega)]
  rfl

theorem exists_of_get? {name : String} (hp : p.IsOf t) (h : p.get? i = some (.utf8 name)) :
    ∃ text, (i, .utf8 text) ∈ t.constants ∧ Text.constantString? text = some name := by
  obtain ⟨xss, hfill, hentries⟩ := hp.entries
  rw [get?_eq hentries, List.getElem?_cons] at h
  split at h
  · cases h
  · rename_i hne
    obtain ⟨slot, text, hmem, hslot, htext⟩ := mem_of_getElem? hp.valid hp.full hfill h
    obtain rfl : slot = i := by
      rw [← UInt16.toNat_inj, hslot]
      show 1 + (i.toNat - 1) = i.toNat
      omega
    exact ⟨text, hmem, htext⟩

def Within (p p' : Pool) : Prop := ∀ i item, p.get? i = some item → p'.get? i = some item

theorem IsOf.extend {tail : PoolTail} (hp : p.IsOf t) (h : tail.Extends t.count) :
    ∃ p' : Pool, p'.IsOf (tail.extend t) ∧ p.Within p' := by
  obtain ⟨xss, hfill, hentries⟩ := hp.entries
  have hreadable : ∀ d ∈ tail.constants.reverse, ∃ items, slotsOf d.2 = .ok items :=
    fun d hd => h.readable d (List.mem_reverse.1 hd)
  obtain ⟨yss, hfill'⟩ := Result.exists_forall₂ hreadable
  have hboth : Fill (tail.extend t).constants (xss ++ yss) := List.rel_append hfill hfill'
  have hfull := h.isFull_extend hp.full
  refine ⟨⟨(.empty :: (xss ++ yss).flatten).toArray⟩,
    ⟨h.valid_extend hp.valid hp.full, hfull, (ofTable_iff hfull).2 ⟨_, hboth, rfl⟩⟩,
    fun i item hitem => ?_⟩
  rw [get?_eq hentries] at hitem
  rw [get?_eq rfl, List.flatten_append, ← List.cons_append]
  exact List.getElem?_append_left (List.getElem?_eq_some_iff.1 hitem).1 ▸ hitem

variable {name : String} {m : MemberRef}

theorem utf8_iff : p.utf8 i = .ok name ↔ p.get? i = some (.utf8 name) := by
  unfold utf8
  split <;> simp_all

theorem className_iff : p.className i = .ok name ↔
    ∃ j, p.get? i = some (.class j) ∧ p.get? j = some (.utf8 name) := by
  unfold className
  split <;> simp_all [utf8_iff]

theorem nameAndType_iff {n d : UInt16} :
    p.nameAndType i = .ok (n, d) ↔ p.get? i = some (.nameAndType n d) := by
  unfold nameAndType
  split <;> simp_all

theorem memberRef_iff : p.memberRef i = .ok m ↔
    ∃ owner signature n d, p.get? i = some (.member owner signature) ∧
      p.className owner = .ok m.owner ∧ p.get? signature = some (.nameAndType n d) ∧
      p.get? n = some (.utf8 m.name) ∧ p.get? d = some (.utf8 m.descriptor) := by
  obtain ⟨mowner, mname, mdescriptor⟩ := m
  unfold memberRef
  split
  · rename_i owner signature hi
    simp only [Result.bind_ok, attempt_ok, Result.pure_ok, utf8_iff, Prod.exists, nameAndType_iff,
      MemberRef.mk.injEq, hi, Option.some.injEq, PoolItem.member.injEq]
    constructor
    · rintro ⟨o, ho, n, d, hs, n', hn, d', hd, rfl, rfl, rfl⟩
      exact ⟨owner, signature, n, d, ⟨rfl, rfl⟩, ho, hs, hn, hd⟩
    · rintro ⟨_, _, n, d, ⟨rfl, rfl⟩, ho, hs, hn, hd⟩
      exact ⟨mowner, ho, n, d, hs, mname, hn, mdescriptor, hd, rfl, rfl, rfl⟩
  · rename_i hne hi
    constructor
    · exact nofun
    · rintro ⟨owner, signature, n, d, hget, -⟩
      exact absurd (Option.some.inj (hi.symm.trans hget)) (hne owner signature)
  · rename_i hi
    constructor
    · exact nofun
    · rintro ⟨owner, signature, n, d, hget, -⟩
      cases hi.symm.trans hget

theorem Within.utf8 (h : p.Within p') (hi : p.utf8 i = .ok name) : p'.utf8 i = .ok name :=
  utf8_iff.2 (h i _ (utf8_iff.1 hi))

theorem Within.className (h : p.Within p') (hi : p.className i = .ok name) :
    p'.className i = .ok name := by
  obtain ⟨j, hj, hname⟩ := className_iff.1 hi
  exact className_iff.2 ⟨j, h i _ hj, h j _ hname⟩

theorem Within.memberRef (h : p.Within p') (hi : p.memberRef i = .ok m) :
    p'.memberRef i = .ok m := by
  obtain ⟨owner, signature, n, d, hm, ho, hs, hn, hd⟩ := memberRef_iff.1 hi
  exact memberRef_iff.2 ⟨owner, signature, n, d, h i _ hm, h.className ho, h signature _ hs,
    h n _ hn, h d _ hd⟩

theorem memberRef_of_holds (hp : p.IsOf t) (h : PoolTail.Holds t.constants (.method m) i) :
    p.memberRef i = .ok m := by
  have hget : ∀ {slot c item}, (slot, c) ∈ t.constants → slotsOf c = .ok [item] →
      p.get? slot = some item := by
    intro slot c item hmem hslots
    obtain ⟨item', items, hitems, hget⟩ := get?_of_mem hp hmem
    rw [hslots] at hitems
    cases hitems
    exact hget
  have hstring : ∀ {slot s}, (slot, .utf8 (Text.modifiedUtf8 s)) ∈ t.constants →
      p.get? slot = some (.utf8 s) := by
    intro slot s hmem
    refine hget hmem ?_
    simp only [slotsOf, Text.constantString?_modifiedUtf8]
  obtain ⟨owner, ownerName, signature, n, d, hm, ho, hoName, hs, hn, hd⟩ := h
  exact memberRef_iff.2 ⟨owner, signature, n, d, hget hm rfl,
    className_iff.2 ⟨ownerName, hget ho rfl, hstring hoName⟩, hget hs rfl, hstring hn, hstring hd⟩

end Pool

namespace ClassFile

variable {l : ClassFile} {p : Pool} {i : UInt16} {name : String}

structure IsSearch (i : UInt16) (f : Option String → UInt16 × Constant → Option String) :
    Prop where
  hit : ∀ found text, f found (i, .utf8 text) = Text.utf8? text
  miss : ∀ found d, (∀ text, d ≠ (i, .utf8 text)) → f found d = found

variable {f : Option String → UInt16 × Constant → Option String} {cs : List (UInt16 × Constant)}
  {found : Option String}

theorem IsSearch.mem (hf : IsSearch i f) (h : cs.foldl f found = some name) :
    found = some name ∨ ∃ text, (i, .utf8 text) ∈ cs ∧ Text.utf8? text = some name := by
  induction cs generalizing found with
  | nil => exact .inl h
  | cons d cs ih =>
      rcases ih h with h | ⟨text, hmem, h⟩
      · by_cases hd : ∃ text, d = (i, .utf8 text)
        · obtain ⟨text, rfl⟩ := hd
          rw [hf.hit] at h
          exact .inr ⟨text, List.mem_cons_self, h⟩
        · rw [hf.miss found d fun text heq => hd ⟨text, heq⟩] at h
          exact .inl h
      · exact .inr ⟨text, List.mem_cons_of_mem _ hmem, h⟩

theorem IsSearch.foldl_eq (hf : IsSearch i f)
    (hall : ∀ text, (i, .utf8 text) ∈ cs → Text.utf8? text = some name)
    (h : found = some name ∨ ∃ text, (i, .utf8 text) ∈ cs) : cs.foldl f found = some name := by
  induction cs generalizing found with
  | nil => exact h.resolve_right fun ⟨_, hmem⟩ => nomatch hmem
  | cons d cs ih =>
      have hrest : ∀ text, (i, .utf8 text) ∈ cs → Text.utf8? text = some name :=
        fun text hmem => hall text (List.mem_cons_of_mem _ hmem)
      rw [List.foldl_cons]
      by_cases hd : ∃ text, d = (i, .utf8 text)
      · obtain ⟨text, rfl⟩ := hd
        rw [hf.hit]
        exact ih hrest (.inl (hall text List.mem_cons_self))
      · have hne : ∀ text, d ≠ (i, .utf8 text) := fun text heq => hd ⟨text, heq⟩
        rw [hf.miss found d hne]
        exact ih hrest (h.imp_right fun ⟨text, hmem⟩ =>
          ⟨text, (List.mem_cons.1 hmem).resolve_left (hne text).symm⟩)

theorem isSearch (i : UInt16) : IsSearch i fun found (slot, c) => match c with
    | .utf8 text => if slot == i then Text.utf8? text else found
    | _ => found where
  hit found text := if_pos (beq_self_eq_true i)
  miss found d hne := by
    obtain ⟨slot, c⟩ := d
    cases c with
    | utf8 text =>
        refine if_neg fun heq => hne text ?_
        rw [beq_iff_eq.1 heq]
    | «class» | member | nameAndType | double | other => rfl

theorem utf8_of_utf8? (hp : p.IsOf l.pool) (h : l.utf8? i = some name) :
    p.utf8 i = .ok name := by
  obtain ⟨text, hmem, htext⟩ := ((isSearch i).mem h).resolve_left nofun
  obtain ⟨item, items, hitems, hget⟩ := Pool.get?_of_mem hp hmem
  have hstring : Text.constantString? text = some name := by
    simp only [Text.constantString?, htext]
  simp only [Pool.slotsOf, hstring] at hitems
  cases hitems
  exact Pool.utf8_iff.2 hget

def IsPlain (name : String) : Prop := ∀ c ∈ name.toList, c.toNat ≠ 0 ∧ c.toNat < 0x10000

instance (name : String) : Decidable (IsPlain name) :=
  List.decidableBAll (fun c : Char => c.toNat ≠ 0 ∧ c.toNat < 0x10000) name.toList

theorem named_iff {a : RawAttribute} (hp : p.IsOf l.pool) (hname : IsPlain name) :
    l.named name a = true ↔ p.utf8 a.name = .ok name := by
  rw [named, beq_iff_eq]
  constructor
  · exact utf8_of_utf8? hp
  · intro h
    have hget := Pool.utf8_iff.1 h
    obtain ⟨text, hmem, -⟩ := Pool.exists_of_get? hp hget
    refine (isSearch a.name).foldl_eq (fun text' hmem' => ?_) (.inr ⟨text, hmem⟩)
    obtain ⟨item, items, hitems, hget'⟩ := Pool.get?_of_mem hp hmem'
    rw [hget] at hget'
    cases hget'
    simp only [Pool.slotsOf] at hitems
    split at hitems
    · rename_i t ht
      cases hitems
      exact Text.utf8?_of_constantString? ht hname
    · cases hitems

end ClassFile

namespace Pool

structure Serves (p : Pool) (l : ClassFile) : Prop where
  read : ofTable l.pool = .ok p
  named : ∀ {name : String}, ClassFile.IsPlain name → ∀ a : RawAttribute,
    l.named name a = true ↔ p.utf8 a.name = .ok name

variable {p : Pool} {l l' : ClassFile}

theorem IsOf.serves (h : p.IsOf l.pool) : p.Serves l :=
  ⟨h.read, fun hname _ => ClassFile.named_iff h hname⟩

theorem Serves.congr (h : p.Serves l) (hpool : l'.pool = l.pool) : p.Serves l' where
  read := hpool ▸ h.read
  named := by
    intro name hname a
    rw [← h.named hname a, ClassFile.named, ClassFile.named, ClassFile.utf8?, ClassFile.utf8?,
      hpool]

end Pool

end BytecodeMutation
