import BytecodeMutation.Proofs.Persistence
import BytecodeMutation.Proofs.Slots
import BytecodeMutation.Proofs.Tables

namespace BytecodeMutation

open Reader

namespace Reader

variable {α β : Type} {r : Reader β} {w : α → Bytes} {as : List α} {bs : List β}

theorem timesAfter_flatMap (h : List.Forall₂ (fun a b => ∀ t, r (w a ++ t) = .ok (b, t)) as bs)
    (acc : List β) (t : Bytes) :
    timesAfter r as.length acc (as.flatMap w ++ t) = .ok (acc.reverse ++ bs, t) := by
  induction h generalizing acc with
  | nil => simp [timesAfter]
  | @cons a b as bs hab _ ih =>
      rw [List.flatMap_cons, List.append_assoc, List.length_cons]
      simp only [timesAfter, hab]
      rw [ih]
      simp

theorem counted_flatMap (hlen : as.length < 65536)
    (h : List.Forall₂ (fun a b => ∀ t, r (w a ++ t) = .ok (b, t)) as bs) (t : Bytes) :
    counted r (Bytes.ofNat16 as.length ++ as.flatMap w ++ t) = .ok (bs, t) := by
  rw [List.append_assoc]
  refine bind_ok.2 ⟨_, _, u2_ofUInt16 _ _, ?_⟩
  rw [UInt16.toNat_ofNat', Nat.mod_eq_of_lt hlen]
  exact timesAfter_flatMap h [] t

theorem counted_map {f : α → β} (hlen : as.length < 65536)
    (h : ∀ a ∈ as, ∀ t, r (w a ++ t) = .ok (f a, t)) :
    counted r (Bytes.ofNat16 as.length ++ as.flatMap w) = .ok (as.map f, []) := by
  have hall : List.Forall₂ (fun a b => ∀ t, r (w a ++ t) = .ok (b, t)) as (as.map f) := by
    rw [List.forall₂_map_right_iff, List.forall₂_same]
    exact h
  have hread := counted_flatMap hlen hall []
  rwa [List.append_nil] at hread

theorem length_le_flatMap {a : α} (h : a ∈ as) : (w a).length ≤ (as.flatMap w).length := by
  obtain ⟨before, after, rfl⟩ := List.append_of_mem h
  simp only [List.flatMap_append, List.flatMap_cons, List.length_append]
  omega

end Reader

def Attribute.readNext (p : Pool) (depth : Nat) : Reader Attribute := do
  let name ← Reader.u2
  let length ← Reader.u4
  fun s => do
    let name ← p.utf8 name
    readBody (readList p depth) name length.toNat s

namespace RawAttribute

/-- An attribute is read by its structure up to where its length says that it ends. -/
def ReadsAs (p : Pool) (a : RawAttribute) (x : Attribute) : Prop :=
  ∃ name, p.utf8 a.name = .ok name ∧
    Attribute.readBody (Attribute.readList p a.body.length) name a.body.length a.body = .ok (x, [])

def IsExact (p : Pool) (a : RawAttribute) : Prop := ∃ x, a.ReadsAs p x

def rest? (p : Pool) (a : RawAttribute) : Option Bytes :=
  match p.utf8 a.name with
  | .ok name => match Attribute.readBody (Attribute.readList p a.body.length) name a.body.length
        a.body with
      | .ok (_, s) => some s
      | .error _ => none
  | .error _ => none

theorem isExact_iff {p : Pool} {a : RawAttribute} : a.IsExact p ↔ a.rest? p = some [] := by
  constructor
  · rintro ⟨x, name, hname, hbody⟩
    simp only [rest?, hname, hbody]
  · intro h
    unfold rest? at h
    split at h
    · rename_i name hname
      split at h
      · rename_i x s hbody
        cases h
        exact ⟨x, name, hname, hbody⟩
      · cases h
    · cases h

instance (p : Pool) (a : RawAttribute) : Decidable (a.IsExact p) :=
  decidable_of_iff (a.rest? p = some []) isExact_iff.symm

variable {p p' : Pool} {a : RawAttribute} {as : List RawAttribute} {x y : Attribute}
  {xs : List Attribute}

theorem ReadsAs.mono (h : a.ReadsAs p x) (hw : p.Within p') : a.ReadsAs p' x := by
  obtain ⟨name, hname, hbody⟩ := h
  have hinner := Attribute.persists_readList hw.utf8 (Nat.le_refl a.body.length)
  have hread := Attribute.persists_readBody hinner name a.body.length _ _ [] _ hbody
  rw [List.append_nil] at hread
  exact ⟨name, hw.utf8 hname, hread⟩

theorem ReadsAs.unique (h : a.ReadsAs p x) (h' : a.ReadsAs p y) : x = y := by
  obtain ⟨name, hname, hbody⟩ := h
  obtain ⟨name', hname', hbody'⟩ := h'
  obtain rfl := Except.ok.inj (hname.symm.trans hname')
  exact congrArg Prod.fst (Except.ok.inj (hbody.symm.trans hbody'))

theorem length_body_lt (a : RawAttribute) : a.body.length < a.write.length := by
  simp only [write, Bytes.ofNat32, List.length_append, Bytes.length_ofUInt16,
    Bytes.length_ofUInt32]
  omega

theorem ReadsAs.read {depth : Nat} (h : a.ReadsAs p x) (hv : a.Valid)
    (hdepth : a.body.length ≤ depth) (t : Bytes) :
    Attribute.readNext p depth (a.write ++ t) = .ok (x, t) := by
  obtain ⟨name, hname, hbody⟩ := h
  have hinner := Attribute.persists_readList (p := p) (fun h => h) hdepth
  have hread := Attribute.persists_readBody hinner name a.body.length _ _ t _ hbody
  rw [write, List.append_assoc, List.append_assoc]
  refine bind_ok.2 ⟨_, _, u2_ofUInt16 _ _, bind_ok.2 ⟨_, _, u4_ofUInt32 _ _, ?_⟩⟩
  rw [UInt32.toNat_ofNat', Nat.mod_eq_of_lt hv]
  exact Result.bind_ok.2 ⟨name, hname, hread⟩

theorem readList_writeAll {depth : Nat} (hv : AllValid as) (h : List.Forall₂ (ReadsAs p) as xs)
    (hdepth : ∀ a ∈ as, a.body.length ≤ depth) (t : Bytes) :
    Attribute.readList p (depth + 1) (writeAll as ++ t) = .ok (xs, t) := by
  have heach : ∀ a ∈ as, a.Valid ∧ a.body.length ≤ depth := fun a ha => ⟨hv.2 a ha, hdepth a ha⟩
  have hboth := (List.forall₂_and_left as xs).2 ⟨heach, h⟩
  exact counted_flatMap hv.1 (hboth.imp fun a x h => h.2.read h.1.1 h.1.2) t

theorem length_body_lt_writeAll (ha : a ∈ as) : a.body.length + 2 < (writeAll as).length := by
  have hle := length_le_flatMap (w := write) ha
  have hlt := length_body_lt a
  simp only [writeAll, Bytes.ofNat16, List.length_append, Bytes.length_ofUInt16]
  omega

theorem readsAs_code {c : CodeBody} (hname : p.utf8 a.name = .ok "Code")
    (hc : CodeBody.read a.body = .ok c) (h : List.Forall₂ (ReadsAs p) c.attributes xs) :
    a.ReadsAs p (.code c.code c.handlers xs) := by
  obtain ⟨hv, hbody⟩ := CodeBody.read_iff.1 hc
  have hwrite : c.write = Bytes.ofUInt16 c.maxStack ++ Bytes.ofUInt16 c.maxLocals
      ++ (Bytes.ofNat32 c.code.length ++ (c.code ++ (Bytes.ofNat16 c.handlers.length
        ++ c.handlers.flatMap RawHandler.write ++ writeAll c.attributes))) := by
    simp [CodeBody.write]
  have hlength := congrArg List.length hwrite
  simp only [List.length_append, Bytes.length_ofUInt16] at hlength
  obtain ⟨depth, hdepth⟩ : ∃ k, c.write.length = k + 1 := ⟨c.write.length - 1, by omega⟩
  have hle : ∀ b ∈ c.attributes, b.body.length ≤ depth := by
    intro b hb
    have hlt := length_body_lt_writeAll hb
    omega
  have hinner := readList_writeAll hv.attributes h hle []
  have hcount : c.code.length = (UInt32.ofNat c.code.length).toNat := by
    rw [UInt32.toNat_ofNat', Nat.mod_eq_of_lt hv.code]
  rw [List.append_nil] at hinner
  refine ⟨"Code", hname, ?_⟩
  rw [hbody, hdepth, hwrite]
  refine bind_ok.2 ⟨(), _, skip_iff.2 ⟨_, rfl, rfl⟩, ?_⟩
  refine bind_ok.2 ⟨_, _, u4_ofUInt32 _ _, ?_⟩
  refine bind_ok.2 ⟨_, _, take_iff.2 ⟨hcount, rfl⟩, ?_⟩
  refine bind_ok.2 ⟨c.handlers, _, ?_, bind_ok.2 ⟨_, _, hinner, rfl⟩⟩
  exact (counted_iff RawHandler.read_iff).2 ⟨⟨hv.handlers, fun _ _ => trivial⟩, rfl⟩

theorem name_of_readsAs_code {code : Bytes} {handlers : List RawHandler}
    (h : a.ReadsAs p (.code code handlers xs)) : p.utf8 a.name = .ok "Code" := by
  obtain ⟨name, hname, hbody⟩ := h
  unfold Attribute.readBody at hbody
  split at hbody
  · exact hname
  · obtain ⟨es, s, -, hbody⟩ := bind_ok.1 hbody
    cases (pure_ok.1 hbody).1
  · obtain ⟨es, s, -, hbody⟩ := bind_ok.1 hbody
    cases (pure_ok.1 hbody).1
  · obtain ⟨es, s, -, hbody⟩ := bind_ok.1 hbody
    cases (pure_ok.1 hbody).1

end RawAttribute

namespace RawMember

structure ReadsAs (p : Pool) (m : RawMember) (e : MethodEntry) : Prop where
  name : e.name = m.name
  descriptor : e.descriptor = m.descriptor
  attributes : List.Forall₂ (RawAttribute.ReadsAs p) m.attributes e.attributes

variable {p : Pool} {m : RawMember} {ms : List RawMember} {e : MethodEntry}
  {es : List MethodEntry} {depth : Nat}

theorem ReadsAs.read (h : m.ReadsAs p e) (hv : m.Valid)
    (hdepth : ∀ a ∈ m.attributes, a.body.length ≤ depth) (t : Bytes) :
    ClassStructure.readMember p (depth + 1) (m.write ++ t) = .ok (e, t) := by
  obtain ⟨name, descriptor, attributes⟩ := e
  obtain ⟨rfl, rfl, has⟩ := h
  have hlist := RawAttribute.readList_writeAll hv has hdepth t
  rw [write, List.append_assoc, List.append_assoc, List.append_assoc]
  refine bind_ok.2 ⟨(), _, skip_iff.2 ⟨Bytes.ofUInt16 m.access, rfl, rfl⟩, ?_⟩
  refine bind_ok.2 ⟨_, _, u2_ofUInt16 _ _, bind_ok.2 ⟨_, _, u2_ofUInt16 _ _, ?_⟩⟩
  exact bind_ok.2 ⟨_, _, hlist, rfl⟩

theorem length_body_lt_writeAll (hm : m ∈ ms) {a : RawAttribute} (ha : a ∈ m.attributes) :
    a.body.length + 2 < (writeAll ms).length := by
  have hlt := RawAttribute.length_body_lt_writeAll ha
  have hle := length_le_flatMap (w := write) hm
  simp only [write, writeAll, Bytes.ofNat16, List.length_append, Bytes.length_ofUInt16] at hle ⊢
  omega

theorem readMembers_writeAll (hv : AllValid ms) (h : List.Forall₂ (ReadsAs p) ms es)
    (hdepth : ∀ m ∈ ms, ∀ a ∈ m.attributes, a.body.length ≤ depth) (t : Bytes) :
    counted (ClassStructure.readMember p (depth + 1)) (writeAll ms ++ t) = .ok (es, t) := by
  have heach : ∀ m ∈ ms, m.Valid ∧ ∀ a ∈ m.attributes, a.body.length ≤ depth :=
    fun m hm => ⟨hv.2 m hm, hdepth m hm⟩
  have hboth := (List.forall₂_and_left ms es).2 ⟨heach, h⟩
  exact counted_flatMap hv.1 (hboth.imp fun m e h => h.2.read h.1.1 h.1.2) t

end RawMember

namespace ClassFile

variable {l : ClassFile} {p : Pool} {fs es : List MethodEntry} {xs : List Attribute}

theorem readStructure_write (hv : l.Valid) (hp : Pool.ofTable l.pool = .ok p)
    (hf : List.Forall₂ (RawMember.ReadsAs p) l.fields fs)
    (hm : List.Forall₂ (RawMember.ReadsAs p) l.methods es)
    (ha : List.Forall₂ (RawAttribute.ReadsAs p) l.attributes xs) :
    ClassStructure.read l.write = .ok ⟨p, l.thisClass, l.interfaces, es⟩ := by
  have hwrite : l.write = Bytes.ofUInt32 magic ++ (Bytes.ofUInt16 l.minor
      ++ Bytes.ofUInt16 l.major ++ (l.pool.write ++ (Bytes.ofUInt16 l.access
      ++ (Bytes.ofUInt16 l.thisClass ++ (Bytes.ofUInt16 l.superClass
      ++ (Bytes.ofNat16 l.interfaces.length ++ l.interfaces.flatMap Bytes.ofUInt16
      ++ (RawMember.writeAll l.fields ++ (RawMember.writeAll l.methods
      ++ (RawAttribute.writeAll l.attributes ++ []))))))))) := by
    simp [write]
  have hlength := congrArg List.length hwrite
  simp only [List.length_append, Bytes.length_ofUInt32] at hlength
  obtain ⟨depth, hdepth⟩ : ∃ k, l.write.length = k + 1 := ⟨l.write.length - 1, by omega⟩
  have hfields : ∀ f ∈ l.fields, ∀ a ∈ f.attributes, a.body.length ≤ depth := by
    intro f hf a ha
    have hlt := RawMember.length_body_lt_writeAll hf ha
    omega
  have hmethods : ∀ m ∈ l.methods, ∀ a ∈ m.attributes, a.body.length ≤ depth := by
    intro m hm a ha
    have hlt := RawMember.length_body_lt_writeAll hm ha
    omega
  have hattributes : ∀ a ∈ l.attributes, a.body.length ≤ depth := by
    intro a ha
    have hlt := RawAttribute.length_body_lt_writeAll ha
    omega
  rw [ClassStructure.read, all_iff, hdepth, hwrite]
  refine bind_ok.2 ⟨_, _, u4_ofUInt32 magic _, ?_⟩
  simp only [bne_self_eq_false, Bool.false_eq_true, if_false]
  refine bind_ok.2 ⟨(), _, skip_iff.2 ⟨_, rfl, rfl⟩, ?_⟩
  refine bind_ok.2 ⟨_, _, ConstantTable.read_iff.write hv.pool _, ?_⟩
  refine Result.bind_ok.2 ⟨p, hp, ?_⟩
  refine bind_ok.2 ⟨(), _, skip_iff.2 ⟨Bytes.ofUInt16 l.access, rfl, rfl⟩, ?_⟩
  refine bind_ok.2 ⟨_, _, u2_ofUInt16 _ _, ?_⟩
  refine bind_ok.2 ⟨(), _, skip_iff.2 ⟨Bytes.ofUInt16 l.superClass, rfl, rfl⟩, ?_⟩
  refine bind_ok.2 ⟨l.interfaces, _,
    (counted_iff u2_inverts).2 ⟨⟨hv.interfaces, fun _ _ => trivial⟩, rfl⟩, ?_⟩
  refine bind_ok.2 ⟨_, _, RawMember.readMembers_writeAll hv.fields hf hfields _, ?_⟩
  refine bind_ok.2 ⟨_, _, RawMember.readMembers_writeAll hv.methods hm hmethods _, ?_⟩
  exact bind_ok.2 ⟨_, _, RawAttribute.readList_writeAll hv.attributes ha hattributes _, rfl⟩

end ClassFile

namespace Assembly

variable {l : ClassFile} {map : OffsetMap} {a b : RawAttribute} {p p' : Pool}

theorem lineEntry_write (e : LineTable.Entry) (t : Bytes) :
    Attribute.lineEntry (e.write ++ t) = .ok (⟨e.start.toNat, e.line.toNat⟩, t) := by
  rw [LineTable.Entry.write, List.append_assoc]
  exact bind_ok.2 ⟨_, _, u2_ofUInt16 _ _, bind_ok.2 ⟨_, _, u2_ofUInt16 _ _, rfl⟩⟩

theorem rows_writeAll (es : List VariableTable.Entry) (h : es.length < 65536) :
    Attribute.rows 5 (VariableTable.writeAll es) = .ok ((), []) := by
  have hread : counted (Attribute.words 5) (VariableTable.writeAll es)
      = .ok (es.map fun _ => (), []) :=
    counted_map h fun e _ t => skip_iff.2 ⟨e.write, rfl, rfl⟩
  exact bind_ok.2 ⟨_, _, hread, rfl⟩

theorem Moves.isExact (h : Moves l map a b) (hp : p.Serves l) (hw : p.Within p')
    (ha : a.IsExact p) : b.IsExact p' := by
  have hutf8 : ∀ {name}, ClassFile.IsPlain name → l.utf8? a.name = some name →
      p'.utf8 a.name = .ok name := fun hplain hname =>
    hw.utf8 ((hp.named hplain a).1 (beq_iff_eq.2 hname))
  cases h with
  | kept =>
      obtain ⟨x, hx⟩ := ha
      exact ⟨x, hx.mono hw⟩
  | lines es hname hes =>
      have hread : counted Attribute.lineEntry (LineTable.writeAll es) = .ok (es.map _, []) :=
        counted_map (f := fun e => ⟨e.start.toNat, e.line.toNat⟩) hes fun e _ => lineEntry_write e
      exact ⟨_, _, hutf8 (by decide) hname, bind_ok.2 ⟨_, _, hread, rfl⟩⟩
  | «variables» es hname hes =>
      have hread := rows_writeAll es hes
      rcases hname with hname | hname
      · exact ⟨_, _, hutf8 (by decide) hname, bind_ok.2 ⟨_, _, hread, rfl⟩⟩
      · exact ⟨_, _, hutf8 (by decide) hname, bind_ok.2 ⟨_, _, hread, rfl⟩⟩
  | frames gs hname hgs =>
      have hread := DeltaFrame.counted_read_iff.write hgs []
      rw [List.append_nil] at hread
      have hframes : Attribute.frames (DeltaFrame.writeAll gs) = .ok ((), []) :=
        bind_ok.2 ⟨_, _, hread, rfl⟩
      exact ⟨_, _, hutf8 (by decide) hname, bind_ok.2 ⟨_, _, hframes, rfl⟩⟩

end Assembly

end BytecodeMutation
