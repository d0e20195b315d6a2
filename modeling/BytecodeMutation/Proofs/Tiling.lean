import BytecodeMutation.ClassFile.Span
import BytecodeMutation.Proofs.Splice

namespace BytecodeMutation

namespace Bytes

def slice? (data : Bytes) (first stop : Nat) : Option Bytes :=
  if first ≤ stop ∧ stop ≤ data.length then some ((data.drop first).take (stop - first)) else none

def LiesAt (data : Bytes) (n : Nat) (s : Bytes) : Prop :=
  ∃ pre post, pre.length = n ∧ data = pre ++ s ++ post

namespace LiesAt

variable {data s t : Bytes} {n : Nat}

theorem left (h : LiesAt data n (s ++ t)) : LiesAt data n s := by
  obtain ⟨pre, post, hn, rfl⟩ := h
  exact ⟨pre, t ++ post, hn, by simp only [List.append_assoc]⟩

theorem right (h : LiesAt data n (s ++ t)) : LiesAt data (n + s.length) t := by
  obtain ⟨pre, post, rfl, rfl⟩ := h
  exact ⟨pre ++ s, post, List.length_append, by simp only [List.append_assoc]⟩

theorem slice? (h : LiesAt data n s) : Bytes.slice? data n (n + s.length) = some s := by
  obtain ⟨pre, post, rfl, rfl⟩ := h
  have hrange : pre.length ≤ pre.length + s.length ∧
      pre.length + s.length ≤ (pre ++ s ++ post).length := by
    simp only [List.length_append]
    omega
  rw [Bytes.slice?, if_pos hrange, List.append_assoc, List.drop_left, Nat.add_sub_cancel_left,
    List.take_left]

theorem of_eq (h : data = s) : LiesAt data 0 s :=
  ⟨[], [], rfl, by rw [h, List.nil_append, List.append_nil]⟩

end LiesAt

end Bytes

open Bytes

namespace Span

inductive Tiles : Nat → List Span → Nat → Prop where
  | nil (n : Nat) : Tiles n [] n
  | cons {s : Span} {spans : List Span} {last : Nat} (order : s.start ≤ s.stop)
      (rest : Tiles s.stop spans last) : Tiles s.start (s :: spans) last

structure Holds (data : Bytes) (s : Span) (a : RawAttribute) : Prop where
  name : s.name = a.name
  bodyStart : s.bodyStart = s.start + 6
  nameWord : slice? data s.start (s.start + 2) = some (ofUInt16 s.name)
  declared : ∃ length : UInt32, slice? data (s.start + 2) (s.start + 6) = some (ofUInt32 length) ∧
    s.stop = s.bodyStart + length.toNat
  body : slice? data s.bodyStart s.stop = some a.body

structure ListAt (data : Bytes) (first : Nat) (as : List RawAttribute) (spans : List Span)
    (last : Nat) : Prop where
  count : ∃ n : UInt16, slice? data first (first + 2) = some (ofUInt16 n) ∧
    spans.length = n.toNat
  tiles : Tiles (first + 2) spans last
  holds : List.Forall₂ (Holds data) spans as

inductive MembersAt (data : Bytes) : Nat → List RawMember → List (List Span) → Nat → Prop where
  | nil (n : Nat) : MembersAt data n [] [] n
  | cons {first mid last : Nat} {m : RawMember} {ms : List RawMember} {spans : List Span}
      {lists : List (List Span)}
      (header : slice? data first (first + 6)
        = some (ofUInt16 m.access ++ ofUInt16 m.name ++ ofUInt16 m.descriptor))
      (list : ListAt data (first + 6) m.attributes spans mid)
      (rest : MembersAt data mid ms lists last) :
      MembersAt data first (m :: ms) (spans :: lists) last

structure MemberListAt (data : Bytes) (first : Nat) (ms : List RawMember)
    (lists : List (List Span)) (last : Nat) : Prop where
  count : ∃ n : UInt16, slice? data first (first + 2) = some (ofUInt16 n) ∧ ms.length = n.toNat
  members : MembersAt data (first + 2) ms lists last

variable {data : Bytes} {n : Nat} {as bs : List RawAttribute} {ms : List RawMember}

theorem length_attribute (a : RawAttribute) : a.write.length = 6 + a.body.length := by
  simp only [RawAttribute.write, ofNat32, List.length_append, length_ofUInt16, length_ofUInt32]

theorem foldl_size {α : Type} {w : α → Bytes} {size : α → Nat}
    (h : ∀ a, (w a).length = 6 + size a) (xs : List α) (k : Nat) :
    xs.foldl (fun n a => n + 6 + size a) k = k + (xs.flatMap w).length := by
  induction xs generalizing k with
  | nil => rfl
  | cons a xs ih =>
      rw [List.foldl_cons, ih, List.flatMap_cons, List.length_append, h]
      omega

theorem sizeOfAttributes_eq (as : List RawAttribute) :
    sizeOfAttributes as = (RawAttribute.writeAll as).length := by
  rw [sizeOfAttributes, foldl_size length_attribute, RawAttribute.writeAll, List.length_append]
  rfl

theorem length_member (m : RawMember) : m.write.length = 6 + sizeOfAttributes m.attributes := by
  simp only [RawMember.write, sizeOfAttributes_eq, List.length_append, length_ofUInt16]

theorem sizeOfMembers_eq (ms : List RawMember) :
    sizeOfMembers ms = (RawMember.writeAll ms).length := by
  rw [sizeOfMembers, foldl_size length_member, RawMember.writeAll, List.length_append]
  rfl

theorem names_ofAttributes (n : Nat) (as : List RawAttribute) :
    (ofAttributes n as).map (·.name) = as.map (·.name) := by
  induction as generalizing n with
  | nil => rfl
  | cons a as ih => rw [ofAttributes, List.map_cons, ih, List.map_cons]

theorem length_ofAttributes (n : Nat) (as : List RawAttribute) :
    (ofAttributes n as).length = as.length := by
  have hnames := congrArg List.length (names_ofAttributes n as)
  simpa only [List.length_map] using hnames

theorem tiles_ofAttributes (n : Nat) (as : List RawAttribute) :
    Tiles n (ofAttributes n as) (n + (as.flatMap RawAttribute.write).length) := by
  induction as generalizing n with
  | nil => exact .nil n
  | cons a as ih =>
      rw [List.flatMap_cons, List.length_append, length_attribute, ← Nat.add_assoc,
        ← Nat.add_assoc]
      have horder : n ≤ n + 6 + a.body.length := by omega
      exact .cons (s := ⟨a.name, n, n + 6, n + 6 + a.body.length⟩) horder (ih _)

theorem holds_of_liesAt {a : RawAttribute} (hv : a.Valid) (h : LiesAt data n a.write) :
    Holds data ⟨a.name, n, n + 6, n + 6 + a.body.length⟩ a where
  name := rfl
  bodyStart := rfl
  nameWord := h.left.left.slice?
  declared := ⟨_, h.left.right.slice?, by rw [UInt32.toNat_ofNat_of_lt' hv]⟩
  body := h.right.slice?

theorem forall₂_holds (hv : ∀ a ∈ as, a.Valid)
    (h : LiesAt data n (as.flatMap RawAttribute.write)) :
    List.Forall₂ (Holds data) (ofAttributes n as) as := by
  induction as generalizing n with
  | nil => exact .nil
  | cons a as ih =>
      obtain ⟨ha, has⟩ := List.forall_mem_cons.1 hv
      rw [List.flatMap_cons] at h
      have hrest := h.right
      rw [length_attribute, ← Nat.add_assoc] at hrest
      exact .cons (holds_of_liesAt ha h.left) (ih has hrest)

theorem listAt_of_liesAt (hv : RawAttribute.AllValid as)
    (h : LiesAt data n (RawAttribute.writeAll as)) :
    ListAt data n as (ofAttributes (n + 2) as) (n + sizeOfAttributes as) where
  count := ⟨.ofNat as.length, h.left.slice?, by
    rw [length_ofAttributes, UInt16.toNat_ofNat_of_lt' hv.1]⟩
  tiles := by
    rw [sizeOfAttributes_eq, RawAttribute.writeAll, List.length_append, ← Nat.add_assoc]
    exact tiles_ofAttributes (n + 2) as
  holds := forall₂_holds hv.2 h.right

theorem membersAt_of_liesAt (hv : ∀ m ∈ ms, m.Valid)
    (h : LiesAt data n (ms.flatMap RawMember.write)) :
    MembersAt data n ms (ofMembers n ms) (n + (ms.flatMap RawMember.write).length) := by
  induction ms generalizing n with
  | nil => exact .nil n
  | cons m ms ih =>
      obtain ⟨hm, hms⟩ := List.forall_mem_cons.1 hv
      rw [List.flatMap_cons] at h ⊢
      have hrest := h.right
      rw [length_member, ← Nat.add_assoc] at hrest
      rw [List.length_append, length_member, ← Nat.add_assoc, ← Nat.add_assoc]
      exact .cons h.left.left.slice? (listAt_of_liesAt hm h.left.right) (ih hms hrest)

theorem memberListAt_of_liesAt (hv : RawMember.AllValid ms)
    (h : LiesAt data n (RawMember.writeAll ms)) :
    MemberListAt data n ms (ofMembers (n + 2) ms) (n + sizeOfMembers ms) where
  count := ⟨.ofNat ms.length, h.left.slice?, (UInt16.toNat_ofNat_of_lt' hv.1).symm⟩
  members := by
    rw [sizeOfMembers_eq, RawMember.writeAll, List.length_append, ← Nat.add_assoc]
    exact membersAt_of_liesAt hv.2 h.right

variable {first last : Nat} {spans : List Span} {lists : List (List Span)}

theorem Tiles.le (h : Tiles first spans last) : first ≤ last := by
  induction h with
  | nil n => exact Nat.le_refl n
  | cons order rest ih => exact Nat.le_trans order ih

theorem Tiles.le_start (h : Tiles first spans last) : ∀ s ∈ spans, first ≤ s.start := by
  induction h with
  | nil n => simp
  | cons order rest ih =>
      exact List.forall_mem_cons.2
        ⟨Nat.le_refl _, fun s hs => Nat.le_trans order (ih s hs)⟩

theorem ListAt.le (h : ListAt data first as spans last) : first ≤ last :=
  Nat.le_trans (Nat.le_add_right first 2) h.tiles.le

theorem ListAt.le_start (h : ListAt data first as spans last) : ∀ s ∈ spans, first ≤ s.start :=
  fun s hs => Nat.le_trans (Nat.le_add_right first 2) (h.tiles.le_start s hs)

theorem MembersAt.le (h : MembersAt data first ms lists last) : first ≤ last := by
  induction h with
  | nil n => exact Nat.le_refl n
  | cons header list rest ih =>
      exact Nat.le_trans (Nat.le_trans (Nat.le_add_right _ 6) list.le) ih

theorem MembersAt.le_start (h : MembersAt data first ms lists last) :
    ∀ spans ∈ lists, ∀ s ∈ spans, first ≤ s.start := by
  induction h with
  | nil n => simp
  | @cons first mid last m ms spans lists header list rest ih =>
      have hmid : first ≤ mid := Nat.le_trans (Nat.le_add_right first 6) list.le
      refine List.forall_mem_cons.2 ⟨fun s hs => ?_, fun spans hspans s hs => ?_⟩
      · exact Nat.le_trans (Nat.le_add_right first 6) (list.le_start s hs)
      · exact Nat.le_trans hmid (ih spans hspans s hs)

theorem MemberListAt.le (h : MemberListAt data first ms lists last) : first ≤ last :=
  Nat.le_trans (Nat.le_add_right first 2) h.members.le

theorem MemberListAt.le_start (h : MemberListAt data first ms lists last) :
    ∀ spans ∈ lists, ∀ s ∈ spans, first ≤ s.start :=
  fun spans hspans s hs =>
    Nat.le_trans (Nat.le_add_right first 2) (h.members.le_start spans hspans s hs)

end Span

namespace ClassFile

def fieldSpans (l : ClassFile) : List (List Span) := Span.ofMembers (l.fieldsStart + 2) l.fields

/-- The spans of a class file cover its bytes: head, pool, header and interfaces, then the lists of
fields, methods and attributes, up to the last byte. -/
structure IsTiled (data : Bytes) (l : ClassFile) : Prop where
  head : slice? data 0 poolStart
    = some (ofUInt32 magic ++ ofUInt16 l.minor ++ ofUInt16 l.major)
  count : slice? data poolStart (poolStart + 2) = some (ofUInt16 l.pool.count)
  pool : slice? data (poolStart + 2) l.poolEnd = some l.pool.body
  header : ∃ interfaces : UInt16, slice? data l.poolEnd (l.poolEnd + 8)
    = some (ofUInt16 l.access ++ ofUInt16 l.thisClass ++ ofUInt16 l.superClass
      ++ ofUInt16 interfaces) ∧ l.interfaces.length = interfaces.toNat
  interfaces : slice? data (l.poolEnd + 8) l.fieldsStart
    = some (l.interfaces.flatMap ofUInt16)
  fields : Span.MemberListAt data l.fieldsStart l.fields l.fieldSpans l.methodsStart
  methods : Span.MemberListAt data l.methodsStart l.methods l.methodSpans l.attributesStart
  attributes : Span.ListAt data l.attributesStart l.attributes l.attributeSpans data.length

theorem IsTiled.poolEnd_le {data : Bytes} {l : ClassFile} (h : IsTiled data l) :
    ∀ spans ∈ l.fieldSpans ++ l.methodSpans ++ [l.attributeSpans], ∀ s ∈ spans,
      l.poolEnd ≤ s.start := by
  have hfields : l.poolEnd ≤ l.fieldsStart := by
    rw [fieldsStart, Nat.add_assoc]
    exact Nat.le_add_right ..
  have hmethods := Nat.le_trans hfields h.fields.le
  have hattributes := Nat.le_trans hmethods h.methods.le
  intro spans hspans s hs
  rcases List.mem_append.1 hspans with hspans | hspans
  · rcases List.mem_append.1 hspans with hspans | hspans
    · exact Nat.le_trans hfields (h.fields.le_start spans hspans s hs)
    · exact Nat.le_trans hmethods (h.methods.le_start spans hspans s hs)
  · obtain rfl := List.mem_singleton.1 hspans
    exact Nat.le_trans hattributes (h.attributes.le_start s hs)

theorem length_write (l : ClassFile) :
    l.write.length = l.attributesStart + Span.sizeOfAttributes l.attributes := by
  simp only [write, ConstantTable.write, ofNat16, attributesStart, methodsStart, fieldsStart,
    poolEnd, Span.sizeOfAttributes_eq, Span.sizeOfMembers_eq, List.length_append,
    length_ofUInt16, length_ofUInt32, length_flatMap_const length_ofUInt16]
  omega

theorem isTiled_write {l : ClassFile} (hv : l.Valid) : IsTiled l.write l := by
  have hall : LiesAt l.write 0 (ofUInt32 magic ++ ofUInt16 l.minor ++ ofUInt16 l.major
      ++ (ofUInt16 l.pool.count ++ (l.pool.body
      ++ (ofUInt16 l.access ++ ofUInt16 l.thisClass ++ ofUInt16 l.superClass
        ++ ofNat16 l.interfaces.length
      ++ (l.interfaces.flatMap ofUInt16 ++ (RawMember.writeAll l.fields
      ++ (RawMember.writeAll l.methods ++ RawAttribute.writeAll l.attributes))))))) := by
    apply LiesAt.of_eq
    simp only [write, ConstantTable.write, List.append_assoc]
  -- Each part lies where the one before it ends.
  have hcount : LiesAt l.write poolStart _ := hall.right
  have hpool : LiesAt l.write (poolStart + 2) _ := hcount.right
  have hheader : LiesAt l.write l.poolEnd _ := hpool.right
  have hinterfaces : LiesAt l.write (l.poolEnd + 8) _ := hheader.right
  have hfields := hinterfaces.right
  have hsize : (l.poolEnd + 8) + (l.interfaces.flatMap ofUInt16).length = l.fieldsStart := by
    rw [length_flatMap_const length_ofUInt16, fieldsStart, Nat.mul_comm]
  rw [hsize] at hfields
  have hmethods := hfields.right
  rw [← Span.sizeOfMembers_eq] at hmethods
  have hattributes := hmethods.right
  rw [← Span.sizeOfMembers_eq] at hattributes
  have fields : Span.MemberListAt l.write l.fieldsStart l.fields l.fieldSpans l.methodsStart :=
    Span.memberListAt_of_liesAt hv.fields hfields.left
  have methods :
      Span.MemberListAt l.write l.methodsStart l.methods l.methodSpans l.attributesStart :=
    Span.memberListAt_of_liesAt hv.methods hmethods.left
  have attributes : Span.ListAt l.write l.attributesStart l.attributes l.attributeSpans
      l.write.length := by
    rw [length_write]
    exact Span.listAt_of_liesAt hv.attributes hattributes
  refine ⟨hall.left.slice?, hcount.left.slice?, hpool.left.slice?,
    ⟨_, hheader.left.slice?, (UInt16.toNat_ofNat_of_lt' hv.interfaces).symm⟩, ?_, fields,
    methods, attributes⟩
  rw [← hsize]
  exact hinterfaces.left.slice?

end ClassFile

namespace CodeBody

def attributesStart (c : CodeBody) : Nat := c.codeEnd + 2 + 8 * c.handlers.length

structure IsTiled (body : Bytes) (c : CodeBody) : Prop where
  limits : slice? body 0 4 = some (ofUInt16 c.maxStack ++ ofUInt16 c.maxLocals)
  length : ∃ length : UInt32, slice? body 4 codeStart = some (ofUInt32 length) ∧
    c.codeEnd = codeStart + length.toNat
  code : slice? body codeStart c.codeEnd = some c.code
  count : ∃ n : UInt16, slice? body c.codeEnd (c.codeEnd + 2) = some (ofUInt16 n) ∧
    c.handlers.length = n.toNat
  handlers : slice? body (c.codeEnd + 2) c.attributesStart
    = some (c.handlers.flatMap RawHandler.write)
  attributes : Span.ListAt body c.attributesStart c.attributes c.attributeSpans body.length

theorem isTiled_write {c : CodeBody} (hv : c.Valid) : IsTiled c.write c := by
  have hall : LiesAt c.write 0 (ofUInt16 c.maxStack ++ ofUInt16 c.maxLocals
      ++ (ofNat32 c.code.length ++ (c.code ++ (ofNat16 c.handlers.length
      ++ (c.handlers.flatMap RawHandler.write ++ RawAttribute.writeAll c.attributes))))) := by
    apply LiesAt.of_eq
    simp only [write, List.append_assoc]
  have hlength : LiesAt c.write 4 _ := hall.right
  have hcode : LiesAt c.write codeStart _ := hlength.right
  have hcount : LiesAt c.write c.codeEnd _ := hcode.right
  have hhandlers : LiesAt c.write (c.codeEnd + 2) _ := hcount.right
  have hattributes := hhandlers.right
  have hsize : (c.codeEnd + 2) + (c.handlers.flatMap RawHandler.write).length
      = c.attributesStart := by
    rw [length_flatMap_const Assembly.RawHandler.length_write, attributesStart, Nat.mul_comm]
  rw [hsize] at hattributes
  have hlast : c.write.length = c.attributesStart + Span.sizeOfAttributes c.attributes := by
    simp only [write, ofNat16, ofNat32, ← hsize, codeEnd, Span.sizeOfAttributes_eq,
      List.length_append, length_ofUInt16, length_ofUInt32]
  refine ⟨hall.left.slice?, ⟨_, hlength.left.slice?, ?_⟩, hcode.left.slice?,
    ⟨_, hcount.left.slice?, (UInt16.toNat_ofNat_of_lt' hv.handlers).symm⟩, ?_, ?_⟩
  · rw [UInt32.toNat_ofNat_of_lt' hv.code, codeEnd, codeStart]
  · rw [← hsize]
    exact hhandlers.left.slice?
  · rw [hlast]
    exact Span.listAt_of_liesAt hv.attributes hattributes

end CodeBody

namespace ClassFile

def codeSpan? (l : ClassFile) (method : Nat) : Option Span :=
  (l.methodSpans[method]?).bind fun spans => spans.find? fun s => l.utf8? s.name == some "Code"

end ClassFile

namespace Span

theorem ofAttributes_append (n : Nat) (as bs : List RawAttribute) :
    ofAttributes n (as ++ bs)
      = ofAttributes n as ++ ofAttributes (n + (as.flatMap RawAttribute.write).length) bs := by
  induction as generalizing n with
  | nil => rfl
  | cons a as ih =>
      rw [List.cons_append, ofAttributes, ih, ofAttributes, List.cons_append, List.flatMap_cons,
        List.length_append, length_attribute, ← Nat.add_assoc, ← Nat.add_assoc]

theorem ofMembers_append (n : Nat) (before after : List RawMember) :
    ofMembers n (before ++ after)
      = ofMembers n before ++ ofMembers (n + (before.flatMap RawMember.write).length) after := by
  induction before generalizing n with
  | nil => rfl
  | cons m before ih =>
      rw [List.cons_append, ofMembers, ih, ofMembers, List.cons_append, List.flatMap_cons,
        List.length_append, length_member, ← Nat.add_assoc, ← Nat.add_assoc]

theorem length_ofMembers (n : Nat) (ms : List RawMember) :
    (ofMembers n ms).length = ms.length := by
  induction ms generalizing n with
  | nil => rfl
  | cons m ms ih => rw [ofMembers, List.length_cons, ih, List.length_cons]

theorem exists_ofAttributes (n : Nat) (ms : List RawMember) (i : Nat) :
    ∃ k, (ofMembers n ms)[i]? = (ms[i]?).map fun m => ofAttributes k m.attributes := by
  induction ms generalizing n i with
  | nil => exact ⟨0, rfl⟩
  | cons m ms ih =>
      cases i with
      | zero => exact ⟨n + 8, rfl⟩
      | succ i => exact ih _ i

theorem find?_ofAttributes {l : ClassFile} {as : List RawAttribute}
    (h : ∀ b ∈ as, l.named "Code" b = false) (n : Nat) :
    (ofAttributes n as).find? (fun s => l.utf8? s.name == some "Code") = none := by
  refine List.find?_eq_none.2 fun s hs hnamed => ?_
  have hname := List.mem_map_of_mem (f := Span.name) hs
  rw [names_ofAttributes] at hname
  obtain ⟨b, hb, heq⟩ := List.mem_map.1 hname
  have hfalse := h b hb
  rw [ClassFile.named, heq, hnamed] at hfalse
  cases hfalse

end Span

theorem ClassFile.codeSpan?_of_codeOf? {l : ClassFile} {i : Nat} (h : l.codeOf? i = none) :
    l.codeSpan? i = none := by
  obtain ⟨k, hk⟩ := Span.exists_ofAttributes (l.methodsStart + 2) l.methods i
  rw [codeSpan?, methodSpans, hk]
  cases hm : l.methods[i]? with
  | none => rfl
  | some m =>
      rw [codeOf?, hm] at h
      exact Span.find?_ofAttributes (fun b hb => by simpa using List.find?_eq_none.1 h b hb) k

namespace Assembly

variable {l : ClassFile} {i : Nat} {a : RawAttribute} {before after : List RawMember}
  {r : RawMember} {as bs : List RawAttribute}

def codeStart (l : ClassFile) (before : List RawMember) (as : List RawAttribute) : Nat :=
  l.methodsStart + 2 + (before.flatMap RawMember.write).length + 8
    + (as.flatMap RawAttribute.write).length

theorem CodeAt.codeSpan? (h : CodeAt l i a before after r as bs) :
    l.codeSpan? i = some ⟨a.name, codeStart l before as, codeStart l before as + 6,
      codeStart l before as + 6 + a.body.length⟩ := by
  have hmethod : l.methodSpans[i]? = some (Span.ofAttributes
      (l.methodsStart + 2 + (before.flatMap RawMember.write).length + 8) r.attributes) := by
    rw [ClassFile.methodSpans, h.methods, Span.ofMembers_append, ← h.index,
      List.getElem?_append_right (Nat.le_of_eq (Span.length_ofMembers ..)),
      Span.length_ofMembers, Nat.sub_self]
    rfl
  rw [ClassFile.codeSpan?, hmethod, Option.bind_some, h.attributes, Span.ofAttributes_append,
    List.find?_append, Span.find?_ofAttributes h.first, Option.none_or]
  exact List.find?_cons_of_pos (p := fun s : Span => l.utf8? s.name == some "Code") h.named

theorem length_midBytes (l : ClassFile) (a : RawAttribute) (before after : List RawMember)
    (r : RawMember) (as bs : List RawAttribute) :
    l.poolEnd + (midBytes l a before after r as bs).length = codeStart l before as + 2 := by
  simp only [midBytes, codeStart, ofNat16, ClassFile.methodsStart, ClassFile.fieldsStart,
    Span.sizeOfMembers_eq, List.length_append, length_ofUInt16,
    length_flatMap_const length_ofUInt16]
  omega

/-- The slices of a class file that are kept when a Code attribute gets another body. -/
structure Keeps (data : Bytes) (l : ClassFile) (s : Span) (head pool mid last : Bytes) : Prop where
  head : slice? data 0 ClassFile.poolStart = some head
  pool : slice? data (ClassFile.poolStart + 2) l.poolEnd = some pool
  mid : slice? data l.poolEnd (s.start + 2) = some mid
  last : slice? data s.stop data.length = some last

variable (hl : l.Valid) (h : CodeAt l i a before after r as bs)

include hl h

theorem CodeAt.valid : a.Valid := by
  have hr : r ∈ l.methods := by
    rw [h.methods]
    exact List.mem_append_right _ List.mem_cons_self
  refine (hl.methods.2 r hr).2 a ?_
  rw [h.attributes]
  exact List.mem_append_right _ List.mem_cons_self

theorem CodeAt.keeps : ∃ s, l.codeSpan? i = some s ∧ s.Holds l.write a ∧
    Keeps l.write l s (headBytes l) l.pool.body (midBytes l a before after r as bs)
      (endBytes l after bs) := by
  obtain ⟨mid, hmidBytes⟩ : ∃ mid, midBytes l a before after r as bs = mid ++ ofUInt16 a.name :=
    ⟨_, rfl⟩
  have hmidLength := length_midBytes l a before after r as bs
  have hwrite : l.write = headBytes l ++ (ofUInt16 l.pool.count ++ (l.pool.body
      ++ (mid ++ (a.write ++ endBytes l after bs)))) := by
    have hself := h.write a.body l.pool
    rw [h.setCode_self, hmidBytes] at hself
    simpa only [RawAttribute.write, List.append_assoc] using hself
  have hall := LiesAt.of_eq hwrite
  have hcount : LiesAt l.write ClassFile.poolStart _ := hall.right
  have hpool : LiesAt l.write (ClassFile.poolStart + 2) _ := hcount.right
  have hmid : LiesAt l.write l.poolEnd _ := hpool.right
  have hcode := hmid.right
  have hstart : l.poolEnd + mid.length = codeStart l before as := by
    rw [hmidBytes, List.length_append, length_ofUInt16] at hmidLength
    omega
  rw [hstart] at hcode
  -- The name of the attribute is kept with what stands before it, its length is not.
  have hname : LiesAt l.write l.poolEnd (mid ++ ofUInt16 a.name
      ++ (ofNat32 a.body.length ++ a.body ++ endBytes l after bs)) := by
    simpa only [RawAttribute.write, List.append_assoc] using hmid
  have hlast := hcode.right
  have hend : l.write.length
      = codeStart l before as + a.write.length + (endBytes l after bs).length := by
    rw [← hstart, hwrite]
    simp only [List.length_append, headBytes, length_ofUInt16, length_ofUInt32,
      ClassFile.poolEnd]
    omega
  refine ⟨_, h.codeSpan?, Span.holds_of_liesAt (h.valid hl) hcode.left,
    hall.left.slice?, hpool.left.slice?, ?_, ?_⟩
  · rw [← hmidLength, hmidBytes]
    exact hname.left.slice?
  · rw [hend, Nat.add_assoc _ 6, ← Span.length_attribute]
    exact hlast.slice?

end Assembly

namespace ClassFile

/-- The spans that a class file is read with tile it, and so do those of the body of a Code
attribute. The pool stands before all attributes, and what is kept of a class file when a method
gets other code are slices in range, up to the length of that method's Code attribute and from its
end on. -/
theorem spans_tile :
    (∀ data l, read data = .ok l → IsTiled data l ∧
      (∀ spans ∈ l.fieldSpans ++ l.methodSpans ++ [l.attributeSpans], ∀ s ∈ spans,
        l.poolEnd ≤ s.start) ∧
      ∀ i, l.codeOf? i = none ∧ l.codeSpan? i = none ∨
        ∃ a s head pool mid last, l.codeOf? i = some a ∧ l.codeSpan? i = some s ∧
          s.Holds data a ∧ Assembly.Keeps data l s head pool mid last ∧
          ∀ m stream out, m.index = i → Assembly.assemble data m stream = .ok out →
            ∃ (next : UInt16) (tail body : Bytes),
              out = head ++ ofUInt16 next ++ (pool ++ tail) ++ mid ++ ofNat32 body.length ++ body
                ++ last) ∧
    ∀ body c, CodeBody.read body = .ok c → c.IsTiled body := by
  constructor
  · intro data l hread
    obtain ⟨hv, rfl⟩ := read_iff.1 hread
    refine ⟨isTiled_write hv, (isTiled_write hv).poolEnd_le, fun i => ?_⟩
    cases ha : l.codeOf? i with
    | none => exact .inl ⟨rfl, codeSpan?_of_codeOf? ha⟩
    | some a =>
        obtain ⟨before, after, r, as, bs, hat⟩ := Assembly.codeAt_of_codeOf? ha
        obtain ⟨s, hs, hholds, hkeeps⟩ := hat.keeps hv
        refine .inr ⟨a, s, _, _, _, _, rfl, hs, hholds, hkeeps, ?_⟩
        rintro m stream out rfl hout
        obtain ⟨l', a', c, c', tail, pieces, p, hl', ha', -, -, -, rfl⟩ :=
          Assembly.assemble_ok hout
        obtain rfl : l = l' := Except.ok.inj (hread.symm.trans hl')
        exact ⟨_, _, _, by rw [hat.write, Assembly.extend_body]⟩
  · intro body c hread
    obtain ⟨hv, rfl⟩ := CodeBody.read_iff.1 hread
    exact CodeBody.isTiled_write hv

end ClassFile

theorem ClassFile.spans_tile_pushing : ∃ l s a c out head pool mid last tail body,
    ∃ next : UInt16, read Specimen.classFile = .ok l ∧ l.IsTiled Specimen.classFile ∧
      l.codeSpan? 0 = some s ∧ s.Holds Specimen.classFile a ∧
      Assembly.Keeps Specimen.classFile l s head pool mid last ∧
      Assembly.assemble Specimen.classFile Specimen.method Specimen.pushing = .ok out ∧
      out = head ++ ofUInt16 next ++ (pool ++ tail) ++ mid ++ ofNat32 body.length ++ body
        ++ last ∧
      CodeBody.read a.body = .ok c ∧ c.IsTiled a.body := by
  obtain ⟨out, hreplace⟩ := Specimen.replaceCode_pushing
  have hout := Assembly.replaceCode_ok hreplace
  obtain ⟨l, a, c, -, -, -, -, hl, ha, hc, -, -, -⟩ := Assembly.assemble_ok hout
  obtain ⟨htiled, -, hcode⟩ := spans_tile.1 Specimen.classFile l hl
  obtain ⟨hnone, -⟩ | ⟨a', s, head, pool, mid, last, ha', hs, hholds, hkeeps, hassemble⟩ :=
    hcode 0
  · cases ha.symm.trans hnone
  · obtain rfl := Option.some.inj (ha.symm.trans ha')
    obtain ⟨next, tail, body, heq⟩ := hassemble Specimen.method Specimen.pushing out rfl hout
    exact ⟨l, s, a, c, out, head, pool, mid, last, tail, body, next, hl, htiled, hs, hholds,
      hkeeps, hout, heq, hc, spans_tile.2 a.body c hc⟩

end BytecodeMutation
