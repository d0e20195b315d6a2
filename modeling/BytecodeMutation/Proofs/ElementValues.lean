import BytecodeMutation.Proofs.Descriptors
import BytecodeMutation.Proofs.Structures

namespace BytecodeMutation

inductive ElementValue where
  | primitive (type : Primitive) (index : UInt16)
  | string (index : UInt16)
  | classType (index : UInt16)
  | enum (type name : UInt16)
  | nested (type : UInt16) (pairs : List (UInt16 × ElementValue))
  | array (values : List ElementValue)

namespace ElementValue

mutual

def write : ElementValue → Bytes
  | primitive type index => .ofNat type.letter.toNat :: Bytes.ofUInt16 index
  | string index => .ofNat 's'.toNat :: Bytes.ofUInt16 index
  | classType index => .ofNat 'c'.toNat :: Bytes.ofUInt16 index
  | enum type name => .ofNat 'e'.toNat :: (Bytes.ofUInt16 type ++ Bytes.ofUInt16 name)
  | nested type pairs =>
      .ofNat '@'.toNat :: (Bytes.ofUInt16 type ++ (Bytes.ofNat16 pairs.length ++ writePairs pairs))
  | array values => .ofNat '['.toNat :: (Bytes.ofNat16 values.length ++ writeAll values)

def writeAll : List ElementValue → Bytes
  | [] => []
  | value :: values => value.write ++ writeAll values

def writePairs : List (UInt16 × ElementValue) → Bytes
  | [] => []
  | (name, value) :: pairs => Bytes.ofUInt16 name ++ value.write ++ writePairs pairs

end

/-- No list in the value is longer than its count can say. -/
inductive IsCounted : ElementValue → Prop where
  | primitive (type : Primitive) (index : UInt16) : IsCounted (.primitive type index)
  | string (index : UInt16) : IsCounted (.string index)
  | classType (index : UInt16) : IsCounted (.classType index)
  | enum (type name : UInt16) : IsCounted (.enum type name)
  | nested (type : UInt16) {pairs : List (UInt16 × ElementValue)}
      (hlength : pairs.length < 65536) (h : ∀ p ∈ pairs, IsCounted p.2) :
      IsCounted (.nested type pairs)
  | array {values : List ElementValue} (hlength : values.length < 65536)
      (h : ∀ value ∈ values, IsCounted value) : IsCounted (.array values)

variable {value : ElementValue} {values : List ElementValue}
  {pairs : List (UInt16 × ElementValue)}

theorem writeAll_eq (values : List ElementValue) : writeAll values = values.flatMap write := by
  induction values with
  | nil => rfl
  | cons value values ih => rw [writeAll, ih, List.flatMap_cons]

theorem writePairs_eq (pairs : List (UInt16 × ElementValue)) :
    writePairs pairs = pairs.flatMap fun p => Bytes.ofUInt16 p.1 ++ p.2.write := by
  induction pairs with
  | nil => rfl
  | cons p pairs ih => rw [writePairs, ih, List.flatMap_cons]

theorem length_write_pos (value : ElementValue) : 0 < value.write.length := by
  cases value <;> exact Nat.succ_pos _

theorem length_write_le (h : value ∈ values) : value.write.length ≤ (writeAll values).length := by
  rw [writeAll_eq]
  exact Reader.length_le_flatMap h

theorem length_write_le_pairs {p : UInt16 × ElementValue} (h : p ∈ pairs) :
    p.2.write.length ≤ (writePairs pairs).length := by
  rw [writePairs_eq]
  have hle := Reader.length_le_flatMap (w := fun p : UInt16 × ElementValue =>
    Bytes.ofUInt16 p.1 ++ p.2.write) h
  rw [List.length_append] at hle
  exact Nat.le_trans (Nat.le_add_left _ _) hle

end ElementValue

namespace Annotations

open Reader ElementValue

variable {skipValue : Reader Unit} {value : ElementValue} {values : List ElementValue}
  {pairs : List (UInt16 × ElementValue)} {depth : Nat}

theorem skip_append (a t : Bytes) : skip a.length (a ++ t) = .ok ((), t) :=
  skip_iff.2 ⟨a, rfl, rfl⟩

theorem counted_writeAll (hlength : values.length < 65536)
    (h : ∀ value ∈ values, ∀ t, skipValue (value.write ++ t) = .ok ((), t)) (t : Bytes) :
    counted skipValue (Bytes.ofNat16 values.length ++ writeAll values ++ t)
      = .ok (values.map fun _ => (), t) := by
  rw [writeAll_eq]
  refine counted_flatMap hlength ?_ t
  rw [List.forall₂_map_right_iff, List.forall₂_same]
  exact h

theorem skipPairs_writePairs (hlength : pairs.length < 65536)
    (h : ∀ p ∈ pairs, ∀ t, skipValue (p.2.write ++ t) = .ok ((), t)) (t : Bytes) :
    skipPairs skipValue (Bytes.ofNat16 pairs.length ++ writePairs pairs ++ t) = .ok ((), t) := by
  have hpairs : List.Forall₂ (fun (p : UInt16 × ElementValue) (_ : Unit) => ∀ t,
      (do skip 2; skipValue : Reader Unit) (Bytes.ofUInt16 p.1 ++ p.2.write ++ t) = .ok ((), t))
      pairs (pairs.map fun _ => ()) := by
    rw [List.forall₂_map_right_iff, List.forall₂_same]
    intro p hp t
    rw [List.append_assoc]
    exact (bind_of_ok (skip_append (Bytes.ofUInt16 p.1) _)).trans (h p hp t)
  rw [writePairs_eq]
  exact bind_of_ok (counted_flatMap hlength hpairs t)

theorem skipNested_cons (depth : Nat) (tag : UInt8) (s : Bytes) :
    skipNested (depth + 1) (tag :: s) =
      (if isIndexTag tag then skip 2
      else if tag.toNat == 'e'.toNat then skip 4
      else if tag.toNat == '@'.toNat then do
        skip 2
        skipPairs (skipNested depth)
      else if tag.toNat == '['.toNat then do
        let _ ← counted (skipNested depth)
      else throw (.elementTag tag)) s :=
  bind_of_ok rfl

theorem skipNested_index {tag : UInt8} (h : isIndexTag tag = true) (index : UInt16) (t : Bytes) :
    skipNested (depth + 1) (tag :: Bytes.ofUInt16 index ++ t) = .ok ((), t) := by
  rw [List.cons_append, skipNested_cons, if_pos h]
  exact skip_append (Bytes.ofUInt16 index) t

theorem exists_depth (h : value.write.length ≤ depth) : ∃ d, depth = d + 1 :=
  Nat.exists_eq_add_one.2 (Nat.lt_of_lt_of_le (length_write_pos value) h)

theorem skipNested_write (h : value.IsCounted) (hdepth : value.write.length ≤ depth) (t : Bytes) :
    skipNested depth (value.write ++ t) = .ok ((), t) := by
  induction h generalizing depth t with
  | primitive type index =>
      obtain ⟨depth, rfl⟩ := exists_depth hdepth
      refine skipNested_index ?_ index t
      cases type <;> decide
  | string index =>
      obtain ⟨depth, rfl⟩ := exists_depth hdepth
      exact skipNested_index (by decide) index t
  | classType index =>
      obtain ⟨depth, rfl⟩ := exists_depth hdepth
      exact skipNested_index (by decide) index t
  | enum type name =>
      obtain ⟨depth, rfl⟩ := exists_depth hdepth
      rw [write, List.cons_append, skipNested_cons, if_neg (by decide), if_pos (by decide)]
      exact skip_append (Bytes.ofUInt16 type ++ Bytes.ofUInt16 name) t
  | @nested type pairs hlength _ ih =>
      obtain ⟨depth, rfl⟩ := exists_depth hdepth
      rw [write, List.cons_append, skipNested_cons, if_neg (by decide), if_neg (by decide),
        if_pos (by decide), List.append_assoc]
      refine (bind_of_ok (skip_append (Bytes.ofUInt16 type) _)).trans ?_
      refine skipPairs_writePairs hlength (fun p hp u => ih p hp ?_ u) t
      have hle := length_write_le_pairs hp
      simp only [write, List.length_cons, List.length_append] at hdepth
      omega
  | @array values hlength _ ih =>
      obtain ⟨depth, rfl⟩ := exists_depth hdepth
      rw [write, List.cons_append, skipNested_cons, if_neg (by decide), if_neg (by decide),
        if_neg (by decide), if_pos (by decide)]
      refine bind_of_ok (counted_writeAll hlength (fun value hvalue u => ih value hvalue ?_ u) t)
      have hle := length_write_le hvalue
      simp only [write, List.length_cons, List.length_append] at hdepth
      omega

end Annotations

structure Annotation where
  type : UInt16
  pairs : List (UInt16 × ElementValue)

namespace Annotation

def write (a : Annotation) : Bytes :=
  Bytes.ofUInt16 a.type ++ (Bytes.ofNat16 a.pairs.length ++ ElementValue.writePairs a.pairs)

def writeAll (as : List Annotation) : Bytes := Bytes.ofNat16 as.length ++ as.flatMap write

structure IsCounted (a : Annotation) : Prop where
  length : a.pairs.length < 65536
  values : ∀ p ∈ a.pairs, p.2.IsCounted

open Reader Annotations

variable {a : Annotation} {as : List Annotation} {depth : Nat}

theorem readType_write (h : a.IsCounted) (hdepth : a.write.length ≤ depth) (t : Bytes) :
    readType depth (a.write ++ t) = .ok (a.type, t) := by
  have hskip : ∀ p ∈ a.pairs, ∀ t, skipNested depth (p.2.write ++ t) = .ok ((), t) := by
    intro p hp t
    have hle := ElementValue.length_write_le_pairs hp
    simp only [write, List.length_append] at hdepth
    exact skipNested_write (h.values p hp) (by omega) t
  rw [write, List.append_assoc]
  exact (bind_of_ok (u2_ofUInt16 a.type _)).trans
    (bind_of_ok (skipPairs_writePairs h.length hskip t))

theorem readTypes_writeAll (hlength : as.length < 65536) (h : ∀ a ∈ as, a.IsCounted) :
    readTypes (writeAll as) = .ok (as.map (·.type), []) := by
  refine counted_map hlength fun a ha t => readType_write (h a ha) ?_ t
  have hle := length_le_flatMap (w := write) ha
  rw [writeAll, List.length_append]
  exact Nat.le_trans hle (Nat.le_add_left _ _)

end Annotation

namespace ClassFile

def HasAnnotationsName (l : ClassFile) (a : RawAttribute) : Prop :=
  l.utf8? a.name = some "RuntimeVisibleAnnotations" ∨
    l.utf8? a.name = some "RuntimeInvisibleAnnotations"

instance (l : ClassFile) (a : RawAttribute) : Decidable (l.HasAnnotationsName a) :=
  inferInstanceAs (Decidable (_ ∨ _))

inductive Holds (l : ClassFile) : List RawAttribute → List Annotation → Prop where
  | nil : Holds l [] []
  | other {a : RawAttribute} {as : List RawAttribute} {xs : List Annotation}
      (hname : ¬ l.HasAnnotationsName a) (h : Holds l as xs) : Holds l (a :: as) xs
  | annotations {a : RawAttribute} {as : List RawAttribute} {xs ys : List Annotation}
      (hname : l.HasAnnotationsName a) (hbody : a.body = Annotation.writeAll xs)
      (hlength : xs.length < 65536) (hcounted : ∀ x ∈ xs, x.IsCounted) (h : Holds l as ys) :
      Holds l (a :: as) (xs ++ ys)

theorem isAnnotations_iff {l : ClassFile} {a : RawAttribute} :
    l.isAnnotations a = true ↔ l.HasAnnotationsName a := by
  simp only [isAnnotations, named, Bool.or_eq_true, beq_iff_eq, HasAnnotationsName]

theorem foldlM_types {l : ClassFile} {as : List RawAttribute} {xs : List Annotation}
    (h : l.Holds as xs) (types : List UInt16) :
    (as.filter l.isAnnotations).foldlM (fun types a =>
      (Annotations.readTypes a.body).map fun (more, _) => types ++ more) types
        = .ok (types ++ xs.map (·.type)) := by
  induction h generalizing types with
  | nil => exact congrArg Except.ok (List.append_nil types).symm
  | other hname _ ih =>
      rw [List.filter_cons_of_neg (mt isAnnotations_iff.1 hname)]
      exact ih types
  | @annotations a as xs ys hname hbody hlength hcounted _ ih =>
      rw [List.filter_cons_of_pos (isAnnotations_iff.2 hname), List.foldlM_cons, hbody,
        Annotation.readTypes_writeAll hlength hcounted, List.map_append, ← List.append_assoc]
      exact ih (types ++ xs.map (·.type))

/-- The types that are read from a class are those of its annotations in their order, and none of
those that stand in their values. -/
theorem annotationTypes_eq (l : ClassFile) (xs : List Annotation) (h : l.Holds l.attributes xs) :
    l.annotationTypes = .ok (xs.map (·.type)) :=
  foldlM_types h []

end ClassFile

namespace Specimen

def ascii (text : String) : Constant := .utf8 (text.toList.map fun c => .ofNat c.toNat)

def visible : List Annotation :=
  [⟨10, [(20, .nested 11 [(21, .array [.nested 12 [], .enum 22 23])])]⟩, ⟨13, []⟩]

def invisible : List Annotation :=
  [⟨14, [(24, .array [.array [], .primitive .int 25, .string 26]), (27, .classType 28)]⟩]

def annotated : ClassFile :=
  { minor := 0, major := 52
    pool := ⟨4, [(1, ascii "RuntimeVisibleAnnotations"), (2, ascii "RuntimeInvisibleAnnotations"),
      (3, ascii "SourceFile")]⟩
    access := 33, thisClass := 0, superClass := 0, interfaces := [], fields := [], methods := []
    attributes := [⟨1, Annotation.writeAll visible⟩, ⟨3, [0, 1]⟩,
      ⟨2, Annotation.writeAll invisible⟩, ⟨1, Annotation.writeAll visible⟩] }

theorem counted_visible : ∀ x ∈ visible, x.IsCounted := by
  have hinner : ElementValue.IsCounted (.array [.nested 12 [], .enum 22 23]) :=
    .array (by decide) (List.forall_mem_cons.2 ⟨.nested 12 (by decide) (List.forall_mem_nil _),
      List.forall_mem_singleton.2 (.enum 22 23)⟩)
  have houter : ElementValue.IsCounted
      (.nested 11 [(21, .array [.nested 12 [], .enum 22 23])]) :=
    .nested 11 (by decide) (List.forall_mem_singleton.2 hinner)
  exact List.forall_mem_cons.2 ⟨⟨by decide, List.forall_mem_singleton.2 houter⟩,
    List.forall_mem_singleton.2 ⟨by decide, List.forall_mem_nil _⟩⟩

theorem counted_invisible : ∀ x ∈ invisible, x.IsCounted := by
  have hinner : ∀ value ∈ [.array [], .primitive .int 25, .string 26],
      ElementValue.IsCounted value := by
    simp only [List.forall_mem_cons]
    exact ⟨.array (by decide) (List.forall_mem_nil _), .primitive .int 25, .string 26,
      List.forall_mem_nil _⟩
  refine List.forall_mem_singleton.2 ⟨by decide, ?_⟩
  exact List.forall_mem_cons.2 ⟨.array (by decide) hinner,
    List.forall_mem_singleton.2 (.classType 28)⟩

theorem holds_annotated :
    annotated.Holds annotated.attributes (visible ++ (invisible ++ (visible ++ []))) := by
  have hvisible : annotated.utf8? 1 = some "RuntimeVisibleAnnotations" := by decide +kernel
  have hinvisible : annotated.utf8? 2 = some "RuntimeInvisibleAnnotations" := by decide +kernel
  refine .annotations (.inl hvisible) rfl (by decide) counted_visible ?_
  refine .other (by decide +kernel) ?_
  refine .annotations (.inr hinvisible) rfl (by decide) counted_invisible ?_
  exact .annotations (.inl hvisible) rfl (by decide) counted_visible .nil

end Specimen

open Specimen in
theorem ClassFile.annotationTypes_annotated :
    ClassFile.read annotated.write = .ok annotated ∧
      annotated.Holds annotated.attributes (visible ++ (invisible ++ (visible ++ []))) ∧
      annotated.annotationTypes = .ok [10, 13, 14, 10, 13] :=
  ⟨by decide +kernel, holds_annotated, annotationTypes_eq annotated _ holds_annotated⟩

end BytecodeMutation
