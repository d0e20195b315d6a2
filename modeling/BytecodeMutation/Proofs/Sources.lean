import BytecodeMutation.Proofs.Addressing

namespace BytecodeMutation

namespace FileNode

structure IsEntryName (name : String) : Prop where
  nonempty : name ≠ ""
  notDot : name ≠ "."
  single : '/' ∉ name.toList

inductive IsTree : FileNode → Prop where
  | file (content : Bytes) : IsTree (.file content)
  | directory {entries : List (String × FileNode)} (hnodup : (entries.map (·.1)).Nodup)
      (hnames : ∀ e ∈ entries, IsEntryName e.1) (h : ∀ e ∈ entries, IsTree e.2) :
      IsTree (.directory entries)

variable {node : FileNode} {entries : List (String × FileNode)}

theorem filesIn_eq (entries : List (String × FileNode)) : filesIn entries
    = entries.flatMap fun e => e.2.files.map fun f => (e.1 :: f.1, f.2) := by
  induction entries with
  | nil => rfl
  | cons e entries ih => rw [filesIn, ih, List.flatMap_cons]

theorem mem_filesIn {f : List String × Bytes} :
    f ∈ filesIn entries ↔ ∃ e ∈ entries, ∃ g ∈ e.2.files, (e.1 :: g.1, g.2) = f := by
  simp only [filesIn_eq, List.mem_flatMap, List.mem_map]

theorem lookup_of_nodup (h : (entries.map (·.1)).Nodup) :
    ∀ e ∈ entries, entries.lookup e.1 = some e.2 := by
  intro e he
  obtain ⟨before, after, rfl⟩ := List.append_of_mem he
  rw [List.map_append, List.map_cons, List.nodup_append] at h
  refine List.lookup_eq_some_iff.2 ⟨before, after, rfl, fun e' he' => ?_⟩
  exact bne_iff_ne.2 fun heq =>
    h.2.2 e'.1 (List.mem_map_of_mem he') e.1 List.mem_cons_self heq.symm

theorem IsTree.find?_of_mem (h : node.IsTree) :
    ∀ f ∈ node.files, node.find? f.1 = some (.file f.2) := by
  induction h with
  | file content => exact List.forall_mem_singleton.2 rfl
  | @directory entries hnodup _ _ ih =>
      intro f hf
      obtain ⟨e, he, g, hg, rfl⟩ := mem_filesIn.1 hf
      simp only [find?, child?, lookup_of_nodup hnodup e he]
      exact ih e he g hg

theorem IsTree.isEntryName (h : node.IsTree) :
    ∀ f ∈ node.files, ∀ name ∈ f.1, IsEntryName name := by
  induction h with
  | file content => exact List.forall_mem_singleton.2 nofun
  | directory _ hnames _ ih =>
      intro f hf
      obtain ⟨e, he, g, hg, rfl⟩ := mem_filesIn.1 hf
      exact List.forall_mem_cons.2 ⟨hnames e he, ih e he g hg⟩

theorem IsTree.nodup_files (h : node.IsTree) : (node.files.map (·.1)).Nodup := by
  induction h with
  | file content => exact List.nodup_singleton []
  | @directory entries hnodup _ _ ih =>
      have hnames : (files (.directory entries)).map (·.1)
          = entries.flatMap fun e => (e.2.files.map (·.1)).map (e.1 :: ·) := by
        rw [files, filesIn_eq, List.map_flatMap]
        simp only [List.map_map, Function.comp_def]
      rw [hnames, List.nodup_flatMap]
      refine ⟨fun e he => (ih e he).map fun _ _ heq => (List.cons.inj heq).2, ?_⟩
      refine (List.pairwise_map.1 hnodup).imp fun {e e'} hne names hmem hmem' => ?_
      obtain ⟨_, -, rfl⟩ := List.mem_map.1 hmem
      obtain ⟨_, -, heq⟩ := List.mem_map.1 hmem'
      exact hne (List.cons.inj heq).1.symm

end FileNode

namespace PathName

open FileNode

variable {names : List String}

theorem parts_intercalate (hnames : ∀ name ∈ names, IsEntryName name) (hne : names ≠ []) :
    parts ("/".intercalate names) = names := by
  have hsingle : ∀ l ∈ names.map String.toList, '/' ∉ l := List.forall_mem_map.2 fun name hname =>
    (hnames name hname).single
  have hsplit : ("/".intercalate names).toList.splitOn '/' = names.map String.toList := by
    rw [String.toList_intercalate]
    exact List.splitOn_intercalate '/' hsingle (mt List.map_eq_nil_iff.1 hne)
  rw [parts, hsplit, List.map_map]
  simp only [Function.comp_def, String.ofList_toList, List.map_id']
  refine List.filter_eq_self.2 fun name hname => ?_
  rw [Bool.and_eq_true, bne_iff_ne, bne_iff_ne]
  exact ⟨(hnames name hname).nonempty, (hnames name hname).notDot⟩

theorem isAbsolute_intercalate (hnames : ∀ name ∈ names, IsEntryName name) (hne : names ≠ []) :
    isAbsolute ("/".intercalate names) = false := by
  obtain ⟨name, names, rfl⟩ := List.exists_cons_of_ne_nil hne
  obtain ⟨c, cs, hcs⟩ := List.exists_cons_of_ne_nil
    (mt String.toList_eq_nil_iff.1 (hnames name List.mem_cons_self).nonempty)
  have hsingle := (hnames name List.mem_cons_self).single
  obtain ⟨rest, hrest⟩ : ∃ rest, ("/".intercalate (name :: names)).toList = c :: rest := by
    rw [String.toList_intercalate]
    cases names with
    | nil => exact ⟨cs, by rw [List.map_singleton, List.intercalate_singleton, hcs]⟩
    | cons =>
        rw [List.map_cons, List.map_cons, List.intercalate_cons_cons, hcs]
        exact ⟨_, rfl⟩
  rw [Bool.eq_false_iff, ne_eq, isAbsolute, String.startsWith_string_iff, hrest]
  intro hprefix
  rw [← (List.cons_prefix_cons.1 hprefix).1] at hcs
  exact hsingle (hcs ▸ List.mem_cons_self)

end PathName

namespace Archive

variable {a : Archive} {data : Bytes}

theorem Directory.names_addEntry (entries : List ArchiveEntry) (e : ArchiveEntry)
    (h : (entries.map (·.name)).Nodup) : ((addEntry entries e).map (·.name)).Nodup := by
  unfold addEntry
  split
  · have hsame : (entries.map fun f => if f.name == e.name then e else f).map (·.name)
        = entries.map (·.name) := by
      rw [List.map_map]
      refine List.map_congr_left fun f _ => ?_
      by_cases hf : f.name == e.name
      · simp only [Function.comp_apply, hf, if_true]
        exact (beq_iff_eq.1 hf).symm
      · simp only [Function.comp_apply, if_neg hf]
    rw [hsame]
    exact h
  · rename_i hnone
    rw [List.map_append, List.map_singleton, List.nodup_append]
    refine ⟨h, List.nodup_singleton _, fun name hname other hother heq => hnone ?_⟩
    obtain ⟨f, hf, hfname⟩ := List.mem_map.1 hname
    rw [List.any_eq_true]
    exact ⟨f, hf, beq_iff_eq.2 (hfname.trans (heq.trans (List.mem_singleton.1 hother)))⟩

theorem Directory.nodup_readEntries? {shift n : Nat} {acc entries : List ArchiveEntry} {s : Bytes}
    (h : readEntries? shift acc n s = some entries) (hacc : (acc.map (·.name)).Nodup) :
    (entries.map (·.name)).Nodup := by
  induction n generalizing acc s with
  | zero =>
      cases h
      exact hacc
  | succ n ih =>
      obtain ⟨⟨e, s'⟩, -, h⟩ := Option.bind_eq_some_iff.1 h
      exact ih h (names_addEntry acc _ hacc)

theorem nodup_entries (h : read? data = some a) : (a.entries.map (·.name)).Nodup := by
  obtain ⟨entries, hentries, rfl⟩ := Option.map_eq_some_iff.1 h
  obtain ⟨place, -, hplace⟩ := List.exists_of_findSome?_eq_some hentries
  obtain ⟨d, -, hd⟩ := Option.bind_eq_some_iff.1 hplace
  exact Directory.nodup_readEntries? hd List.nodup_nil

theorem find?_of_mem (h : read? data = some a) : ∀ e ∈ a.entries, a.find? e.name = some e := by
  intro e he
  have hnodup := nodup_entries h
  obtain ⟨before, after, hentries⟩ := List.append_of_mem he
  rw [hentries, List.map_append, List.map_cons, List.nodup_append] at hnodup
  refine List.find?_eq_some_iff_append.2 ⟨beq_iff_eq.2 rfl, before, after, hentries, fun f hf => ?_⟩
  rw [Bool.not_eq_true', beq_eq_false_iff_ne]
  exact hnodup.2.2 f.name (List.mem_map_of_mem hf) e.name List.mem_cons_self

end Archive

namespace ClassName

def IsPlain (path : String) : Prop := ∃ stem, path = stem ++ ".class" ∧ '.' ∉ stem.toList

theorem withoutSuffix_append (stem suffix : String) :
    withoutSuffix suffix (stem ++ suffix) = stem := by
  have hends : (stem ++ suffix).endsWith suffix = true := by
    rw [String.endsWith_eq_endsWith_toSlice, String.Slice.endsWith_string_iff, String.copy_toSlice,
      String.toList_append]
    exact List.suffix_append _ _
  have hdrop : ((stem ++ suffix).dropEnd suffix.length).copy = stem := by
    rw [← String.toList_inj, String.toList_copy_dropEnd, String.toList_append, List.length_append,
      String.length_toList, String.length_toList, Nat.add_sub_cancel, ← String.length_toList,
      List.take_left]
  rw [withoutSuffix, if_pos hends]
  exact hdrop

theorem path_internal_iff (path : String) :
    ClassName.path (internal path) = path ↔ IsPlain path := by
  rw [ClassName.path, internal_internal]
  constructor
  · intro h
    exact ⟨internal path, h.symm, not_mem_internal path⟩
  · rintro ⟨stem, rfl, hstem⟩
    rw [internal, withoutSuffix_append, Text.replaceChar_of_not_mem hstem]

theorem IsPlain.eq_of_internal_eq {path path' : String} (h : IsPlain path) (h' : IsPlain path')
    (heq : internal path = internal path') : path = path' := by
  rw [← (path_internal_iff path).2 h, ← (path_internal_iff path').2 h', heq]

end ClassName

namespace ClassInput

open FileNode

variable {path : String} {node : Option FileNode} {input : ClassInput} {names : List String}

/-- The class files below a directory or in an archive, each with its path and content. Damaged
entries have no content. -/
def listedFiles : ClassInput → List (String × Option Bytes)
  | .directory root => (root.files.filter fun f => (listed? f.1).isSome).map fun f =>
      ("/".intercalate f.1, some f.2)
  | .archive _ content => match content.bind Archive.read? with
      | some a => (a.entries.filter fun e => ( listedEntry? e).isSome).map fun e =>
          (e.name, a.content? e)
      | none => []
  | .classFile .. => []

def contentAt (archive : String) (f : String × Option Bytes) : Except SourceError (Option Bytes) :=
  match f.2 with
  | some data => .ok (some data)
  | none => .error (.unreadableEntry archive f.1)

theorem filterMap_eq_map_filter {α β : Type} {f : α → Option β} {g : α → β}
    (h : ∀ a b, f a = some b → b = g a) (as : List α) :
    as.filterMap f = (as.filter fun a => (f a).isSome).map g := by
  induction as with
  | nil => rfl
  | cons a as ih =>
      cases hf : f a with
      | none => rw [List.filterMap_cons_none hf, ih, List.filter_cons_of_neg (by rw [hf]; nofun)]
      | some b =>
          rw [List.filterMap_cons_some hf, ih, List.filter_cons_of_pos (by rw [hf]; rfl),
            List.map_cons, h a b hf]

theorem listed?_some {name : String} (h : listed? names = some name) :
    names ≠ [] ∧ name = ClassName.internal ("/".intercalate names) := by
  simp only [listed?] at h
  split at h
  · rename_i hlast
    cases h
    refine ⟨?_, rfl⟩
    rintro rfl
    cases hlast
  · cases h

theorem internal_of_listedEntry {e : ArchiveEntry} {name : String} (h : listedEntry? e = some name) :
    name = ClassName.internal e.name := by
  unfold listedEntry? at h
  split at h
  · cases h
    rfl
  · cases h

theorem openArchive_ok {content : Option Bytes} {a : Archive} (h : openArchive path content = .ok a) :
    content.bind Archive.read? = some a := by
  unfold openArchive at h
  split at h
  · cases h
  · split at h
    · rename_i hread
      cases h
      exact hread
    · cases h

theorem names_eq (hfile : ∀ own data, input ≠ .classFile own data) (h : input.names = .ok names) :
    names = input.listedFiles.map fun f => ClassName.internal f.1 := by
  cases input with
  | directory root =>
      cases h
      rw [listedFiles, List.map_map]
      exact filterMap_eq_map_filter (fun f name hname => (listed?_some hname).2) root.files
  | archive path content =>
      obtain ⟨a, ha, h⟩ := Result.bind_ok.1 h
      split at h
      · cases h
        simp only [listedFiles, openArchive_ok ha, List.map_map]
        exact filterMap_eq_map_filter (fun e name hname => internal_of_listedEntry hname) a.entries
      · cases h
  | classFile own data => exact absurd rfl (hfile own data)

theorem openArchive_of_read? {content : Option Bytes} {a : Archive}
    (h : content.bind Archive.read? = some a) : openArchive path content = .ok a := by
  obtain ⟨data, rfl, ha⟩ := Option.bind_eq_some_iff.1 h
  simp only [openArchive, ha]

theorem archive_of_open? {node : Option FileNode} {path' : String} {content : Option Bytes}
    (h : open? path node = .ok (.archive path' content)) : path' = path := by
  unfold open? at h
  split at h
  · cases h
  · dsimp only at h
    split at h
    · cases h
      rfl
    · split at h
      · cases h
      · split at h <;> cases h
    · cases h

theorem directory_of_open? {node : Option FileNode} {root : FileNode}
    (h : open? path node = .ok (.directory root)) : node = some root := by
  unfold open? at h
  split at h
  · cases h
    rfl
  · dsimp only at h
    split at h
    · cases h
    · split at h
      · cases h
      · split at h <;> cases h
    · cases h

theorem mem_listedFiles_directory {root : FileNode} {f : String × Option Bytes}
    (h : f ∈ (directory root).listedFiles) :
    ∃ g ∈ root.files, g.1 ≠ [] ∧ f = ("/".intercalate g.1, some g.2) := by
  obtain ⟨g, hg, rfl⟩ := List.mem_map.1 h
  obtain ⟨hmem, hlisted⟩ := List.mem_filter.1 hg
  obtain ⟨name, hname⟩ := Option.isSome_iff_exists.1 hlisted
  exact ⟨g, hmem, (listed?_some hname).1, rfl⟩

theorem mem_listedFiles_archive {archive : String} {content : Option Bytes}
    {f : String × Option Bytes} (h : f ∈ (ClassInput.archive archive content).listedFiles) :
    ∃ a, content.bind Archive.read? = some a ∧ ∃ e ∈ a.entries, f = (e.name, a.content? e) := by
  simp only [listedFiles] at h
  split at h
  · rename_i a ha
    obtain ⟨e, he, rfl⟩ := List.mem_map.1 h
    exact ⟨a, ha, e, (List.mem_filter.1 he).1, rfl⟩
  · cases h

theorem read_listed (hinput : open? path node = .ok input) (htree : ∀ root ∈ node, root.IsTree) :
    ∀ f ∈ input.listedFiles, ClassName.IsPlain f.1 →
      input.read (ClassName.internal f.1) = contentAt path f := by
  intro f hf hplain
  have hpath := (ClassName.path_internal_iff f.1).2 hplain
  cases input with
  | directory root =>
      have hroot := htree root (directory_of_open? hinput)
      obtain ⟨g, hg, hne, rfl⟩ := mem_listedFiles_directory hf
      have hnames := hroot.isEntryName g hg
      simp only [read, hpath, readBelow, PathName.isAbsolute_intercalate hnames hne,
        PathName.parts_intercalate hnames hne, hroot.find?_of_mem g hg]
      rfl
  | archive archive content =>
      obtain rfl := archive_of_open? hinput
      obtain ⟨a, ha, e, he, rfl⟩ := mem_listedFiles_archive hf
      obtain ⟨data, -, hdata⟩ := Option.bind_eq_some_iff.1 ha
      have hread : (ClassInput.archive archive content).read (ClassName.internal e.name)
          = readEntry archive a e.name := by
        simp only [read, hpath, openArchive_of_read? ha, bind, Except.bind]
      rw [hread]
      cases hcontent : a.content? e with
      | none => simp only [readEntry, Archive.find?_of_mem hdata e he, contentAt, hcontent]
      | some bytes => simp only [readEntry, Archive.find?_of_mem hdata e he, contentAt, hcontent]
  | classFile own data => cases hf

theorem nodup_listedFiles (hinput : open? path node = .ok input)
    (htree : ∀ root ∈ node, root.IsTree) : (input.listedFiles.map (·.1)).Nodup := by
  cases input with
  | directory root =>
      have hroot := htree root (directory_of_open? hinput)
      rw [listedFiles, List.map_map]
      refine List.Nodup.map_on (fun f hf g hg heq => ?_) (hroot.nodup_files.of_map.filter _)
      obtain ⟨hf, hlisted⟩ := List.mem_filter.1 hf
      obtain ⟨hg, hlisted'⟩ := List.mem_filter.1 hg
      obtain ⟨name, hname⟩ := Option.isSome_iff_exists.1 hlisted
      obtain ⟨name', hname'⟩ := Option.isSome_iff_exists.1 hlisted'
      -- the parts of a path are the names that it was put together from
      have hparts := congrArg PathName.parts heq
      simp only [Function.comp_apply,
        PathName.parts_intercalate (hroot.isEntryName f hf) (listed?_some hname).1,
        PathName.parts_intercalate (hroot.isEntryName g hg) (listed?_some hname').1] at hparts
      exact List.inj_on_of_nodup_map hroot.nodup_files hf hg hparts
  | archive archive content =>
      simp only [listedFiles]
      split
      · rename_i a ha
        obtain ⟨data, -, hdata⟩ := Option.bind_eq_some_iff.1 ha
        rw [List.map_map]
        exact (Archive.nodup_entries hdata).sublist (List.filter_sublist.map _)
      · exact List.nodup_nil
  | classFile own data => exact List.nodup_nil

theorem classes_of_sorted (h : input.names = .ok names) (hsorted : names.Pairwise (· ≤ ·)) :
    input.classes = .ok names := by
  rw [classes, h]
  exact congrArg Except.ok (List.mergeSort_of_pairwise (hsorted.imp decide_eq_true))

end ClassInput

namespace ClassPath

theorem open?_nil {node? : String → Option FileNode} {path : String} {input : ClassInput}
    (h : ClassInput.open? path (node? path) = .ok input) : open? node? path [] = .ok ⟨[input]⟩ := by
  rw [open?, h, List.mergeSort_nil]
  rfl

theorem source_of_contentAt {input : ClassInput} {rest : List ClassInput} {path name : String}
    {f : String × Option Bytes} (h : input.read name = ClassInput.contentAt path f) :
    ClassPath.source ⟨input :: rest⟩ name = ClassInput.contentAt path f := by
  rw [ClassPath.source, readFirst, h, ClassInput.contentAt]
  cases f.2 <;> rfl

end ClassPath

/-- The names of a directory or an archive are those of its class files, which have different
paths. A name leads back to the path that it was taken from exactly if that path has no dot but
that of its suffix; then the content of the file is what a class path reads that starts with the
input, and no other file with such a path has the same name. -/
theorem ClassInput.classes_read (node? : String → Option FileNode) (path : String)
    (entries : List String) (input : ClassInput) (p : ClassPath) (names : List String)
    (hinput : open? path (node? path) = .ok input)
    (hfile : ∀ own data, input ≠ .classFile own data)
    (htree : ∀ root ∈ node? path, root.IsTree)
    (hpath : ClassPath.open? node? path entries = .ok p) (hnames : input.classes = .ok names) :
    (input.listedFiles.map (·.1)).Nodup ∧
    names.Perm (input.listedFiles.map fun f => ClassName.internal f.1) ∧
    (∀ f ∈ input.listedFiles,
      (ClassName.path (ClassName.internal f.1) = f.1 ↔ ClassName.IsPlain f.1) ∧
      (ClassName.IsPlain f.1 → p.source (ClassName.internal f.1) = contentAt path f ∧
        ∀ g ∈ input.listedFiles, ClassName.IsPlain g.1 →
          ClassName.internal g.1 = ClassName.internal f.1 → g = f)) ∧
    ((∀ f ∈ input.listedFiles, ClassName.IsPlain f.1) → names.Nodup) := by
  obtain ⟨ns, hns, rfl⟩ := Result.map_ok.1 hnames
  obtain ⟨i, rest, hi, rfl⟩ := ClassPath.exists_first hpath
  obtain rfl := Except.ok.inj (hinput.symm.trans hi)
  obtain rfl := names_eq hfile hns
  have hnodup := nodup_listedFiles hinput htree
  have hperm := List.mergeSort_perm (input.listedFiles.map fun f => ClassName.internal f.1)
    fun a b => a ≤ b
  have hinj : ∀ f ∈ input.listedFiles, ∀ g ∈ input.listedFiles, ClassName.IsPlain f.1 →
      ClassName.IsPlain g.1 → ClassName.internal g.1 = ClassName.internal f.1 → g = f :=
    fun f hf g hg hplain hplain' heq =>
      List.inj_on_of_nodup_map hnodup hg hf (hplain'.eq_of_internal_eq hplain heq)
  refine ⟨hnodup, hperm, fun f hf => ⟨ClassName.path_internal_iff f.1, fun hplain => ⟨?_, ?_⟩⟩,
    fun hall => ?_⟩
  · exact ClassPath.source_of_contentAt (read_listed hinput htree f hf hplain)
  · exact fun g hg hplain' => hinj f hf g hg hplain hplain'
  · refine hperm.nodup_iff.2 (List.Nodup.map_on (fun f hf g hg heq => ?_) hnodup.of_map)
    exact hinj g hg f hf (hall g hg) (hall f hf) heq

namespace Specimen

def plainTree : FileNode :=
  .directory [("S.class", .file [1]),
    ("a", .directory [("B.class", .file [2]), ("B.txt", .file [3])])]

def storedArchive : Bytes :=
  [0x50, 0x4b, 3, 4, 0x14, 0, 0, 0, 0, 0, 0, 0, 0x21, 0, 0x2e, 0x7a, 0x66, 0x4c, 1, 0, 0, 0,
    1, 0, 0, 0, 9, 0, 0, 0, 0x61, 0x2f, 0x42, 0x2e, 0x63, 0x6c, 0x61, 0x73, 0x73, 7, 0x50,
    0x4b, 1, 2, 0x14, 3, 0x14, 0, 0, 0, 0, 0, 0, 0, 0x21, 0, 0x2e, 0x7a, 0x66, 0x4c, 1, 0, 0,
    0, 1, 0, 0, 0, 9, 0, 0, 0, 0, 0, 0, 0, 0, 0, 0, 0, 0x80, 1, 0, 0, 0, 0, 0x61, 0x2f, 0x42,
    0x2e, 0x63, 0x6c, 0x61, 0x73, 0x73, 0x50, 0x4b, 5, 6, 0, 0, 0, 0, 1, 0, 1, 0, 0x37, 0, 0,
    0, 0x28, 0, 0, 0, 0, 0]

def dottedTree : FileNode :=
  .directory [("a.b.class", .file [1]), ("a", .directory [("b.class", .file [2])])]

def places : String → Option FileNode
  | "in" => some plainTree
  | "in.jar" => some (.file storedArchive)
  | "dotted" => some dottedTree
  | _ => none

theorem isTree_plainTree : plainTree.IsTree := by
  have hinner : FileNode.IsTree (.directory [("B.class", .file [2]), ("B.txt", .file [3])]) :=
    .directory (by decide) (List.forall_mem_cons.2 ⟨⟨by decide, by decide, by decide⟩,
      List.forall_mem_singleton.2 ⟨by decide, by decide, by decide⟩⟩)
      (List.forall_mem_cons.2 ⟨.file [2], List.forall_mem_singleton.2 (.file [3])⟩)
  exact .directory (by decide) (List.forall_mem_cons.2 ⟨⟨by decide, by decide, by decide⟩,
    List.forall_mem_singleton.2 ⟨by decide, by decide, by decide⟩⟩)
    (List.forall_mem_cons.2 ⟨.file [1], List.forall_mem_singleton.2 hinner⟩)

theorem isTree_dottedTree : dottedTree.IsTree := by
  have hinner : FileNode.IsTree (.directory [("b.class", .file [2])]) :=
    .directory (by decide) (List.forall_mem_singleton.2 ⟨by decide, by decide, by decide⟩)
      (List.forall_mem_singleton.2 (.file [2]))
  exact .directory (by decide) (List.forall_mem_cons.2 ⟨⟨by decide, by decide, by decide⟩,
    List.forall_mem_singleton.2 ⟨by decide, by decide, by decide⟩⟩)
    (List.forall_mem_cons.2 ⟨.file [1], List.forall_mem_singleton.2 hinner⟩)

end Specimen

open Specimen in
theorem ClassInput.classes_read_plain :
    (ClassInput.directory plainTree).classes = .ok ["S", "a/B"] ∧
    ClassPath.source ⟨[.directory plainTree]⟩ "a/B" = .ok (some [2]) ∧
    (ClassInput.archive "in.jar" (some storedArchive)).classes = .ok ["a/B"] ∧
    ClassPath.source ⟨[.archive "in.jar" (some storedArchive)]⟩ "a/B" = .ok (some [7]) := by
  have hclasses : (ClassInput.directory plainTree).classes = .ok ["S", "a/B"] :=
    ClassInput.classes_of_sorted (by decide +kernel) (by decide)
  have hclasses' : (ClassInput.archive "in.jar" (some storedArchive)).classes = .ok ["a/B"] :=
    ClassInput.classes_of_sorted (by decide +kernel) (by decide)
  have hlisted : ("a/B.class", some [2]) ∈ (ClassInput.directory plainTree).listedFiles := by
    decide +kernel
  have hlisted' : ("a/B.class", some [7])
      ∈ (ClassInput.archive "in.jar" (some storedArchive)).listedFiles := by decide +kernel
  have hplain : ClassName.IsPlain "a/B.class" := ⟨"a/B", by decide, by decide⟩
  have htree : ∀ root ∈ places "in", root.IsTree := by
    rintro root ⟨⟩
    exact isTree_plainTree
  have htree' : ∀ root ∈ places "in.jar", root.IsTree := by
    rintro root ⟨⟩
    exact .file storedArchive
  have hname : ClassName.internal "a/B.class" = "a/B" := by decide +kernel
  obtain ⟨-, -, hread, -⟩ := classes_read places "in" [] (.directory plainTree)
    ⟨[.directory plainTree]⟩ _ rfl nofun htree (ClassPath.open?_nil rfl) hclasses
  obtain ⟨-, -, hread', -⟩ := classes_read places "in.jar" []
    (.archive "in.jar" (some storedArchive)) ⟨[.archive "in.jar" (some storedArchive)]⟩ _ rfl nofun
    htree' (ClassPath.open?_nil rfl) hclasses'
  have hfound := ((hread _ hlisted).2 hplain).1
  have hfound' := ((hread' _ hlisted').2 hplain).1
  rw [hname] at hfound hfound'
  exact ⟨hclasses, hfound, hclasses', hfound'⟩

open Specimen in
theorem ClassInput.classes_dotted :
    dottedTree.IsTree ∧ ("a.b.class", some [1]) ∈ (ClassInput.directory dottedTree).listedFiles ∧
    (ClassInput.directory dottedTree).classes = .ok ["a/b", "a/b"] ∧
    ClassPath.open? places "dotted" [] = .ok ⟨[.directory dottedTree]⟩ ∧
    ClassPath.source ⟨[.directory dottedTree]⟩ (ClassName.internal "a.b.class")
      = .ok (some [2]) :=
  ⟨isTree_dottedTree, by decide +kernel,
    ClassInput.classes_of_sorted (by decide +kernel) (by decide), ClassPath.open?_nil rfl,
    by decide +kernel⟩

end BytecodeMutation
