import BytecodeMutation.CommandLine.Run
import BytecodeMutation.Proofs.Listing
import BytecodeMutation.Proofs.Parsing

namespace BytecodeMutation

variable {source : ClassSource} {s : Settings} {c : Class} {d : Details} {id : Identifier}
  {data : Bytes} {name own path : String}

namespace ClassInput

theorem ownName_of_open? {node : Option FileNode}
    (h : open? path node = .ok (.classFile own data)) : ownName data = .ok own := by
  unfold open? at h
  split at h
  · cases h
  · dsimp only at h
    split at h
    · cases h
    · split at h
      · cases h
      · split at h
        · rename_i hown
          cases h
          exact hown
        · cases h
    · cases h

theorem name_of_ownName (hown : ownName data = .ok own) (hparse : Class.parse data = .ok c) :
    c.name = own := by
  obtain ⟨s, l, hs, -, hreads⟩ := Class.parse_iff.1 hparse
  obtain ⟨s', hs', hown⟩ := Result.bind_ok.1 hown
  obtain rfl := Except.ok.inj (hs.symm.trans hs')
  exact Except.ok.inj (hreads.name.symm.trans hown)

end ClassInput

namespace ClassPath

variable {node? : String → Option FileNode} {input : String} {entries : List String}
  {i : ClassInput} {rest : List ClassInput} {p : ClassPath}

theorem open?_congr {node?' : String → Option FileNode} (hinput : node?' input = node? input)
    (hentries : ∀ path ∈ entries, node?' path = node? path) :
    open? node?' input entries = open? node? input entries := by
  unfold open?
  rw [hinput, Result.mapM_congr fun path hpath => ?_]
  rw [hentries path (List.mem_mergeSort.1 hpath)]

theorem exists_first (h : open? node? input entries = .ok p) :
    ∃ i rest, ClassInput.open? input (node? input) = .ok i ∧ p = ⟨i :: rest⟩ := by
  obtain ⟨i, hi, h⟩ := Result.bind_ok.1 h
  obtain ⟨rest, -, h⟩ := Result.bind_ok.1 h
  exact ⟨i, rest, hi, (Result.pure_ok.1 h).symm⟩

theorem source_of_first (h : i.read name = .ok (some data)) :
    ClassPath.source ⟨i :: rest⟩ name = .ok (some data) :=
  Result.bind_ok.2 ⟨some data, h, rfl⟩

end ClassPath

namespace Engine

theorem exists_class_of_find {ds : List Details} (hfind : find source s name = .ok ds)
    (hd : d ∈ ds) : ∃ data c, source (ClassName.internal name) = .ok (some data) ∧
      Class.parse data = .ok c ∧ d.id.location.className = c.name := by
  rcases find_ok.1 hfind with ⟨-, rfl⟩ | ⟨data, c, hread, hparse, hclass⟩
  · cases hd
  · obtain ⟨m, -, o, -, hl, -⟩ := findInClass_listed hclass hd
    refine ⟨data, c, hread, hparse, ?_⟩
    rw [hl.id]
    rfl

theorem applyTo_ne_classNotFound {missing : String} :
    applyTo name c id ≠ .error (.classNotFound missing) := by
  intro h
  unfold applyTo at h
  split at h
  · cases h
  · split at h
    · cases h
    · split at h
      · rename_i hv
        cases h
        obtain ⟨o, l, i, fault, he⟩ := Scan.visit_error hv
        cases he
      · split at h
        · cases h
        · split at h <;> cases h

theorem mutant_ne_classNotFound {missing : String}
    (hread : source (ClassName.internal id.location.className) = .ok (some data)) :
    mutant source id ≠ .error (.classNotFound missing) := by
  intro h
  rw [mutant_eq_prepare, Result.bind_error] at h
  rcases h with h | ⟨p, -, h⟩
  · simp only [prepare, read, hread, Except.mapError, Result.bind_error] at h
    rcases h with h | ⟨_, hfound, h⟩
    · cases h
    · cases hfound
      rcases Result.bind_error.1 h with h | ⟨c, -, h⟩
      · obtain ⟨fault, -, hfault⟩ := Result.mapError_error.1 h
        rcases ofFault_eq (ClassName.internal id.location.className) fault with he | he
        · cases he.symm.trans hfault
        · cases he.symm.trans hfault
      · rcases Result.bind_error.1 h with h | ⟨a, -, h⟩
        · exact applyTo_ne_classNotFound h
        · cases h
  · rcases replaceCode_error (Result.map_error.1 h) with ⟨l, he⟩ | ⟨fault, he⟩ | he
    · cases he
    · cases he
    · cases he

end Engine

namespace CommandLine

structure FoundUnder (source : ClassSource) (s : Settings) (name : String) (data : Bytes)
    (c : Class) (d : Details) : Prop where
  read : source (ClassName.internal name) = .ok (some data)
  parse : Class.parse data = .ok c
  found : ∃ ds, Engine.find source s name = .ok ds ∧ d ∈ ds
  named : d.id.location.className = c.name

structure SeesAgain (w : World) (o : ListOptions) (listed : ClassInput) (name : String)
    (w' : World) (a : ApplyOptions) : Prop where
  input : a.input = o.input
  node : w'.node? o.input = w.node? o.input
  classes : (a.classpath = o.classpath ∧ ∀ path ∈ o.classpath, w'.node? path = w.node? path) ∨
    ∃ data, listed.read (ClassName.internal name) = .ok (some data)

/-- A request for a mutant reads a class from given bytes, and what it makes is made of them. -/
structure AnswersFrom (w : World) (a : ApplyOptions) (id : Identifier) (data : Bytes)
    (c : Class) : Prop where
  read : ∀ path, openPath w a.input a.classpath = .ok path →
    path.source (ClassName.internal id.location.className) = .ok (some data)
  found : ∀ name, makeMutant w a ≠ .error (.apply id (.classNotFound name))
  made : ∀ made, makeMutant w a = .ok made → ∃ p : Engine.Application,
    Engine.applyTo (ClassName.internal c.name) c id = .ok p ∧ made.details = p.details ∧
      Assembly.replaceCode c.name data p.method p.stream = .ok made.bytes

variable {w w' : World} {o : ListOptions} {a : ApplyOptions}

theorem findAll_ok {r : Report} (h : findAll w o = .ok (s, r)) (hd : d ∈ r.mutations) :
    ∃ input path names name ds, ClassInput.open? o.input (w.node? o.input) = .ok input ∧
      openPath w o.input o.classpath = .ok path ∧ input.classes = .ok names ∧ name ∈ names ∧
      Engine.find path.source s name = .ok ds ∧ d ∈ ds := by
  simp only [findAll, listInput, scan, Result.bind_ok, Result.pure_ok, Result.mapError_ok,
    Prod.mk.injEq] at h
  obtain ⟨_, -, s', -, filter, -, path, hpath, names, ⟨input, hinput, hnames⟩, r', hscan, h⟩ := h
  obtain ⟨rfl, rfl⟩ := h
  obtain ⟨found, hfound, rfl⟩ := hscan
  obtain ⟨ds, hds, hd⟩ := List.mem_flatten.1 hd
  obtain ⟨name, hname, hfind⟩ := Result.exists_of_mem_mapM hfound hds
  exact ⟨input, path, names, name, ds, hinput, hpath, hnames, (List.mem_filter.1 hname).1,
    Result.mapError_ok.1 hfind, hd⟩

theorem requirePaths_error {input : String} {classpath : List String} {f : Failure}
    (h : requirePaths w input classpath = .error f) :
    ∃ path, f = .inputMissing path ∨ f = .classpathMissing path := by
  unfold requirePaths at h
  split at h
  · cases h
    exact ⟨_, .inl rfl⟩
  · split at h
    · cases h
      exact ⟨_, .inr rfl⟩
    · cases h

theorem settingsFor_error {config : Option String} {mutators : List String} {f : Failure}
    (h : settingsFor w config mutators = .error f) : (∃ e, f = .settings e) ∨
      ∃ path, f = .configUnreadable path ∨ f = .configMalformed path := by
  rcases Result.bind_error.1 h with h | ⟨c, -, h⟩
  · unfold readConfig at h
    split at h
    · cases h
    · split at h
      · cases h
        exact .inr ⟨_, .inl rfl⟩
      · split at h
        · cases h
        · cases h
          exact .inr ⟨_, .inr rfl⟩
  · obtain ⟨e, -, rfl⟩ := Result.mapError_error.1 h
    exact .inl ⟨e, rfl⟩

theorem makeMutant_error {e : EngineError} (hid : identifierFrom w a.id = .ok id)
    (h : makeMutant w a = .error (.apply id e)) : ∃ path,
      openPath w a.input a.classpath = .ok path ∧ Engine.mutant path.source id = .error e := by
  rcases Result.bind_error.1 h with h | ⟨_, -, h⟩
  · obtain ⟨path, hf | hf⟩ := requirePaths_error h <;> cases hf
  rcases Result.bind_error.1 h with h | ⟨s, -, h⟩
  · obtain ⟨e, hf⟩ | ⟨path, hf | hf⟩ := settingsFor_error h <;> cases hf
  rcases Result.bind_error.1 h with h | ⟨id', hid', h⟩
  · rw [hid] at h
    cases h
  obtain rfl := Except.ok.inj (hid.symm.trans hid')
  rcases Result.bind_error.1 h with h | ⟨path, hpath, h⟩
  · obtain ⟨e, -, hf⟩ := Result.mapError_error.1 h
    cases hf
  · obtain ⟨e', he', hf⟩ := Result.mapError_error.1 h
    cases hf
    exact ⟨path, hpath, he'⟩

theorem answersFrom_of_read (hid : identifierFrom w a.id = .ok id)
    (hname : id.location.className = c.name) (hparse : Class.parse data = .ok c)
    (hread : ∀ path, openPath w a.input a.classpath = .ok path →
      path.source (ClassName.internal id.location.className) = .ok (some data)) :
    AnswersFrom w a id data c where
  read := hread
  found := by
    intro name h
    obtain ⟨path, hpath, h⟩ := makeMutant_error hid h
    exact Engine.mutant_ne_classNotFound (hread path hpath) h
  made := by
    intro made h
    simp only [makeMutant, Result.bind_ok] at h
    obtain ⟨_, -, _, -, id', hid', path, hpath, h⟩ := h
    obtain rfl := Except.ok.inj (hid.symm.trans hid')
    obtain ⟨p, hp, hbytes, hdetails⟩ :=
      (Engine.mutant_ok (hread path hpath) hparse).1 (Result.mapError_ok.1 h)
    rw [hname] at hp
    exact ⟨p, hp, hdetails, hbytes⟩

theorem SeesAgain.source_eq {input : ClassInput} {path path' : ClassPath}
    (h : SeesAgain w o input name w' a)
    (hinput : ClassInput.open? o.input (w.node? o.input) = .ok input)
    (hpath : openPath w o.input o.classpath = .ok path)
    (hread : path.source (ClassName.internal name) = .ok (some data))
    (hpath' : openPath w' a.input a.classpath = .ok path') :
    path'.source (ClassName.internal name) = .ok (some data) := by
  rw [h.input] at hpath'
  -- either both class paths are one, or both start with the input, which has the class
  rcases h.classes with ⟨hclasspath, hnodes⟩ | ⟨data', hdata'⟩
  · have hopen : openPath w' o.input o.classpath = openPath w o.input o.classpath :=
      congrArg (Except.mapError _) (ClassPath.open?_congr h.node hnodes)
    rw [hclasspath, hopen] at hpath'
    obtain rfl := Except.ok.inj (hpath.symm.trans hpath')
    exact hread
  · obtain ⟨i, rest, hi, rfl⟩ := ClassPath.exists_first (Result.mapError_ok.1 hpath)
    obtain ⟨i', rest', hi', rfl⟩ := ClassPath.exists_first (Result.mapError_ok.1 hpath')
    rw [h.node] at hi'
    obtain rfl := Except.ok.inj (hinput.symm.trans hi)
    obtain rfl := Except.ok.inj (hinput.symm.trans hi')
    rw [ClassPath.source_of_first hdata'] at hread ⊢
    exact hread

theorem internal_of_classFile {path : ClassPath} {names : List String} {bytes : Bytes}
    (hinput : ClassInput.open? o.input (w.node? o.input) = .ok (.classFile own bytes))
    (hpath : openPath w o.input o.classpath = .ok path)
    (hnames : (ClassInput.classFile own bytes).classes = .ok names) (hname : name ∈ names)
    (hread : path.source (ClassName.internal name) = .ok (some data))
    (hparse : Class.parse data = .ok c) : ClassName.internal c.name = ClassName.internal name := by
  have hown : name = own := by
    obtain ⟨ns, hns, rfl⟩ := Result.map_ok.1 hnames
    cases hns
    exact List.mem_singleton.1 (List.mem_mergeSort.1 hname)
  obtain ⟨i, rest, hi, rfl⟩ := ClassPath.exists_first (Result.mapError_ok.1 hpath)
  obtain rfl := Except.ok.inj (hinput.symm.trans hi)
  have hfirst : (ClassInput.classFile own bytes).read (ClassName.internal name)
      = .ok (some bytes) := by
    simp [ClassInput.read, hown, ClassName.internal_internal]
  rw [ClassPath.source_of_first hfirst] at hread
  cases hread
  rw [ClassInput.name_of_ownName (ClassInput.ownName_of_open? hinput) hparse, hown]

/-- A listed mutation was found in a class, which it names as the class does. If the input is a
single class file, or the class stands under its own name, every later request that sees the same
input is answered from the bytes that were scanned. -/
theorem listed_answered (w : World) (o : ListOptions) (s : Settings) (r : Report) (d : Details)
    (hlist : findAll w o = .ok (s, r)) (hd : d ∈ r.mutations) :
    ∃ input path names name data c, ClassInput.open? o.input (w.node? o.input) = .ok input ∧
      openPath w o.input o.classpath = .ok path ∧ input.classes = .ok names ∧ name ∈ names ∧
      FoundUnder path.source s name data c d ∧
      ((∃ own bytes, input = .classFile own bytes) ∨
          ClassName.internal c.name = ClassName.internal name →
        ∀ w' a, SeesAgain w o input name w' a → identifierFrom w' a.id = .ok d.id →
          AnswersFrom w' a d.id data c) := by
  obtain ⟨input, path, names, name, ds, hinput, hpath, hnames, hname, hfind, hds⟩ :=
    findAll_ok hlist hd
  obtain ⟨data, c, hread, hparse, hnamed⟩ := Engine.exists_class_of_find hfind hds
  refine ⟨input, path, names, name, data, c, hinput, hpath, hnames, hname,
    ⟨hread, hparse, ⟨ds, hfind, hds⟩, hnamed⟩, fun hown w' a hsees hid => ?_⟩
  have hinternal : ClassName.internal d.id.location.className = ClassName.internal name := by
    rw [hnamed]
    rcases hown with ⟨own, bytes, rfl⟩ | hown
    · exact internal_of_classFile hinput hpath hnames hname hread hparse
    · exact hown
  refine answersFrom_of_read hid hnamed hparse fun path' hpath' => ?_
  rw [hinternal]
  exact hsees.source_eq hinput hpath hread hpath'

end CommandLine

namespace Specimen

open CommandLine

def world (input : FileNode) : World where
  node? path := match path with
    | "in" => some input
    | "config" => some (.file "groovy_class_patterns = []".toUTF8.data.toList)
    | "id" => some (.file
        "[[\"S\", \"g\", \"(II)I\"], [4], \"jmutate.operators.MATH\"]".toUTF8.data.toList)
    | _ => none
  standardInput := []

def flatTree : FileNode := .directory [("S.class", .file classFile)]

def nestedTree : FileNode := .directory [("classes", flatTree)]

def listOptions : ListOptions :=
  { input := "in", classpath := [], mutators := ["MATH"], config := some "config"
    targetClasses := [], format := .json, output := none, timing := false }

def applyOptions : ApplyOptions :=
  { input := "in", classpath := [], config := some "config", id := "id", output := "out.class" }

theorem findAll_flat : (findAll (world flatTree) listOptions).map Prod.snd
    = .ok ⟨1, [multiplication]⟩ := by decide +kernel

theorem findAll_nested : (findAll (world nestedTree) listOptions).map Prod.snd
    = .ok ⟨1, [multiplication]⟩ := by decide +kernel

end Specimen

open Specimen in
theorem CommandLine.listed_answered_flat :
    AnswersFrom (world flatTree) applyOptions multiplication.id classFile owner := by
  obtain ⟨⟨s, r⟩, hlist, hr⟩ := Result.map_ok.1 findAll_flat
  obtain rfl : r = ⟨1, [multiplication]⟩ := hr
  obtain ⟨input, path, names, name, data, c, hinput, hpath, hnames, hname, hfound, hanswers⟩ :=
    listed_answered (world flatTree) listOptions s _ multiplication hlist (by decide)
  obtain rfl : input = .directory flatTree := (Except.ok.inj hinput).symm
  have hclasses : (ClassInput.directory flatTree).classes = .ok ["S"] := by decide +kernel
  obtain rfl : names = ["S"] := Except.ok.inj (hnames.symm.trans hclasses)
  obtain rfl : name = "S" := List.mem_singleton.1 hname
  have hfirst : (ClassInput.directory flatTree).read (ClassName.internal "S")
      = .ok (some classFile) := by decide +kernel
  obtain ⟨i, rest, hi, rfl⟩ := ClassPath.exists_first (Result.mapError_ok.1 hpath)
  obtain rfl := Except.ok.inj (hinput.symm.trans hi)
  have hread := hfound.read
  rw [ClassPath.source_of_first hfirst] at hread
  cases hread
  obtain rfl := Except.ok.inj (parse_classFile.symm.trans hfound.parse)
  exact hanswers (.inr rfl) (world flatTree) applyOptions
    ⟨rfl, rfl, .inl ⟨rfl, fun _ _ => rfl⟩⟩ (by decide +kernel)

open Specimen in
theorem CommandLine.listed_not_found :
    ∃ d, (∃ s r, findAll (world nestedTree) listOptions = .ok (s, r) ∧ d ∈ r.mutations) ∧
      identifierFrom (world nestedTree) applyOptions.id = .ok d.id ∧
      makeMutant (world nestedTree) applyOptions = .error (.apply d.id (.classNotFound "S")) := by
  obtain ⟨⟨s, r⟩, hlist, hr⟩ := Result.map_ok.1 findAll_nested
  obtain rfl : r = ⟨1, [multiplication]⟩ := hr
  exact ⟨multiplication, ⟨s, _, hlist, by decide⟩, by decide +kernel, by decide +kernel⟩

end BytecodeMutation
