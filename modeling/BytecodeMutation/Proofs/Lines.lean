import BytecodeMutation.Proofs.Fixpoint
import BytecodeMutation.Proofs.Ranges
import BytecodeMutation.Proofs.Visit

namespace BytecodeMutation

namespace ScanState

variable {holds holds' : Nat → Bool} {size o o' : Nat} {lines : Array LineEntry}

theorem searchFrom_bounds (holds : Nat → Bool) (base size : Nat) (h : 0 < size) :
    base ≤ searchFrom holds base size ∧ searchFrom holds base size < base + size := by
  fun_induction searchFrom holds base size with
  | case1 base size hle => omega
  | case2 base size hgt half ih =>
      have hrest := ih (by omega)
      cases hhalf : holds (base + half) with
      | true =>
          simp only [hhalf, if_true, dite_true] at hrest ⊢
          omega
      | false =>
          simp only [hhalf, Bool.false_eq_true, if_false, dite_false] at hrest ⊢
          omega

theorem partitionPoint_le (holds : Nat → Bool) (size : Nat) : partitionPoint holds size ≤ size := by
  unfold partitionPoint
  split
  · omega
  · rename_i hpos
    have hu := (searchFrom_bounds holds 0 size (by omega)).2
    simp only
    split <;> omega

theorem searchFrom_eq_zero (hsub : ∀ i, holds i = true → holds' i = true)
    (h : searchFrom holds' 0 size = 0) : searchFrom holds 0 size = 0 := by
  induction size using Nat.strongRecOn with
  | ind size ih =>
      unfold searchFrom at h ⊢
      split at h
      · rename_i hle
        rw [if_pos hle]
      · rename_i hgt
        rw [if_neg hgt]
        simp only [Nat.zero_add] at h ⊢
        cases hhalf : holds' (size / 2) with
        | true =>
            rw [hhalf, if_pos rfl] at h
            have hl := (searchFrom_bounds holds' (size / 2) (size - size / 2) (by omega)).1
            omega
        | false =>
            have hfalse : holds (size / 2) = false := by
              rw [Bool.eq_false_iff]
              intro htrue
              rw [hsub _ htrue] at hhalf
              cases hhalf
            rw [hhalf, if_neg Bool.false_ne_true] at h
            rw [hfalse, if_neg Bool.false_ne_true]
            exact ih (size - size / 2) (by omega) h

theorem partitionPoint_eq_zero (hsub : ∀ i, holds i = true → holds' i = true)
    (h : partitionPoint holds' size = 0) : partitionPoint holds size = 0 := by
  unfold partitionPoint at h ⊢
  split at h
  · rename_i hzero
    rw [if_pos hzero]
  · rename_i hpos
    rw [if_neg hpos]
    simp only at h ⊢
    split at h
    · cases h
    · rename_i hfirst
      rw [searchFrom_eq_zero hsub h]
      rw [h] at hfirst
      exact if_neg fun htrue => hfirst (hsub 0 htrue)

theorem lineAt?_eq_none :
    lineAt? lines o = none ↔ partitionPoint (startsBy lines o) lines.size = 0 := by
  have hle := partitionPoint_le (startsBy lines o) lines.size
  unfold lineAt?
  simp only
  split
  · rename_i hzero
    exact iff_of_true rfl hzero
  · rename_i hpos
    refine iff_of_false ?_ hpos
    rw [Array.getElem?_eq_getElem (by omega)]
    exact nofun

theorem lineAt?_eq_none_of_le (hle : o ≤ o') (h : lineAt? lines o' = none) :
    lineAt? lines o = none := by
  rw [lineAt?_eq_none] at h ⊢
  refine partitionPoint_eq_zero (fun i hi => ?_) h
  simp only [startsBy, Option.any_eq_true, decide_eq_true_eq] at hi ⊢
  obtain ⟨e, he, hstart⟩ := hi
  exact ⟨e, he, Nat.le_trans hstart hle⟩

theorem lineAt?_map {es : List LineEntry} {f : LineEntry → LineEntry}
    (hline : ∀ e ∈ es, (f e).line = e.line) (hstart : ∀ e ∈ es, (f e).start ≤ o' ↔ e.start ≤ o) :
    lineAt? (es.map f).toArray o' = lineAt? es.toArray o := by
  have hholds : startsBy (es.map f).toArray o' = startsBy es.toArray o := by
    funext i
    simp only [startsBy, List.getElem?_toArray, List.getElem?_map]
    cases he : es[i]? with
    | none => rfl
    | some e =>
        simp only [Option.map_some, Option.any_some]
        exact decide_eq_decide.2 (hstart e (List.mem_of_getElem? he))
  have hget : ∀ i : Nat, (es.map f)[i]?.map (·.line) = es[i]?.map (·.line) := by
    intro i
    rw [List.getElem?_map]
    cases he : es[i]? with
    | none => rfl
    | some e => exact congrArg some (hline e (List.mem_of_getElem? he))
  simp only [lineAt?, hholds, List.size_toArray, List.length_map, List.getElem?_toArray, hget]

def advanceAll (st : ScanState) (sites : List Site) : ScanState :=
  sites.zipIdx.foldl (fun st d => st.advance d.2 d.1.offset) st

theorem line_advanceAll (st : ScanState) (sites : List Site) : (st.advanceAll sites).line =
    sites.foldl (fun line s => (lineAt? st.lines s.offset).or line) st.line := by
  have hfrom : ∀ (sites : List Site) (st : ScanState) (k : Nat),
      ((sites.zipIdx k).foldl (fun st d => st.advance d.2 d.1.offset) st).line =
        sites.foldl (fun line s => (lineAt? st.lines s.offset).or line) st.line := by
    intro sites
    induction sites with
    | nil => exact fun _ _ => rfl
    | cons s sites ih =>
        intro st k
        rw [List.zipIdx_cons, List.foldl_cons, List.foldl_cons, ih]
        rfl
  exact hfrom sites st 0

end ScanState

namespace Scan

variable {lines : Array LineEntry} {sites : List Site} {s : Site}

theorem lineAfter_eq_none (h : ∀ s ∈ sites, ScanState.lineAt? lines s.offset = none) :
    lineAfter lines sites = none := by
  unfold lineAfter
  induction sites with
  | nil => rfl
  | cons s sites ih =>
      obtain ⟨hs, hsites⟩ := List.forall_mem_cons.1 h
      rw [List.foldl_cons, hs]
      exact ih hsites

theorem lineAfter_ascending (h : ∀ s' ∈ sites, s'.offset ≤ s.offset) :
    lineAfter lines (sites ++ [s]) = ScanState.lineAt? lines s.offset := by
  rw [lineAfter_concat]
  cases hline : ScanState.lineAt? lines s.offset with
  | some line => rfl
  | none =>
      rw [Option.none_or]
      exact lineAfter_eq_none fun s' hs' => ScanState.lineAt?_eq_none_of_le (h s' hs') hline

variable (c : Class) (m : Method) (k : Nat)

def lineOf : Option Nat :=
  ((start c m (.ofMethod m) none).advanceAll (m.code.take (k + 1))).line

theorem lineOf_eq : lineOf c m k = lineAfter m.lines.toArray (m.code.take (k + 1)) := by
  rw [lineOf, ScanState.line_advanceAll]
  rfl

end Scan

theorem Method.IsRead.lineAfter_take {m : Method} (h : m.IsRead) {k : Nat} {s : Site}
    (hs : m.code[k]? = some s) (lines : Array LineEntry) :
    Scan.lineAfter lines (m.code.take (k + 1)) = ScanState.lineAt? lines s.offset := by
  obtain ⟨hk, rfl⟩ := List.getElem?_eq_some_iff.1 hs
  rw [List.take_succ_eq_append_getElem hk]
  refine Scan.lineAfter_ascending fun s' hs' => ?_
  obtain ⟨j, hj, rfl⟩ := List.mem_take_iff_getElem.1 hs'
  have hlt : j < k := by omega
  exact Nat.le_of_lt (h.offset_lt_of_lt (List.getElem?_eq_getElem (by omega)) hs hlt)

def Attribute.lines : Attribute → List LineEntry
  | .lineNumbers entries => entries
  | _ => []

theorem Method.linesOf_eq (xs : List Attribute) :
    linesOf xs = (xs.flatMap Attribute.lines).mergeSort fun a b => a.start ≤ b.start := rfl

def LineEntry.move (map : OffsetMap) (e : LineEntry) : LineEntry := ⟨map[e.start]?.getD 0, e.line⟩

namespace LineTable

variable {map : OffsetMap} {es : List Entry}

def Entry.toLine (e : Entry) : LineEntry := ⟨e.start.toNat, e.line.toNat⟩

theorem map_toLine_move (hm : map.IsShort)
    (h : ∀ e ∈ es, ∃ t : Nat, map[e.start.toNat]? = some t) :
    (es.filterMap (Entry.move? map)).map Entry.toLine
      = (es.map Entry.toLine).map (LineEntry.move map) := by
  induction es with
  | nil => rfl
  | cons e es ih =>
      obtain ⟨⟨t, ht⟩, hes⟩ := List.forall_mem_cons.1 h
      have hmove : Entry.move? map e = some ⟨.ofNat t, e.line⟩ := by
        simp only [Entry.move?, OffsetMap.image, ht]
      have hline : Entry.toLine ⟨.ofNat t, e.line⟩ = e.toLine.move map := by
        simp only [Entry.toLine, LineEntry.move, ht, Option.getD_some, UInt16.toNat_ofNat',
          Nat.mod_eq_of_lt (hm ht)]
      rw [List.filterMap_cons_some hmove, List.map_cons, List.map_cons, List.map_cons, ih hes,
        hline]

theorem counted_writeAll (hlt : es.length < 65536) :
    Reader.counted Entry.read (writeAll es) = .ok (es, []) :=
  (Reader.counted_iff Entry.read_iff).2
    ⟨⟨hlt, fun _ _ => trivial⟩, (List.append_nil _).symm⟩

theorem writeAll_inj {es' : List Entry} (hlt : es.length < 65536) (hlt' : es'.length < 65536)
    (h : writeAll es = writeAll es') : es = es' := by
  have hread := counted_writeAll hlt
  rw [h, counted_writeAll hlt'] at hread
  exact (congrArg Prod.fst (Except.ok.inj hread)).symm

theorem move_writeAll {moved : Bytes} (hlt : es.length < 65536)
    (h : move map (writeAll es) = .ok moved) :
    moved = writeAll (es.filterMap (Entry.move? map)) := by
  obtain ⟨⟨es', rest⟩, hread, h⟩ := Result.bind_ok.1 h
  cases h
  cases hread.symm.trans (counted_writeAll hlt)
  rfl

end LineTable

namespace RawAttribute

variable {p : Pool} {a : RawAttribute} {x : Attribute}

theorem lines_of_name (h : a.ReadsAs p x) (hname : p.utf8 a.name = .ok "LineNumberTable") :
    ∃ es, es.length < 65536 ∧ a.body = LineTable.writeAll es ∧
      x.lines = es.map LineTable.Entry.toLine := by
  obtain ⟨name, hname', hbody⟩ := h
  obtain rfl := Except.ok.inj (hname.symm.trans hname')
  obtain ⟨entries, t, hread, hx⟩ := Reader.bind_ok.1 hbody
  obtain ⟨rfl, rfl⟩ := Reader.pure_ok.1 hx
  have hentry : ∀ {s : Bytes} {e : LineEntry} {t : Bytes}, Attribute.lineEntry s = .ok (e, t) →
      ∃ b : LineTable.Entry, s = b.write ++ t ∧ b.toLine = e := by
    intro s e t he
    simp only [Attribute.lineEntry, Reader.bind_ok, Reader.pure_ok, Reader.u2_iff] at he
    obtain ⟨start, _, rfl, line, _, rfl, rfl, rfl⟩ := he
    exact ⟨⟨start, line⟩, by simp [LineTable.Entry.write], rfl⟩
  obtain ⟨es, hlt, hwrite, hes⟩ := Reader.forall₂_counted hentry hread
  rw [List.append_nil] at hwrite
  refine ⟨es, hlt, hwrite, ?_⟩
  rw [← List.forall₂_map_left_iff (f := LineTable.Entry.toLine), List.forall₂_eq_eq_eq] at hes
  exact hes.symm

theorem lines_eq_nil (h : a.ReadsAs p x) (hname : p.utf8 a.name ≠ .ok "LineNumberTable") :
    x.lines = [] := by
  obtain ⟨name, hname', hbody⟩ := h
  unfold Attribute.readBody at hbody
  split at hbody
  · simp only [Reader.bind_ok, Reader.pure_ok] at hbody
    obtain ⟨_, _, -, _, _, -, _, _, -, _, _, -, _, _, -, rfl, -⟩ := hbody
    rfl
  · exact absurd hname' hname
  · obtain ⟨_, _, -, hx⟩ := Reader.bind_ok.1 hbody
    rw [← (Reader.pure_ok.1 hx).1]
    rfl
  · obtain ⟨_, _, -, hx⟩ := Reader.bind_ok.1 hbody
    rw [← (Reader.pure_ok.1 hx).1]
    rfl

end RawAttribute

namespace Assembly

variable {l : ClassFile} {map : OffsetMap} {q q' : Pool} {a b : RawAttribute} {x z : Attribute}

theorem moveAttribute_lines {o : Option RawAttribute} (hq : q.Serves l)
    (hname : q.utf8 a.name = .ok "LineNumberTable") (h : moveAttribute l map a = .ok o) :
    ∃ body, LineTable.move map a.body = .ok body ∧ o = some ⟨a.name, body⟩ := by
  have hnamed : l.utf8? a.name = some "LineNumberTable" :=
    beq_iff_eq.1 ((hq.named (by decide) a).2 hname)
  simp only [moveAttribute, hnamed] at h
  obtain ⟨body, hbody, rfl⟩ := Result.map_ok.1 h
  exact ⟨body, hbody, rfl⟩

theorem lines_of_dropped (hq : q.Serves l) (hx : a.ReadsAs q x)
    (h : moveAttribute l map a = .ok none) : x.lines = [] := by
  refine RawAttribute.lines_eq_nil hx fun hname => ?_
  obtain ⟨body, -, ho⟩ := moveAttribute_lines hq hname h
  cases ho

theorem lines_of_moved (hm : map.IsShort) (hq : q.Serves l) (hw : q.Within q')
    (hx : a.ReadsAs q x) (hz : b.ReadsAs q' z) (h : moveAttribute l map a = .ok (some b))
    (hdefined : ∀ e ∈ x.lines, ∃ t : Nat, map[e.start]? = some t) :
    z.lines = x.lines.map (LineEntry.move map) := by
  by_cases hname : q.utf8 a.name = .ok "LineNumberTable"
  · obtain ⟨body, hbody, ho⟩ := moveAttribute_lines hq hname h
    cases ho
    obtain ⟨es, hlt, hwrite, hlines⟩ := RawAttribute.lines_of_name hx hname
    rw [hwrite] at hbody
    obtain rfl := LineTable.move_writeAll hlt hbody
    obtain ⟨es', hlt', hwrite', hlines'⟩ := RawAttribute.lines_of_name hz (hw.utf8 hname)
    rw [hlines, List.forall_mem_map] at hdefined
    have hle := List.length_filterMap_le (LineTable.Entry.move? map) es
    obtain rfl := LineTable.writeAll_inj (by omega) hlt' hwrite'
    rw [hlines', hlines, LineTable.map_toLine_move hm hdefined]
  · have hname' : q'.utf8 b.name ≠ .ok "LineNumberTable" := by
      have hsame : b.name = a.name := by
        have hmoves := (moveAttribute_ok hm h).1
        cases hmoves <;> rfl
      obtain ⟨name, hread, -⟩ := hx
      rw [hsame, hw.utf8 hread, ← hread]
      exact hname
    rw [RawAttribute.lines_eq_nil hx hname, RawAttribute.lines_eq_nil hz hname', List.map_nil]

theorem flatMap_lines {as : List RawAttribute} {os : List (Option RawAttribute)}
    {xs zs : List Attribute} (hm : map.IsShort) (hq : q.Serves l) (hw : q.Within q')
    (hos : List.Forall₂ (fun a o => moveAttribute l map a = .ok o) as os)
    (hxs : List.Forall₂ (RawAttribute.ReadsAs q) as xs)
    (hzs : List.Forall₂ (RawAttribute.ReadsAs q') (os.filterMap id) zs)
    (hdefined : ∀ e ∈ xs.flatMap Attribute.lines, ∃ t : Nat, map[e.start]? = some t) :
    zs.flatMap Attribute.lines = (xs.flatMap Attribute.lines).map (LineEntry.move map) := by
  induction hos generalizing xs zs with
  | nil =>
      cases hxs
      cases hzs
      rfl
  | @cons a o as os hmove _ ih =>
      obtain ⟨x, ys, hx, hys, rfl⟩ := List.forall₂_cons_left_iff.1 hxs
      rw [List.flatMap_cons, List.forall_mem_append] at hdefined
      obtain ⟨hfirst, hrest⟩ := hdefined
      cases o with
      | none =>
          rw [List.filterMap_cons_none rfl] at hzs
          rw [List.flatMap_cons, lines_of_dropped hq hx hmove, List.nil_append]
          exact ih hys hzs hrest
      | some b =>
          rw [List.filterMap_cons_some (f := id) rfl] at hzs
          obtain ⟨z, ws, hz, hws, rfl⟩ := List.forall₂_cons_left_iff.1 hzs
          rw [List.flatMap_cons, List.flatMap_cons, List.map_append, ih hys hws hrest,
            lines_of_moved hm hq hw hx hz hmove hfirst]

theorem linesOf_move {xs zs : List Attribute} (hi : map.IsIncreasing)
    (hdefined : ∀ e ∈ xs.flatMap Attribute.lines, ∃ t : Nat, map[e.start]? = some t)
    (h : zs.flatMap Attribute.lines = (xs.flatMap Attribute.lines).map (LineEntry.move map)) :
    Method.linesOf zs = (Method.linesOf xs).map (LineEntry.move map) := by
  rw [Method.linesOf_eq, Method.linesOf_eq, h]
  refine (List.map_mergeSort fun a ha b hb => decide_eq_decide.2 ?_).symm
  obtain ⟨s, hs⟩ := hdefined a ha
  obtain ⟨t, ht⟩ := hdefined b hb
  simp only [LineEntry.move, hs, ht, Option.getD_some]
  rcases Nat.lt_trichotomy a.start b.start with hlt | heq | hlt
  · exact iff_of_true (Nat.le_of_lt hlt) (Nat.le_of_lt (hi hs ht hlt))
  · rw [heq] at hs
    obtain rfl := Option.some.inj (hs.symm.trans ht)
    exact iff_of_true (Nat.le_of_eq heq) (Nat.le_refl _)
  · exact iff_of_false (Nat.not_le.2 hlt) (Nat.not_le.2 (hi ht hs hlt))

namespace Arranges

variable {c c' : CodeBody} {m m' : Method} {stream : List StreamItem} {tail : PoolTail}
  {pieces : List Piece} {p : Placement} {e : Emission} {s s' : Site}
  (h : Arranges l c m stream c' tail pieces p) (hlines : ∀ e ∈ m.lines, m.IsBoundary e.start)

include h hlines

theorem linesOf_new {xs zs : List Attribute} (hq : q.Serves l) (hw : q.Within q')
    (hxs : List.Forall₂ (RawAttribute.ReadsAs q) c.attributes xs)
    (hzs : List.Forall₂ (RawAttribute.ReadsAs q') c'.attributes zs)
    (hold : m.lines = Method.linesOf xs) :
    Method.linesOf zs = m.lines.map (LineEntry.move p.map) := by
  obtain ⟨os, hos, hattributes⟩ := h.recodes.attributes
  rw [hattributes] at hzs
  have hdefined : ∀ e ∈ xs.flatMap Attribute.lines, ∃ t : Nat, p.map[e.start]? = some t := by
    intro e he
    refine h.exists_map (hlines e ?_)
    rw [hold, Method.linesOf_eq, List.mem_mergeSort]
    exact he
  rw [hold]
  exact linesOf_move h.isIncreasing hdefined (flatMap_lines h.recodes.places.isShort hq hw
    (Result.mapM_ok.1 hos) hxs hzs hdefined)

theorem lineAt?_new (he : e ∈ emissions m stream p) (hs : m.code[e.ordinal]? = some s) :
    ScanState.lineAt? (m.lines.map (LineEntry.move p.map)).toArray e.offset =
      ScanState.lineAt? m.lines.toArray s.offset := by
  refine ScanState.lineAt?_map (fun _ _ => rfl) fun x hx => ?_
  obtain ⟨t, ht⟩ := h.exists_map (hlines x hx)
  simp only [LineEntry.move, ht, Option.getD_some]
  exact h.image_le_iff ht he hs

theorem lineOf_new (hread : m'.IsRead) (hmoved : m'.lines = m.lines.map (LineEntry.move p.map))
    {k : Nat} (hs' : m'.code[k]? = some s') (he : e ∈ emissions m stream p)
    (hoffset : e.offset = s'.offset) (d d' : Class) :
    Scan.lineOf d' m' k = Scan.lineOf d m e.ordinal := by
  obtain ⟨s, hs, -⟩ := h.exists_site he
  rw [Scan.lineOf_eq, Scan.lineOf_eq, hread.lineAfter_take hs', h.read.lineAfter_take hs, hmoved,
    ← hoffset, h.lineAt?_new hlines he hs]

end Arranges

/-- Where the attributes of a class end where their lengths say, and the lines of a method start at
its instructions or at the end of its code, each instruction of the new code has the line of the one
that it was emitted for. The length of a Code attribute takes four bytes, so the new class file must
be under four gigabytes. -/
theorem replaceCode_keeps_lines (name : String) (data out : Bytes) (d : Class) (l : ClassFile)
    (q : Pool) (m : Method) (stream : List StreamItem) (hparse : Class.parse data = .ok d)
    (hl : ClassFile.read data = .ok l) (hq : q.IsOf l.pool) (hexact : l.IsExact q)
    (hm : m ∈ d.methods) (hwide : ∀ s ∈ m.code, s.instruction.IsLegalWide)
    (hlines : ∀ e ∈ m.lines, m.IsBoundary e.start) (hs : InOrder m.code stream)
    (h : replaceCode name data m stream = .ok out) (hsize : out.length < 4294967296) :
    ∃ l' a' b' es, ClassFile.read out = .ok l' ∧ l'.codeOf? m.index = some a' ∧
      CodeBody.read a'.body = .ok b' ∧ Emits l'.pool.constants m stream es b'.code ∧
      (∀ d' m', Class.parse out = .ok d' → m' ∈ d'.methods → m'.index = m.index →
        ∀ k s', m'.code[k]? = some s' → ∀ e ∈ es, e.offset = s'.offset →
          Scan.lineOf d' m' k = Scan.lineOf d m e.ordinal) ∧
      (Rewrites m.code stream → ∃ d' m', Class.parse out = .ok d' ∧ m' ∈ d'.methods ∧
        m'.index = m.index ∧ m'.offsets = es.map (·.offset)) := by
  obtain ⟨l₀, a, b, b', tail, pieces, p, hl₀, ha, hb, hlength, hr, rfl⟩ :=
    assemble_ok (replaceCode_ok h)
  obtain rfl : l = l₀ := Except.ok.inj (hl.symm.trans hl₀)
  have harranges : Arranges l b m stream b' tail pieces p :=
    ⟨hr, hs, Class.isRead_of_mem hparse hm, hlength⟩
  obtain ⟨hvalid, rfl⟩ := ClassFile.read_iff.1 hl
  obtain ⟨before, after, r, as, bs, hat⟩ := codeAt_of_codeOf? ha
  obtain ⟨q', hq', hw⟩ := hq.extend hr.extends
  have hlen : b'.write.length < 4294967296 :=
    Nat.lt_of_le_of_lt (hat.length_le_write b'.write _) hsize
  obtain ⟨entries, entries', e, os, os', hsame⟩ := hat.around hvalid hq hexact hparse hm rfl
  obtain ⟨xs, e', zs, hold, hxs, he', hname, hdescriptor, hnew, hzs⟩ :=
    hat.exists_readsAs hr hq.serves hexact hb hw hlen hsame.member
  obtain ⟨hreads, hmlines⟩ := hsame.reads_method hold
  have hvalid' := (hat.valid_iff hvalid hq'.valid b'.write).2 hlen
  have hbvalid := hr.valid_code (CodeBody.read_iff.1 hb).1 hlen
  have hserves : q'.Serves ({ setCode l m.index b'.write with pool := tail.extend l.pool } :
      ClassFile) := Pool.IsOf.serves hq'
  have hcodeOf := hat.codeOf?_setCode hq.serves hserves hw (hat.exact hexact).1
  refine ⟨_, _, b', emissions m stream p, ClassFile.read_iff.2 ⟨hvalid', rfl⟩, hcodeOf,
    CodeBody.read_iff.2 ⟨hbvalid, rfl⟩, harranges.emits, ?_, ?_⟩
  · intro d' m' hd' hm' hindex k s' hs' e₀ he₀ hoffset
    have hstructure := hsame.readStructure hat hexact hserves hw hvalid' he'
    have hentry : (entries ++ e' :: entries')[m'.index]? = some e' := by
      rw [hindex, ← hat.index, hsame.earlier.length_eq, List.getElem?_append_right (Nat.le_refl _),
        Nat.sub_self, List.getElem?_cons_zero]
    obtain ⟨-, hlines'⟩ := Class.reads_entry hstructure hd' hm' hentry hnew
    rw [harranges.linesOf_new hlines hq.serves hw hxs hzs hmlines] at hlines'
    exact harranges.lineOf_new hlines (Class.isRead_of_mem hd' hm') hlines' hs' he₀ hoffset d d'
  · intro hrewrites
    have hrel : Relocates l b m stream b' tail pieces p q q' :=
      ⟨hr, hrewrites, hreads, hwide, hw, hq'⟩
    obtain ⟨m', hindex, -, -, hmethod, hm'⟩ :=
      hsame.exists_method hrel.transfers hname hdescriptor hnew
    refine ⟨_, m', hsame.parses hat hq hexact hq' hw hvalid' he' hm', ?_, hindex, ?_⟩
    · exact List.mem_filterMap.2 ⟨_, List.mem_append_right _ List.mem_cons_self, rfl⟩
    · rw [hrel.offsets_new hmethod, harranges.offsets_emissions]

end Assembly

namespace Specimen

theorem exact_twinFile :
    ∃ l q, ClassFile.read twinFile = .ok l ∧ Pool.IsOf q l.pool ∧ l.IsExact q :=
  exact_of_isExact (by decide +kernel)

theorem wide_squaring : ∀ s ∈ squaring.code, s.instruction.IsLegalWide := by
  simp [squaring, Instruction.IsLegalWide, Instruction.plain]

theorem line_squaring : Scan.lineOf twins squaring 4 = some 7 := by
  decide +kernel

end Specimen

theorem Assembly.replaceCode_keeps_lines_growing : ∃ out d' m',
    replaceCode "S" Specimen.twinFile Specimen.squaring Specimen.growing = .ok out ∧
      Class.parse out = .ok d' ∧ m' ∈ d'.methods ∧ m'.code.length = 10 ∧
      Scan.lineOf d' m' 6 = some 7 := by
  obtain ⟨l, q, hl, hq, hexact⟩ := Specimen.exact_twinFile
  obtain ⟨out, hout, hsize⟩ := Specimen.replaceCode_growing
  obtain ⟨l', a', b', es, -, -, -, hemits, hkeeps, hparses⟩ := replaceCode_keeps_lines "S"
    Specimen.twinFile out Specimen.twins l q Specimen.squaring Specimen.growing
    Specimen.parse_twinFile hl hq hexact List.mem_cons_self Specimen.wide_squaring
    (List.forall_mem_singleton.2 (.inl (by decide))) Specimen.rewrites_growing.inOrder hout
    (by omega)
  obtain ⟨d', m', hd', hm', hindex, hoffsets⟩ := hparses Specimen.rewrites_growing
  have hcount : es.length = 10 := hemits.stands.length_eq.symm
  have hcode : m'.code.length = 10 := by
    have hlength := congrArg List.length hoffsets
    rw [List.length_map, Method.offsets, List.length_map] at hlength
    omega
  have hordinal : es[6].ordinal = 4 := (hemits.stands.get (by decide) (by omega)).1
  have hoffset : es[6].offset = m'.code[6].offset := by
    have hget := congrArg (·[6]?) hoffsets
    simpa [Method.offsets, hcount, hcode] using hget.symm
  refine ⟨out, d', m', hout, hd', hm', hcode, ?_⟩
  rw [hkeeps d' m' hd' hm' hindex 6 _ (List.getElem?_eq_getElem (by omega)) es[6]
    (List.getElem_mem _) hoffset, hordinal, Specimen.line_squaring]

namespace Specimen

/-- A class whose method has its line table in the body of an attribute that has no body for whoever
goes by structure. -/
def tuckedFile : Bytes :=
  [0xca, 0xfe, 0xba, 0xbe, 0, 0, 0, 0x32, 0, 0xb, 1, 0, 4, 0x43, 0x6f, 0x64, 0x65, 1, 0, 1, 0x67,
    1, 0, 3, 0x28, 0x29, 0x49, 1, 0, 1, 0x53, 7, 0, 4, 1, 0, 1, 0x4f, 7, 0, 6, 1, 0, 0xf, 0x4c,
    0x69, 0x6e, 0x65, 0x4e, 0x75, 0x6d, 0x62, 0x65, 0x72, 0x54, 0x61, 0x62, 0x6c, 0x65, 1, 0, 0xa,
    0x45, 0x78, 0x63, 0x65, 0x70, 0x74, 0x69, 0x6f, 0x6e, 0x73, 1, 0, 0xa, 0x44, 0x65, 0x70, 0x72,
    0x65, 0x63, 0x61, 0x74, 0x65, 0x64, 0, 0x21, 0, 5, 0, 7, 0, 0, 0, 0, 0, 1, 0, 9, 0, 2, 0, 3, 0,
    2, 0, 1, 0, 0, 0, 0x28, 0, 1, 0, 0, 0, 0, 0, 2, 4, 0xac, 0, 0, 0, 2, 0, 0xa, 0, 0, 0, 0xc, 0, 8,
    0, 0, 0, 6, 0, 1, 0, 0, 0, 5, 0, 9, 0, 0, 0, 2, 0, 3, 0, 0xa, 0, 0, 0, 0, 0, 0]

def tucked : Method :=
  { index := 0, name := "g", descriptor := "()I", access := 9, codeLength := 2
    code := [⟨0, .plain Opcode.iconst1, .other⟩, ⟨1, .plain Opcode.ireturn, .other⟩]
    handlers := [], lines := [⟨0, 5⟩] }

def untucked : Method :=
  { tucked with
    codeLength := 3
    code := [⟨0, .plain Opcode.iconst1, .other⟩, ⟨1, .plain Opcode.nop, .other⟩,
      ⟨2, .plain Opcode.ireturn, .other⟩]
    lines := [] }

end Specimen

/-- A line table that stands in the body of another attribute goes with that attribute. -/
theorem Assembly.replaceCode_loses_lines :
    Class.parse Specimen.tuckedFile = .ok { Specimen.owner with methods := [Specimen.tucked] } ∧
      (∃ l, ClassFile.read Specimen.tuckedFile = .ok l ∧ l.pool.IsFull) ∧
      (∀ s ∈ Specimen.tucked.code, s.instruction.IsLegalWide) ∧
      (∀ e ∈ Specimen.tucked.lines, Specimen.tucked.IsBoundary e.start) ∧
      InOrder Specimen.tucked.code
        [.kept 0, .replaced 1 [.plain Opcode.nop, .plain Opcode.ireturn]] ∧
      (∃ out, replaceCode "S" Specimen.tuckedFile Specimen.tucked
          [.kept 0, .replaced 1 [.plain Opcode.nop, .plain Opcode.ireturn]] = .ok out ∧
        Class.parse out = .ok { Specimen.owner with methods := [Specimen.untucked] }) ∧
      (∀ d, Scan.lineOf d Specimen.tucked 1 = some 5) ∧
      ∀ d, Scan.lineOf d Specimen.untucked 2 = none := by
  have hwide : ∀ s ∈ Specimen.tucked.code, s.instruction.IsLegalWide := by
    simp [Specimen.tucked, Instruction.IsLegalWide, Instruction.plain]
  have horder : InOrder Specimen.tucked.code
      [.kept 0, .replaced 1 [.plain Opcode.nop, .plain Opcode.ireturn]] :=
    ⟨by decide, by simp⟩
  refine ⟨by decide +kernel, by decide +kernel, hwide,
    List.forall_mem_singleton.2 (.inl (by decide)), horder, by decide +kernel, fun d => ?_,
    fun d => ?_⟩
  · rw [Scan.lineOf_eq]
    decide +kernel
  · rw [Scan.lineOf_eq]
    decide +kernel

end BytecodeMutation
