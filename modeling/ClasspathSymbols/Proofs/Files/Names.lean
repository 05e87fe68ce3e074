import ClasspathSymbols.Files.Walk
import ClasspathSymbols.Proofs.FirstError
import ClasspathSymbols.Proofs.Text.Parts

/-! # Names and the paths that spell them

A name is what stands for itself as a part of a path. Files are sound if they hold nothing but
names, as they do wherever a path put them. Below a directory of sound files, the path of a row of
names leads down that row. -/
namespace ClasspathSymbols

namespace Path

/-- The text stands for itself as a part of a path. -/
def IsName (text : String) : Prop :=
  '/' ∉ text.toList ∧ Component.ofSegment text.toList = some (.name text)

instance (text : String) : Decidable (IsName text) := inferInstanceAs (Decidable (_ ∧ _))

theorem not_mem_segment {p : Path} {segment : List Char} (h : segment ∈ p.segments) :
    '/' ∉ segment := Text.not_mem_part h

theorem isName_of_segment {segment : List Char} {text : String} (hs : '/' ∉ segment)
    (h : Component.ofSegment segment = some (.name text)) : IsName text := by
  have ht : text.toList = segment := by
    rw [Component.ofSegment] at h
    split at h
    · cases h
    · split at h
      · cases h
      · cases h
        exact String.toList_ofList
  exact ⟨by rwa [ht], by rwa [ht]⟩

theorem isName_of_component {p : Path} {text : String} (h : .name text ∈ p.components) :
    IsName text := by
  have hparts : .name text ∈ p.segments.filterMap Component.ofSegment := by
    rw [components] at h
    split at h
    · simpa using h
    · split at h
      · simpa using h
      · exact h
  obtain ⟨segment, hmem, hseg⟩ := List.mem_filterMap.1 hparts
  exact isName_of_segment (not_mem_segment hmem) hseg

theorem segments_intercalate {names : List String} (hne : names ≠ [])
    (h : ∀ name ∈ names, IsName name) :
    ("/".intercalate names).toList.splitOn '/' = names.map String.toList := by
  rw [String.toList_intercalate]
  apply List.splitOn_intercalate
  · intro segment hs
    obtain ⟨name, hm, rfl⟩ := List.mem_map.1 hs
    exact (h name hm).1
  · simpa using hne

theorem head_intercalate {names : List String} (hne : names ≠ [])
    (h : ∀ name ∈ names, IsName name) : ("/".intercalate names).toList.head? ≠ some '/' := by
  intro hhead
  obtain ⟨cs, hcs⟩ := List.head?_eq_some_iff.1 hhead
  have hs := segments_intercalate hne h
  rw [hcs, List.splitOn_cons_eq_if_modifyHead, if_pos (by decide)] at hs
  cases names with
  | nil => exact hne rfl
  | cons name names =>
    obtain ⟨hnil, -⟩ := List.cons.inj hs
    have hn := (h name List.mem_cons_self).2
    rw [← hnil] at hn
    cases hn

theorem segments_join {root : Path} {rest : String} (hroot : root.text ≠ "")
    (hrest : rest.toList.head? ≠ some '/') :
    ∃ front, front ≠ [] ∧ (root.segments = front ∨ root.segments = front ++ [[]]) ∧
      (root.join rest).segments = front ++ rest.toList.splitOn '/' := by
  have hlast : root.text.toList.getLast? ≠ none :=
    mt List.getLast?_eq_none_iff.1 (mt String.toList_eq_nil_iff.1 hroot)
  rw [join, if_neg hrest]
  by_cases hslash : root.text.toList.getLast? = some '/'
  · obtain ⟨pre, hpre⟩ := List.getLast?_eq_some_iff.1 hslash
    rw [if_pos (Or.inr hslash), segments, segments, String.toList_append, hpre, List.append_assoc]
    refine ⟨pre.splitOn '/', List.splitOn_ne_nil _ _, Or.inr ?_, ?_⟩
    · exact List.splitOn_append_cons_self pre []
    · exact List.splitOn_append_cons_self pre rest.toList
  · rw [if_neg (not_or.2 ⟨hlast, hslash⟩), segments, segments, String.toList_append,
      String.toList_append, List.append_assoc]
    exact ⟨_, List.splitOn_ne_nil _ _, Or.inl rfl,
      List.splitOn_append_cons_self root.text.toList rest.toList⟩

theorem isAbsolute_join {root : Path} {rest : String} (hroot : root.text ≠ "")
    (hrest : rest.toList.head? ≠ some '/') :
    (root.join rest).IsAbsolute ↔ root.IsAbsolute := by
  obtain ⟨c, cs, hcs⟩ := List.exists_cons_of_ne_nil (mt String.toList_eq_nil_iff.1 hroot)
  rw [join, if_neg hrest]
  split <;> simp [IsAbsolute, hcs]

end Path

namespace Files

open ClasspathSymbols.Path

variable {fs : Files}

theorem descend_name {l m : Location} {text : String} (ht : IsName text)
    (h : fs.descend l text.toList = .ok m) : m = l ++ [text] := by
  rw [descend] at h
  rw [ht.2] at h
  split at h
  · simp only at h
    split at h
    · cases h
    · split at h
      · cases h
      · exact (Except.ok.inj h).symm
  · cases h
  · cases h

theorem descend_empty {l m : Location} (h : fs.descend l [] = .ok m) : m = l := by
  rw [descend] at h
  split at h
  · exact (Except.ok.inj h).symm
  · cases h
  · cases h

theorem foldlM_descend {names : List String} {l m : Location}
    (hn : ∀ name ∈ names, IsName name)
    (h : (names.map String.toList).foldlM fs.descend l = .ok m) : m = l ++ names := by
  induction names generalizing l with
  | nil =>
    rw [List.append_nil]
    exact (Except.ok.inj h).symm
  | cons name names ih =>
    rw [List.map_cons, List.foldlM_cons] at h
    obtain ⟨d, hd, h⟩ := bind_eq_ok.1 h
    rw [ih (fun n hn' => hn n (List.mem_cons_of_mem name hn')) h,
      descend_name (hn name List.mem_cons_self) hd, List.append_assoc]
    rfl

theorem resolve_eq_ok {p : Path} {l : Location} (h : fs.resolve p = .ok l) :
    p.text ≠ "" ∧ p.segments.foldlM fs.descend (fs.startOf p) = .ok l := by
  rw [resolve] at h
  split at h
  · cases h
  · split at h
    · cases h
    · split at h
      · cases h
      · rename_i hne
        exact ⟨hne, h⟩

theorem foldlM_join {root : Path} {top : Location} {rest : String}
    (hroot : fs.resolve root = .ok top) (hrest : rest.toList.head? ≠ some '/') :
    (root.join rest).segments.foldlM fs.descend (fs.startOf (root.join rest)) =
      (rest.toList.splitOn '/').foldlM fs.descend top := by
  obtain ⟨hne, htop⟩ := resolve_eq_ok hroot
  obtain ⟨front, -, hfront, hjoin⟩ := segments_join hne hrest
  have hstart : fs.startOf (root.join rest) = fs.startOf root := by
    simp only [startOf, isAbsolute_join hne hrest]
  have hto : front.foldlM fs.descend (fs.startOf root) = .ok top := by
    rcases hfront with h | h
    · rwa [h] at htop
    · rw [h, List.foldlM_append] at htop
      obtain ⟨l, hl, hd⟩ := bind_eq_ok.1 htop
      rw [List.foldlM_cons] at hd
      simp only [List.foldlM_nil, bind_pure] at hd
      rwa [descend_empty hd]
  rw [hjoin, List.foldlM_append, hstart, hto]
  rfl

/-- The path of a row of names below a root leads nowhere but down that row. -/
theorem resolve_join {root : Path} {top l : Location} {names : List String}
    (hroot : fs.resolve root = .ok top) (hne : names ≠ []) (hn : ∀ name ∈ names, IsName name)
    (h : fs.resolve (root.join ("/".intercalate names)) = .ok l) : l = top ++ names := by
  obtain ⟨-, hl⟩ := resolve_eq_ok h
  rw [foldlM_join hroot (head_intercalate hne hn), segments_intercalate hne hn] at hl
  exact foldlM_descend hn hl

def Sound (fs : Files) : Prop :=
  (∀ name ∈ fs.here, IsName name) ∧ ∀ l ∈ fs.table.keys, ∀ name ∈ l, IsName name

theorem mem_keys_insert {t : Table Location Entry} {l k : Location} {e : Entry}
    (h : k ∈ (t.insert l e).keys) : k ∈ t.keys ∨ k = l := by
  simp only [Table.keys, Table.insert, Table.erase, Table.filterKeys, List.map_append,
    List.mem_append, List.mem_map, List.mem_filter, List.mem_singleton] at h ⊢
  rcases h with ⟨x, ⟨hx, -⟩, rfl⟩ | ⟨x, rfl, rfl⟩
  · exact Or.inl ⟨x, hx, rfl⟩
  · exact Or.inr rfl

theorem sound_insert (h : fs.Sound) {l : Location} (hl : ∀ name ∈ l, IsName name) (e : Entry) :
    (fs.insert l e).Sound := by
  refine ⟨h.1, ?_⟩
  intro k hk
  rcases mem_keys_insert hk with hk | rfl
  · exact h.2 k hk
  · exact hl

theorem sound_makeDirectory (h : fs.Sound) {l : Location} (hl : ∀ name ∈ l, IsName name) :
    (fs.makeDirectory l).Sound := by
  rw [makeDirectory]
  have hall : ∀ d ∈ downTo l, ∀ name ∈ d, IsName name := by
    intro d hd name hname
    obtain ⟨k, -, rfl⟩ := List.mem_map.1 hd
    exact hl name (List.mem_of_mem_take hname)
  generalize downTo l = ds at hall
  induction ds generalizing fs with
  | nil => exact h
  | cons d ds ih =>
    rw [List.foldl_cons]
    refine ih ?_ fun x hx => hall x (List.mem_cons_of_mem d hx)
    split
    · exact sound_insert h (hall d List.mem_cons_self) .directory
    · exact h

theorem sound_write (h : fs.Sound) {l : Location} (hl : ∀ name ∈ l, IsName name)
    (content : ByteArray) : (fs.write l content).Sound :=
  sound_insert (sound_makeDirectory h fun name hm => hl name (List.dropLast_subset _ hm)) hl _

theorem sound_remove (h : fs.Sound) (l : Location) : (fs.remove l).Sound := by
  refine ⟨h.1, ?_⟩
  intro k hk
  exact h.2 k ((List.filter_sublist.map _).mem hk)

theorem isName_locate (h : fs.Sound) (p : Path) : ∀ name ∈ fs.locate p, IsName name := by
  have hstart : ∀ name ∈ fs.startOf p, IsName name := by
    rw [startOf]
    split
    · intro name hm
      cases hm
    · exact h.1
  have hparts : ∀ c ∈ p.components, ∀ text, c = .name text → IsName text := by
    rintro c hc text rfl
    exact isName_of_component hc
  rw [locate]
  generalize p.components = cs at hparts
  generalize fs.startOf p = l at hstart
  induction cs generalizing l with
  | nil => exact hstart
  | cons c cs ih =>
    rw [List.foldl_cons]
    refine ih (fun d hd => hparts d (List.mem_cons_of_mem c hd)) _ ?_
    cases c with
    | root => exact hstart
    | here => exact hstart
    | up => exact fun name hm => hstart name (List.dropLast_subset _ hm)
    | name text =>
      intro name hm
      rcases List.mem_append.1 hm with hm | hm
      · exact hstart name hm
      · rw [List.mem_singleton.1 hm]
        exact hparts _ List.mem_cons_self text rfl

theorem walk_directory {root : Path} {top : Location} {f : Found}
    (hroot : fs.resolve root = .ok top) (hdir : fs.entryAt top = some .directory)
    (h : f ∈ fs.walk root) :
    f.below ≠ [] ∧ f.path = root.join ("/".intercalate f.below) ∧
      top ++ f.below ∈ fs.table.keys := by
  rw [walk] at h
  split at h
  · cases h
  simp only [hroot, hdir, List.mem_filterMap] at h
  obtain ⟨⟨l, e⟩, hmem, hf⟩ := h
  cases e with
  | directory => cases hf
  | file content =>
    simp only [foundAt] at hf
    split at hf
    · rename_i hin
      obtain ⟨hpre, hne, -⟩ := hin
      obtain rfl := Option.some.inj hf
      have hl : top ++ l.drop top.length = l :=
        List.prefix_iff_eq_append.1 (List.isPrefixOf_iff_prefix.1 hpre)
      refine ⟨hne, rfl, ?_⟩
      rw [hl]
      exact List.mem_map_of_mem hmem
    · cases hf

theorem content_eq_ok {p : Path} {e : FileError} {content : ByteArray} :
    fs.content p e = .ok content ↔
      ∃ l, fs.resolve p = .ok l ∧ fs.entryAt l = some (.file content) := by
  rw [Files.content, bind_eq_ok]
  refine exists_congr fun l => and_congr_right fun _ => ?_
  constructor
  · intro h
    split at h
    · rename_i hentry
      obtain rfl := Except.ok.inj h
      exact hentry
    · cases h
    · cases h
  · intro hentry
    rw [hentry]

theorem read_eq_ok {p : Path} {content : ByteArray} (h : fs.read p = .ok content) :
    ∃ l, fs.resolve p = .ok l ∧ fs.entryAt l = some (.file content) :=
  content_eq_ok.1 h

theorem isDirectory_iff {p : Path} :
    fs.isDirectory p ↔ ∃ l, fs.resolve p = .ok l ∧ fs.entryAt l = some .directory := by
  rw [isDirectory, entry?]
  cases fs.resolve p with
  | error e => simp
  | ok l =>
    simp only [Except.ok.injEq, exists_eq_left']
    cases fs.entryAt l with
    | none => simp
    | some e => cases e <;> simp

/-- The path is that of a file which a walk of the root found, and leads to that very file. -/
def IsWalked (fs : Files) (root p : Path) (content : ByteArray) : Prop :=
  ∃ top, fs.resolve root = .ok top ∧ ∃ f ∈ fs.walk root, f.path = p ∧
    fs.resolve p = .ok (top ++ f.below) ∧ fs.entryAt (top ++ f.below) = some (.file content)

end Files

end ClasspathSymbols
