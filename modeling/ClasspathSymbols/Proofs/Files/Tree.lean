import ClasspathSymbols.Proofs.Files.Spelling
import Mathlib.Data.List.Nodup

/-! # Trees of files

In a tree whatever stands somewhere stands in a directory, under a name that a file can have. Where
no ignore file is in or above a directory, a walk finds each file below it whose path fits, and what
is read at that path is the content of the file. -/
namespace ClasspathSymbols

namespace Files

structure IsFileName (name : String) : Prop where
  isName : Path.IsName name
  noZero : '\x00' ∉ name.toList
  short : name.utf8ByteSize ≤ maxNameBytes

instance (name : String) : Decidable (IsFileName name) :=
  decidable_of_iff (Path.IsName name ∧ '\x00' ∉ name.toList ∧ name.utf8ByteSize ≤ maxNameBytes)
    ⟨fun ⟨hname, hzero, hshort⟩ => ⟨hname, hzero, hshort⟩,
      fun h => ⟨h.isName, h.noZero, h.short⟩⟩

structure IsTree (fs : Files) : Prop where
  named : ∀ l ∈ fs.table.keys, ∀ name ∈ l, IsFileName name
  inside : ∀ l ∈ fs.table.keys, ∀ k < l.length, fs.isDirectoryAt (l.take k)

instance (fs : Files) : Decidable fs.IsTree :=
  decidable_of_iff ((∀ l ∈ fs.table.keys, ∀ name ∈ l, IsFileName name) ∧
      ∀ l ∈ fs.table.keys, ∀ k < l.length, fs.isDirectoryAt (l.take k))
    ⟨fun ⟨hnamed, hinside⟩ => ⟨hnamed, hinside⟩, fun h => ⟨h.named, h.inside⟩⟩

def NoRules (fs : Files) (top : Location) : Prop :=
  ∀ d, d <+: top ∨ top <+: d → ∀ content, fs.entryAt (d ++ [".ignore"]) ≠ some (.file content)

/-- A file below a directory: the names on the way down to it, and its content. -/
structure Below where
  way : List String
  content : ByteArray

instance : DecidableEq Below := fun a b =>
  decidable_of_iff (a.way = b.way ∧ a.content.data = b.content.data) <| by
    obtain ⟨way, content⟩ := a
    rw [Below.mk.injEq, ByteArray.ext_iff]

def Below.entry (b : Below) : String := "/".intercalate b.way

def Below.found (root : Path) (b : Below) : Found := ⟨root.join b.entry, b.way⟩

def asBelow (top : Location) : Location × Entry → Option Below
  | (l, .file content) =>
    let way := l.drop top.length
    if top.isPrefixOf l ∧ way ≠ [] then some ⟨way, content⟩ else none
  | (_, .directory) => none

def filesBelow (fs : Files) (top : Location) : List Below :=
  fs.table.entries.filterMap (asBelow top)

variable {fs : Files} {root : Path} {top : Location} {b : Below}

theorem isDirectoryAt_iff {l : Location} :
    fs.isDirectoryAt l ↔ fs.entryAt l = some .directory := by
  rw [isDirectoryAt]
  cases fs.entryAt l with
  | none => simp
  | some e => cases e <;> simp

theorem entryAt_append {way : List String} (h : way ≠ []) :
    fs.entryAt (top ++ way) = fs.table.get? (top ++ way) :=
  if_neg (List.append_ne_nil_of_right_ne_nil top h)

theorem noRules_of_keys (h : ∀ l ∈ fs.table.keys, l.getLast? ≠ some ".ignore") :
    fs.NoRules top := by
  intro d _ content hfile
  rw [entryAt_append (List.cons_ne_nil _ _)] at hfile
  have hkey : d ++ [".ignore"] ∈ fs.table.keys := by
    rw [Table.mem_keys, hfile]
    rfl
  exact h _ hkey List.getLast?_concat

theorem asBelow_eq_some {x : Location × Entry} :
    asBelow top x = some b ↔ x = (top ++ b.way, .file b.content) ∧ b.way ≠ [] := by
  constructor
  · intro h
    obtain ⟨l, e⟩ := x
    cases e with
    | directory => cases h
    | file content =>
      rw [asBelow] at h
      split at h
      · rename_i hin
        obtain ⟨hpre, hne⟩ := hin
        obtain rfl := Option.some.inj h
        have hl : top ++ l.drop top.length = l :=
          List.prefix_iff_eq_append.1 (List.isPrefixOf_iff_prefix.1 hpre)
        rw [hl]
        exact ⟨rfl, hne⟩
      · cases h
  · rintro ⟨rfl, hne⟩
    have hpre : top.isPrefixOf (top ++ b.way) :=
      List.isPrefixOf_iff_prefix.2 (List.prefix_append top b.way)
    rw [asBelow, List.drop_left]
    exact if_pos ⟨hpre, hne⟩

theorem mem_filesBelow :
    b ∈ fs.filesBelow top ↔ b.way ≠ [] ∧ fs.entryAt (top ++ b.way) = some (.file b.content) := by
  rw [filesBelow, List.mem_filterMap]
  simp only [asBelow_eq_some]
  constructor
  · rintro ⟨x, hmem, rfl, hne⟩
    rw [entryAt_append hne]
    exact ⟨hne, Table.mem_entries.1 hmem⟩
  · rintro ⟨hne, hentry⟩
    rw [entryAt_append hne] at hentry
    exact ⟨_, Table.mem_entries.2 hentry, rfl, hne⟩

theorem mem_keys_of_mem_filesBelow (h : b ∈ fs.filesBelow top) : top ++ b.way ∈ fs.table.keys := by
  obtain ⟨hne, hentry⟩ := mem_filesBelow.1 h
  rw [entryAt_append hne] at hentry
  rw [Table.mem_keys, hentry]
  rfl

theorem isFileName_of_mem (htree : fs.IsTree) (h : b ∈ fs.filesBelow top) :
    ∀ name ∈ b.way, IsFileName name := fun name hname =>
  htree.named _ (mem_keys_of_mem_filesBelow h) name (List.mem_append_right top hname)

theorem isName_of_mem (htree : fs.IsTree) (h : b ∈ fs.filesBelow top) :
    ∀ name ∈ b.way, Path.IsName name := fun name hname =>
  (isFileName_of_mem htree h name hname).isName

theorem isDirectoryAt_way (htree : fs.IsTree) (h : b ∈ fs.filesBelow top) {k : Nat}
    (hk : k < b.way.length) : fs.isDirectoryAt (top ++ b.way.take k) := by
  have hlen : top.length + k < (top ++ b.way).length := by
    rw [List.length_append]
    omega
  have hinside := htree.inside _ (mem_keys_of_mem_filesBelow h) _ hlen
  rwa [List.take_length_add_append] at hinside

theorem nodup_ways (fs : Files) (top : Location) : ((fs.filesBelow top).map Below.way).Nodup := by
  have hall : (fs.filesBelow top).Nodup := by
    refine (List.Nodup.of_map Prod.fst fs.table.nodup).filterMap fun x y b hx hy => ?_
    rw [(asBelow_eq_some.1 hx).1, (asBelow_eq_some.1 hy).1]
  refine hall.map_on fun b hb c hc hway => ?_
  have hbe := (mem_filesBelow.1 hb).2
  have hce := (mem_filesBelow.1 hc).2
  rw [hway, hce] at hbe
  obtain ⟨way, content⟩ := b
  cases hbe
  cases hway
  rfl

theorem nodup_entries (htree : fs.IsTree) : ((fs.filesBelow top).map Below.entry).Nodup := by
  have hnames : ∀ way ∈ (fs.filesBelow top).map Below.way, way ≠ [] ∧
      ∀ name ∈ way, Path.IsName name := by
    intro way hway
    obtain ⟨b, hb, rfl⟩ := List.mem_map.1 hway
    exact ⟨(mem_filesBelow.1 hb).1, isName_of_mem htree hb⟩
  have hentries : (fs.filesBelow top).map Below.entry =
      ((fs.filesBelow top).map Below.way).map ("/".intercalate ·) := by
    rw [List.map_map]
    rfl
  rw [hentries]
  refine (nodup_ways fs top).map_on fun way hway way' hway' heq => ?_
  obtain ⟨hne, hn⟩ := hnames way hway
  obtain ⟨hne', hn'⟩ := hnames way' hway'
  have hsegments := Path.segments_intercalate hne hn
  rw [heq, Path.segments_intercalate hne' hn'] at hsegments
  have hinjective : Function.Injective String.toList := fun _ _ h => String.toList_injective h
  exact (List.map_injective_iff.2 hinjective hsegments).symm

theorem verdictAt_eq_none {l : Location} {k : Nat}
    (h : ∀ content, fs.entryAt (l.take k ++ [".ignore"]) ≠ some (.file content))
    (isDirectory : Bool) : Ignore.verdictAt fs l isDirectory k = none := by
  rw [Ignore.verdictAt, Ignore.rulesAt]
  split
  · rename_i content hfile
    exact absurd hfile (h content)
  · rfl

theorem drops_eq_false (hrules : fs.NoRules top) (root : Path) (way : List String)
    (isDirectory : Bool) : Ignore.drops fs root top way isDirectory = false := by
  have hquiet : ∀ k, Ignore.verdictAt fs (top ++ way) isDirectory k = none := fun k =>
    verdictAt_eq_none (hrules ((top ++ way).take k)
      (List.prefix_or_prefix_of_prefix (List.take_prefix k _) (List.prefix_append top way))) _
  have hall : (List.range (top ++ way).length).reverse.findSome? (fun k =>
      if Ignore.Heeds root top way k then Ignore.verdictAt fs (top ++ way) isDirectory k
      else none) = none := by
    rw [List.findSome?_eq_none_iff]
    intro k _
    rw [hquiet, ite_self]
  dsimp only [Ignore.drops]
  rw [hall]
  rfl

theorem fits_take {way : List String} (hnames : ∀ name ∈ way, Path.IsName name)
    (hfits : Fits (root.join ("/".intercalate way))) {k : Nat} (hpos : 0 < k)
    (hk : k < way.length) : Fits (root.join ("/".intercalate (way.take k))) := by
  have htake : way.take k ≠ [] := List.ne_nil_of_length_pos (by rw [List.length_take]; omega)
  have hdrop : way.drop k ≠ [] := mt List.drop_eq_nil_iff.1 (Nat.not_le.2 hk)
  have hway : way ≠ [] := by
    rintro rfl
    exact Nat.not_lt_zero k hk
  have hsize : ("/".intercalate (way.take k)).utf8ByteSize ≤
      ("/".intercalate way).utf8ByteSize := by
    conv => rhs; rw [← List.take_append_drop k way]
    rw [String.intercalate_append_of_ne_nil htake hdrop, String.utf8ByteSize_append,
      String.utf8ByteSize_append, Nat.add_assoc]
    exact Nat.le_add_right _ _
  refine Nat.le_trans (Path.size_join_le ?_ (Path.head_intercalate hway hnames) hsize) hfits
  exact Path.head_intercalate htake fun name hname => hnames name (List.mem_of_mem_take hname)

theorem reaches_way (htree : fs.IsTree) (hrules : fs.NoRules top) (h : b ∈ fs.filesBelow top)
    (hopened : ∀ k, 0 < k → k < b.way.length →
      Fits (root.join ("/".intercalate (b.way.take k)))) : fs.reaches root top b.way := by
  rw [reaches, List.all_eq_true]
  intro k _
  dsimp only
  rw [drops_eq_false hrules, Bool.and_eq_true]
  refine ⟨?_, rfl⟩
  by_cases hinner : k + 1 < b.way.length
  · have hopen : fs.IsOpened root top (b.way.take (k + 1)) :=
      ⟨isDirectoryAt_way htree h hinner, hopened (k + 1) (Nat.succ_pos k) hinner⟩
    rw [decide_eq_true hopen, Bool.or_true]
  · rw [decide_eq_false hinner]
    rfl

/-- Without ignore files a walk gets to each file whose path fits. -/
theorem reaches_of_fits (htree : fs.IsTree) (hrules : fs.NoRules top) (h : b ∈ fs.filesBelow top)
    (hfits : Fits (root.join b.entry)) : fs.reaches root top b.way :=
  reaches_way htree hrules h fun _ => fits_take (isName_of_mem htree h) hfits

/-- A walk finds the files below the directory that it gets to. -/
theorem walk_eq_filter (hinput : ¬ root.Same standardInput) (hroot : fs.resolve root = .ok top)
    (hdir : fs.entryAt top = some .directory) :
    fs.walk root =
      ((fs.filesBelow top).filter fun b => fs.reaches root top b.way).map (Below.found root) := by
  rw [walk, if_neg hinput]
  simp only [hroot, hdir]
  rw [filesBelow, List.filter_filterMap, List.map_filterMap]
  apply List.filterMap_congr
  rintro ⟨l, e⟩ -
  cases e with
  | directory => rfl
  | file content =>
    dsimp only [foundAt, asBelow]
    by_cases hin : top.isPrefixOf l ∧ l.drop top.length ≠ []
    · rw [if_pos hin, Option.filter_some]
      by_cases hreaches : fs.reaches root top (l.drop top.length)
      · rw [if_pos ⟨hin.1, hin.2, hreaches⟩, if_pos hreaches]
        rfl
      · rw [if_neg fun h => hreaches h.2.2, if_neg hreaches]
        rfl
    · rw [if_neg fun h => hin ⟨h.1, h.2.1⟩, if_neg hin]
      rfl

theorem foldlM_way {way : List String} {l : Location} (hnames : ∀ name ∈ way, IsFileName name)
    (hinside : ∀ k < way.length, fs.isDirectoryAt (l ++ way.take k))
    (hend : fs.entryAt (l ++ way) ≠ none) :
    (way.map String.toList).foldlM fs.descend l = .ok (l ++ way) := by
  induction way generalizing l with
  | nil =>
    rw [List.append_nil]
    rfl
  | cons name way ih =>
    have hname := hnames name List.mem_cons_self
    have hstep : l ++ name :: way = (l ++ [name]) ++ way := List.append_cons l name way
    have hdir : fs.entryAt l = some .directory := by
      have hzero := hinside 0 (Nat.succ_pos _)
      rw [List.take_zero, List.append_nil] at hzero
      exact isDirectoryAt_iff.1 hzero
    have hinside' : ∀ k < way.length, fs.isDirectoryAt ((l ++ [name]) ++ way.take k) := by
      intro k hk
      have hnext := hinside (k + 1) (Nat.succ_lt_succ hk)
      rwa [List.take_succ_cons, List.append_cons] at hnext
    have hchild : fs.HasChild l (.name name) := by
      rintro text ⟨⟩
      refine ⟨hname.short, ?_⟩
      cases way with
      | nil => exact hend
      | cons next way =>
        have hnext := hinside' 0 (Nat.succ_pos _)
        rw [List.take_zero, List.append_nil] at hnext
        rw [isDirectoryAt_iff.1 hnext]
        exact Option.some_ne_none _
    rw [hstep] at hend
    rw [List.map_cons, List.foldlM_cons, (descend_some hname.isName.2).2 ⟨hdir, hchild, rfl⟩, hstep]
    exact ih (fun n hn => hnames n (List.mem_cons_of_mem name hn)) hinside' hend

theorem noZero_of_resolve {p : Path} {l : Location} (h : fs.resolve p = .ok l) :
    '\x00' ∉ p.text.toList := by
  intro hzero
  rw [resolve, if_pos (List.contains_iff_mem.2 hzero)] at h
  cases h

theorem components_way (hroot : fs.resolve root = .ok top) (hne : b.way ≠ [])
    (hnames : ∀ name ∈ b.way, Path.IsName name) :
    (root.join b.entry).components = root.components ++ b.way.map .name := by
  have hparts : (b.way.map String.toList).filterMap Path.Component.ofSegment =
      b.way.map .name := by
    rw [List.filterMap_map, ← List.filterMap_eq_map]
    exact List.filterMap_congr fun name hname => (hnames name hname).2
  rw [Below.entry, Path.components_join (resolve_eq_ok hroot).1 (Path.head_intercalate hne hnames),
    Path.segments_intercalate hne hnames, hparts]

theorem noZero_way (htree : fs.IsTree) (hroot : fs.resolve root = .ok top)
    (h : b ∈ fs.filesBelow top) : '\x00' ∉ (root.join b.entry).text.toList := by
  rw [Path.mem_text (by decide) (by decide),
    components_way hroot (mem_filesBelow.1 h).1 (isName_of_mem htree h)]
  rintro ⟨text, htext, hzero⟩
  rcases List.mem_append.1 htext with hold | hnew
  · exact noZero_of_resolve hroot ((Path.mem_text (by decide) (by decide)).2 ⟨text, hold, hzero⟩)
  · obtain ⟨name, hname, heq⟩ := List.mem_map.1 hnew
    cases heq
    exact (isFileName_of_mem htree h text hname).noZero hzero

theorem resolve_way (htree : fs.IsTree) (hroot : fs.resolve root = .ok top)
    (h : b ∈ fs.filesBelow top) (hfits : Fits (root.join b.entry)) :
    fs.resolve (root.join b.entry) = .ok (top ++ b.way) := by
  obtain ⟨hne, hentry⟩ := mem_filesBelow.1 h
  have hnames := isName_of_mem htree h
  have hzero := mt List.contains_iff_mem.1 (noZero_way htree hroot h)
  have hnotEmpty : ¬ (root.join b.entry).text = "" := by
    rw [← Path.components_eq_nil, components_way hroot hne hnames, List.append_eq_nil_iff,
      List.map_eq_nil_iff]
    exact fun hnil => hne hnil.2
  have hend : fs.entryAt (top ++ b.way) ≠ none := by
    rw [hentry]
    exact Option.some_ne_none _
  rw [resolve, if_neg hzero, if_neg (Nat.not_lt.2 hfits), if_neg hnotEmpty, Below.entry,
    foldlM_join hroot (Path.head_intercalate hne hnames), Path.segments_intercalate hne hnames]
  exact foldlM_way (isFileName_of_mem htree h) (fun k hk => isDirectoryAt_way htree h hk) hend

theorem read_way (htree : fs.IsTree) (hroot : fs.resolve root = .ok top)
    (h : b ∈ fs.filesBelow top) (hfits : Fits (root.join b.entry)) :
    fs.read (root.join b.entry) = .ok b.content := by
  rw [read, content, resolve_way htree hroot h hfits]
  dsimp only [bind, Except.bind]
  rw [(mem_filesBelow.1 h).2]

theorem read_way_of_long (htree : fs.IsTree) (hroot : fs.resolve root = .ok top)
    (h : b ∈ fs.filesBelow top) (hlong : ¬ Fits (root.join b.entry)) :
    fs.read (root.join b.entry) = .error .nameTooLong := by
  have hzero := mt List.contains_iff_mem.1 (noZero_way htree hroot h)
  rw [read, content, resolve, if_neg hzero, if_pos (Nat.lt_of_not_le hlong)]
  rfl

end Files

end ClasspathSymbols
