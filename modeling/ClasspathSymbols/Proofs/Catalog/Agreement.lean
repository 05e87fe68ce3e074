import ClasspathSymbols.Proofs.Archive.Limit
import ClasspathSymbols.Proofs.Catalog
import ClasspathSymbols.Proofs.Files.Tree

/-! # An archive and a directory with one content

A directory finds class files by the extension of their paths, and an archive by how the names of
its members end. Where the archive holds the files of the directory, each under its way, both list
the same classes: the one in the order of its members, the other in the order of the paths. -/
namespace ClasspathSymbols.Catalog

open Files

def classOf (b : Below) : Option ClassEntry :=
  (BinaryName.ofEntry? b.entry).map fun name => ⟨name, b.entry, deprecatedBytes b.content⟩

def classesBelow (fs : Files) (top : Location) : List ClassEntry :=
  (fs.filesBelow top).filterMap classOf

/-- There is one member for each of the files, in whatever order. -/
def Packs (file : ByteArray) (members : List Archive.Member) (files : List Below) : Prop :=
  ∃ order : List Below, order.Perm files ∧
    List.Forall₂ (fun b m => m.name = b.entry ∧ m.Holds file b.content) order members

variable {fs : Files} {root archive : Path} {top : Location} {b : Below} {c : ClassEntry}
  {file : ByteArray} {members : List Archive.Member}

theorem classOf_eq_some (h : classOf b = some c) :
    BinaryName.ofEntry? b.entry = some c.binaryName ∧ c.entry = b.entry := by
  obtain ⟨name, hname, rfl⟩ := Option.map_eq_some_iff.1 h
  exact ⟨hname, rfl⟩

theorem suffix_of_entry {way : List String} {last : String} (hlast : way.getLast? = some last)
    (h : BinaryName.classEnding <:+ ("/".intercalate way).toList) :
    BinaryName.classEnding <:+ last.toList := by
  induction way with
  | nil => cases hlast
  | cons name rest ih =>
    by_cases hrest : rest = []
    · subst hrest
      obtain rfl := Option.some.inj hlast
      rwa [String.intercalate_singleton] at h
    · have hlast' : rest.getLast? = some last := by
        rwa [List.getLast?_cons_of_ne_nil hrest] at hlast
      rw [String.intercalate_cons_of_ne_nil hrest, String.toList_append, String.toList_append,
        List.append_assoc] at h
      have hrestSuffix : '/' :: ("/".intercalate rest).toList <:+
          name.toList ++ ("/".toList ++ ("/".intercalate rest).toList) :=
        List.suffix_append name.toList _
      by_cases hlong : BinaryName.classEnding.length ≤ ("/".intercalate rest).toList.length
      · exact ih hlast' (List.suffix_of_suffix_length_le h
          ((List.suffix_cons _ _).trans hrestSuffix) hlong)
      · -- the slash would be part of the ending
        have hshort : '/' :: ("/".intercalate rest).toList <:+ BinaryName.classEnding :=
          List.suffix_of_suffix_length_le hrestSuffix h (Nat.lt_of_not_le hlong)
        exact absurd (hshort.subset List.mem_cons_self) (by decide)

theorem extensionOf_of_suffix {name : List Char} (h : BinaryName.classEnding <:+ name)
    (hne : name ≠ BinaryName.classEnding) : Path.extensionOf name = some "class".toList := by
  obtain ⟨stem, rfl⟩ := h
  have hstem : stem ≠ [] := by
    rintro rfl
    exact hne rfl
  obtain ⟨c, cs, hcs⟩ := List.exists_cons_of_ne_nil (mt List.reverse_eq_nil_iff.1 hstem)
  have hreverse : (stem ++ BinaryName.classEnding).reverse =
      ['s', 's', 'a', 'l', 'c'] ++ '.' :: c :: cs := by
    rw [List.reverse_append, hcs]
    rfl
  have hafter : (['s', 's', 'a', 'l', 'c'] ++ '.' :: c :: cs).dropWhile (· ≠ '.') =
      '.' :: c :: cs := rfl
  have hbefore : (['s', 's', 'a', 'l', 'c'] ++ '.' :: c :: cs).takeWhile (· ≠ '.') =
      ['s', 's', 'a', 'l', 'c'] := rfl
  rw [Path.extensionOf, hreverse, hafter, hbefore]
  rfl

theorem isClassFile_of_classOf (htree : fs.IsTree) (hroot : fs.resolve root = .ok top)
    (hb : b ∈ fs.filesBelow top) (hbare : b.way.getLast? ≠ some ".class")
    (h : classOf b = some c) : isClassFile (root.join b.entry) := by
  have hne := (mem_filesBelow.1 hb).1
  have hending : BinaryName.classEnding <:+ b.entry.toList := by
    have hname := (classOf_eq_some h).1
    rw [BinaryName.ofEntry?] at hname
    split at hname
    · rename_i hsuffix
      exact List.isSuffixOf_iff_suffix.1 hsuffix
    · cases hname
  obtain ⟨last, hlast⟩ := Option.isSome_iff_exists.1 (List.getLast?_isSome.2 hne)
  have hnotBare : last.toList ≠ BinaryName.classEnding := by
    intro heq
    have hclass : last = ".class" := String.toList_injective heq
    rw [hlast, hclass] at hbare
    exact hbare rfl
  have hcomponent : (root.join b.entry).components.getLast? = some (.name last) := by
    rw [components_way hroot hne (isName_of_mem htree hb), List.getLast?_append,
      List.getLast?_map, hlast]
    rfl
  rw [isClassFile, Path.extension?, hcomponent]
  dsimp only
  rw [extensionOf_of_suffix (suffix_of_entry hlast hending) hnotBare]
  rfl

def Contains (file : ByteArray) (rows : List (String × ByteArray)) : Prop :=
  ∃ members, Archive.members file = .ok members ∧
    List.Forall₂ (fun row m => m.name = row.1 ∧ m.Holds file row.2) rows members

def classIn (archive : Path) (row : String × ByteArray) :
    Except BuildError (Option ClassEntry) :=
  match BinaryName.ofEntry? row.1 with
  | none => .ok none
  | some binaryName =>
    if row.2.size ≤ maxClassSize then .ok (some ⟨binaryName, row.1, deprecatedBytes row.2⟩)
    else .error (.io (archive.join row.1) (.data (.tooLong maxClassSize)))

theorem ofMember_of_holds {m : Archive.Member} {row : String × ByteArray} (hname : m.name = row.1)
    (hholds : m.Holds file row.2) : ofMember archive file m = classIn archive row := by
  obtain ⟨start, hstart, houtcome⟩ := hholds.outcome
  rw [ofMember, hstart, hname, classIn]
  dsimp only
  cases BinaryName.ofEntry? row.1 with
  | none => rfl
  | some name =>
    dsimp only
    rw [houtcome]
    by_cases hfits : row.2.size ≤ maxClassSize
    · rw [if_pos hfits, if_pos hfits]
    · rw [if_neg hfits, if_neg hfits]

/-- What an archive lists depends on the names and the contents of its members alone. -/
theorem ofArchive_eq_mapM {rows : List (String × ByteArray)} (hfile : fs.map archive = .ok file)
    (h : Contains file rows) :
    ofArchive fs archive = (rows.mapM (classIn archive)).map (List.filterMap id) := by
  obtain ⟨members, hmembers, hrows⟩ := h
  have hrow : members.mapM (ofMember archive file) = rows.mapM (classIn archive) := by
    clear hmembers
    induction hrows with
    | nil => rfl
    | cons hm _ ih => rw [List.mapM_cons, List.mapM_cons, ofMember_of_holds hm.1 hm.2, ih]
  rw [ofArchive, hfile]
  dsimp only [Except.mapError, bind, Except.bind]
  rw [hmembers]
  dsimp only
  rw [hrow]
  cases rows.mapM (classIn archive) <;> rfl

theorem ofArchive_eq_ok {order : List Below} (hfile : fs.map archive = .ok file)
    (hmembers : Archive.members file = .ok members)
    (hpacks : List.Forall₂ (fun b m => m.name = b.entry ∧ m.Holds file b.content) order members)
    (hsmall : ∀ b ∈ order, (classOf b).isSome → b.content.size ≤ maxClassSize) :
    ofArchive fs archive = .ok (order.filterMap classOf) := by
  have hcontains : Contains file (order.map fun b => (b.entry, b.content)) :=
    ⟨members, hmembers, List.forall₂_map_left_iff.2 hpacks⟩
  have hclass : ∀ b ∈ order, classIn archive (b.entry, b.content) = .ok (classOf b) := by
    intro b hb
    have hfits := hsmall b hb
    rw [classIn]
    cases hname : BinaryName.ofEntry? b.entry with
    | none => rw [classOf, hname, Option.map_none]
    | some name =>
      rw [classOf, hname, Option.map_some] at hfits ⊢
      exact if_pos (hfits rfl)
  have hrow : (order.map fun b => (b.entry, b.content)).mapM (classIn archive) =
      .ok (order.map classOf) := by
    rw [List.mapM_map]
    exact mapM_eq_map hclass
  rw [ofArchive_eq_mapM hfile hcontains, hrow]
  exact congrArg Except.ok List.filterMap_map

theorem names_eq_entries {order : List Below}
    (h : List.Forall₂ (fun b m => m.name = b.entry ∧ m.Holds file b.content) order members) :
    members.map Archive.Member.name = order.map Below.entry := by
  induction h with
  | nil => rfl
  | cons hm _ ih => rw [List.map_cons, List.map_cons, hm.1, ih]

theorem entries_filterMap (order : List Below) :
    (order.filterMap classOf).map ClassEntry.entry =
      (order.map Below.entry).filter fun name => (BinaryName.ofEntry? name).isSome := by
  induction order with
  | nil => rfl
  | cons b order ih =>
    rw [List.map_cons, List.filter_cons]
    cases hclass : classOf b with
    | none =>
      have hnone := Option.map_eq_none_iff.1 hclass
      rw [List.filterMap_cons_none hclass, ih, hnone]
      rfl
    | some c =>
      obtain ⟨hname, hentry⟩ := classOf_eq_some hclass
      rw [List.filterMap_cons_some hclass, List.map_cons, ih, hname, hentry]
      rfl

/-- What is asked of a directory whose classes are to be listed. -/
structure ClassTree (fs : Files) (root : Path) (top : Location) : Prop where
  tree : fs.IsTree
  notInput : ¬ root.Same standardInput
  leads : fs.resolve root = .ok top
  directory : fs.entryAt top = some .directory
  noRules : fs.NoRules top
  named : ∀ b ∈ fs.filesBelow top, b.way.getLast? ≠ some ".class"
  small : ∀ b ∈ fs.filesBelow top, (classOf b).isSome → b.content.size ≤ maxClassSize

/-- The path of each class file is one that the system takes. -/
def WithinReach (fs : Files) (root : Path) (top : Location) : Prop :=
  ∀ b ∈ fs.filesBelow top, (classOf b).isSome → Fits (root.join b.entry)

theorem ofFound_eq (fs : Files) (root : Path) (b : Below) :
    ofFound fs (b.found root) = match BinaryName.ofEntry? b.entry with
      | none => .ok none
      | some name => match fs.read (root.join b.entry) with
        | .error e => .error (.io (root.join b.entry) (.file e))
        | .ok content => .ok (some ⟨name, b.entry, deprecatedBytes content⟩) := rfl

theorem ofFound_of_none (hclass : classOf b = none) : ofFound fs (b.found root) = .ok none := by
  rw [ofFound_eq, Option.map_eq_none_iff.1 hclass]

theorem ofFound_of_fits (h : ClassTree fs root top) (hb : b ∈ fs.filesBelow top)
    (hclass : classOf b = some c) (hfits : Fits (root.join b.entry)) :
    ofFound fs (b.found root) = .ok (some c) := by
  obtain ⟨name, hname, rfl⟩ := Option.map_eq_some_iff.1 hclass
  rw [ofFound_eq, hname, read_way h.tree h.leads hb hfits]

theorem ofFound_of_long (h : ClassTree fs root top) (hb : b ∈ fs.filesBelow top)
    (hclass : classOf b = some c) (hlong : ¬ Fits (root.join b.entry)) :
    ofFound fs (b.found root) = .error (.io (root.join b.entry) (.file .nameTooLong)) := by
  obtain ⟨name, hname, rfl⟩ := Option.map_eq_some_iff.1 hclass
  rw [ofFound_eq, hname, read_way_of_long h.tree h.leads hb hlong]

theorem ofFound_found (h : ClassTree fs root top) (hreach : WithinReach fs root top)
    (hb : b ∈ fs.filesBelow top) : ofFound fs (b.found root) = .ok (classOf b) := by
  have hfits := hreach b hb
  cases hclass : classOf b with
  | none => exact ofFound_of_none hclass
  | some c =>
    rw [hclass] at hfits
    exact ofFound_of_fits h hb hclass (hfits rfl)

theorem ClassTree.walk_eq (h : ClassTree fs root top) : fs.walk root =
    ((fs.filesBelow top).filter fun b => fs.reaches root top b.way).map (Below.found root) :=
  walk_eq_filter h.notInput h.leads h.directory

theorem classes_of_walk (h : ClassTree fs root top) (hreach : WithinReach fs root top) :
    ((fs.walk root).filter fun f => isClassFile f.path).filterMap
      (fun f => (ofFound fs f).toOption.join) = classesBelow fs top := by
  rw [h.walk_eq, List.filterMap_filter, List.filterMap_map, List.filterMap_filter, classesBelow]
  apply List.filterMap_congr
  intro b hb
  have hfound : (ofFound fs (b.found root)).toOption.join = classOf b := by
    rw [ofFound_found h hreach hb]
    rfl
  rw [Function.comp_apply, hfound]
  cases hclass : classOf b with
  | none => exact (congrArg (ite _ · none) (ite_self none)).trans (ite_self none)
  | some c =>
    have hfits : Fits (root.join b.entry) := hreach b hb (by rw [hclass]; rfl)
    rw [if_pos (reaches_of_fits h.tree h.noRules hb hfits)]
    exact if_pos (isClassFile_of_classOf h.tree h.leads hb (h.named b hb) hclass)

theorem exists_of_scanned (h : ClassTree fs root top) {f : Found}
    (hf : f ∈ fs.scan root isClassFile) : ∃ b ∈ fs.filesBelow top, b.found root = f := by
  have hwalk := (mem_scan.1 hf).1
  rw [h.walk_eq] at hwalk
  obtain ⟨b, hb, hfound⟩ := List.mem_map.1 hwalk
  exact ⟨b, List.mem_of_mem_filter hb, hfound⟩

theorem ofDirectory_eq_ok (h : ClassTree fs root top) (hreach : WithinReach fs root top) :
    ofDirectory fs root =
      .ok ((fs.scan root isClassFile).filterMap fun f => (ofFound fs f).toOption.join) := by
  have hrow : (fs.scan root isClassFile).mapM (ofFound fs) =
      .ok ((fs.scan root isClassFile).map fun f => (ofFound fs f).toOption.join) := by
    apply mapM_eq_map
    intro f hf
    obtain ⟨b, hb, rfl⟩ := exists_of_scanned h hf
    rw [ofFound_found h hreach hb]
    rfl
  rw [ofDirectory, hrow]
  dsimp only [pure, Except.pure, bind, Except.bind]
  rw [List.filterMap_map]
  rfl

theorem walked_perm (h : ClassTree fs root top) (hreach : WithinReach fs root top) :
    ((fs.scan root isClassFile).filterMap fun f => (ofFound fs f).toOption.join).Perm
      (classesBelow fs top) := by
  rw [← classes_of_walk h hreach]
  exact (scan_perm fs root isClassFile).filterMap _

theorem walked_sorted (h : ClassTree fs root top) (hreach : WithinReach fs root top) :
    ((fs.scan root isClassFile).filterMap fun f => (ofFound fs f).toOption.join).Pairwise
      fun c d => (root.join c.entry).le (root.join d.entry) := by
  have hpath : ∀ f ∈ fs.scan root isClassFile, ∀ c, (ofFound fs f).toOption.join = some c →
      f.path = root.join c.entry := by
    intro f hf c hc
    obtain ⟨b, hb, rfl⟩ := exists_of_scanned h hf
    rw [ofFound_found h hreach hb] at hc
    rw [(classOf_eq_some hc).2]
    rfl
  rw [List.pairwise_filterMap]
  refine (scan_sorted fs root isClassFile).imp_of_mem fun {f g} hf hg hle c hc d hd => ?_
  rwa [← hpath f hf c hc, ← hpath g hg d hd]

theorem ofFound_error (h : ClassTree fs root top) (hb : b ∈ fs.filesBelow top) {e : BuildError}
    (he : ofFound fs (b.found root) = .error e) :
    e = .io (root.join b.entry) (.file .nameTooLong) := by
  cases hclass : classOf b with
  | none =>
    rw [ofFound_of_none hclass] at he
    cases he
  | some c =>
    by_cases hfits : Fits (root.join b.entry)
    · rw [ofFound_of_fits h hb hclass hfits] at he
      cases he
    · rw [ofFound_of_long h hb hclass hfits] at he
      exact (Except.error.inj he).symm

theorem ofDirectory_of_long (h : ClassTree fs root top) (hb : b ∈ fs.filesBelow top)
    (hreaches : fs.reaches root top b.way) (hclass : classOf b = some c)
    (hlong : ¬ Fits (root.join b.entry)) :
    ∃ p, ofDirectory fs root = .error (.io p (.file .nameTooLong)) := by
  have hscanned : b.found root ∈ fs.scan root isClassFile := by
    refine mem_scan.2 ⟨?_, isClassFile_of_classOf h.tree h.leads hb (h.named b hb) hclass⟩
    rw [h.walk_eq]
    exact List.mem_map_of_mem (List.mem_filter.2 ⟨hb, hreaches⟩)
  rw [ofDirectory]
  cases hrow : (fs.scan root isClassFile).mapM (ofFound fs) with
  | ok row =>
    obtain ⟨v, -, hv⟩ := exists_of_mapM hrow hscanned
    rw [ofFound_of_long h hb hclass hlong] at hv
    cases hv
  | error e =>
    obtain ⟨before, f, after, hscan, -, hf⟩ := mapM_eq_error.1 hrow
    have hmem : f ∈ fs.scan root isClassFile := by
      rw [hscan]
      exact List.mem_append_right _ List.mem_cons_self
    obtain ⟨b', hb', rfl⟩ := exists_of_scanned h hmem
    rw [ofFound_error h hb' hf]
    exact ⟨_, rfl⟩

/-- Two listings of the classes below a directory, one of an archive and one of the directory. -/
structure ListedAlike (fs : Files) (root : Path) (top : Location) (members : List Archive.Member)
    (packed walked : List ClassEntry) : Prop where
  alike : packed.Perm walked
  complete : packed.Perm (classesBelow fs top)
  once : (packed.map ClassEntry.entry).Nodup
  archiveOrder : packed.map ClassEntry.entry =
    (members.map Archive.Member.name).filter fun name => (BinaryName.ofEntry? name).isSome
  pathOrder : walked.Pairwise fun c d => (root.join c.entry).le (root.join d.entry)

/-- A directory and an archive that holds its files list the same classes. -/
theorem archive_and_directory_list_alike {jars : Files} (htree : ClassTree fs root top)
    (hreach : WithinReach fs root top) (hfile : jars.map archive = .ok file)
    (hmembers : Archive.members file = .ok members)
    (hpacks : Packs file members (fs.filesBelow top)) :
    ∃ packed walked, ofArchive jars archive = .ok packed ∧ ofDirectory fs root = .ok walked ∧
      ListedAlike fs root top members packed walked := by
  obtain ⟨order, hperm, hmatch⟩ := hpacks
  have hsmall : ∀ b ∈ order, (classOf b).isSome → b.content.size ≤ maxClassSize := fun b hb =>
    htree.small b (hperm.mem_iff.1 hb)
  have hcomplete : (order.filterMap classOf).Perm (classesBelow fs top) := hperm.filterMap _
  refine ⟨_, _, ofArchive_eq_ok hfile hmembers hmatch hsmall, ofDirectory_eq_ok htree hreach, ?_⟩
  constructor
  · exact hcomplete.trans (walked_perm htree hreach).symm
  · exact hcomplete
  · rw [entries_filterMap]
    refine List.Nodup.filter _ ?_
    exact (hperm.map Below.entry).nodup_iff.2 (nodup_entries htree.tree)
  · rw [entries_filterMap, names_eq_entries hmatch]
  · exact walked_sorted htree hreach

/-- Two classes, the first by path last in the archive, and a file that is no class. -/
def packedBytes : ByteArray := ⟨#[
  0x50, 0x4b, 0x03, 0x04, 0x14, 0x00, 0x00, 0x00, 0x00, 0x00, 0x00, 0x00, 0x21, 0x00, 0x00, 0x00,
  0x00, 0x00, 0x00, 0x00, 0x00, 0x00, 0x00, 0x00, 0x00, 0x00, 0x09, 0x00, 0x00, 0x00, 0x70, 0x2f,
  0x41, 0x2e, 0x63, 0x6c, 0x61, 0x73, 0x73, 0x50, 0x4b, 0x03, 0x04, 0x14, 0x00, 0x00, 0x00, 0x00,
  0x00, 0x00, 0x00, 0x21, 0x00, 0x00, 0x00, 0x00, 0x00, 0x00, 0x00, 0x00, 0x00, 0x00, 0x00, 0x00,
  0x00, 0x05, 0x00, 0x00, 0x00, 0x6e, 0x6f, 0x74, 0x65, 0x73, 0x50, 0x4b, 0x03, 0x04, 0x14, 0x00,
  0x00, 0x00, 0x00, 0x00, 0x00, 0x00, 0x21, 0x00, 0x15, 0x26, 0xdb, 0xfb, 0x01, 0x00, 0x00, 0x00,
  0x01, 0x00, 0x00, 0x00, 0x0b, 0x00, 0x00, 0x00, 0x70, 0x2f, 0x41, 0x24, 0x42, 0x2e, 0x63, 0x6c,
  0x61, 0x73, 0x73, 0x79, 0x50, 0x4b, 0x01, 0x02, 0x14, 0x03, 0x14, 0x00, 0x00, 0x00, 0x00, 0x00,
  0x00, 0x00, 0x21, 0x00, 0x00, 0x00, 0x00, 0x00, 0x00, 0x00, 0x00, 0x00, 0x00, 0x00, 0x00, 0x00,
  0x09, 0x00, 0x00, 0x00, 0x00, 0x00, 0x00, 0x00, 0x00, 0x00, 0x00, 0x00, 0x80, 0x01, 0x00, 0x00,
  0x00, 0x00, 0x70, 0x2f, 0x41, 0x2e, 0x63, 0x6c, 0x61, 0x73, 0x73, 0x50, 0x4b, 0x01, 0x02, 0x14,
  0x03, 0x14, 0x00, 0x00, 0x00, 0x00, 0x00, 0x00, 0x00, 0x21, 0x00, 0x00, 0x00, 0x00, 0x00, 0x00,
  0x00, 0x00, 0x00, 0x00, 0x00, 0x00, 0x00, 0x05, 0x00, 0x00, 0x00, 0x00, 0x00, 0x00, 0x00, 0x00,
  0x00, 0x00, 0x00, 0x80, 0x01, 0x27, 0x00, 0x00, 0x00, 0x6e, 0x6f, 0x74, 0x65, 0x73, 0x50, 0x4b,
  0x01, 0x02, 0x14, 0x03, 0x14, 0x00, 0x00, 0x00, 0x00, 0x00, 0x00, 0x00, 0x21, 0x00, 0x15, 0x26,
  0xdb, 0xfb, 0x01, 0x00, 0x00, 0x00, 0x01, 0x00, 0x00, 0x00, 0x0b, 0x00, 0x00, 0x00, 0x00, 0x00,
  0x00, 0x00, 0x00, 0x00, 0x00, 0x00, 0x80, 0x01, 0x4a, 0x00, 0x00, 0x00, 0x70, 0x2f, 0x41, 0x24,
  0x42, 0x2e, 0x63, 0x6c, 0x61, 0x73, 0x73, 0x50, 0x4b, 0x05, 0x06, 0x00, 0x00, 0x00, 0x00, 0x03,
  0x00, 0x03, 0x00, 0xa3, 0x00, 0x00, 0x00, 0x74, 0x00, 0x00, 0x00, 0x00, 0x00]⟩

def packedFiles : Files :=
  ((((Files.emptyAt []).write ["classes", "p", "A$B.class"] ⟨#[0x79]⟩).write
    ["classes", "notes"] ⟨#[]⟩).write ["classes", "p", "A.class"] ⟨#[]⟩).write
    ["a.jar"] packedBytes

theorem map_packedFiles : packedFiles.map ⟨"a.jar"⟩ = .ok packedBytes := by
  have hresolve : packedFiles.resolve ⟨"a.jar"⟩ = .ok ["a.jar"] :=
    eq_ok_of_toOption (by decide)
  have hentry : packedFiles.entryAt ["a.jar"] = some (.file packedBytes) :=
    (Table.get?_insert _ _ _ _).trans (if_pos rfl)
  exact content_eq_ok.2 ⟨_, hresolve, hentry⟩

def packedMembers : List Archive.Member := [
  ⟨"p/A.class", false, .stored, 0, 0, 0, 0, false⟩,
  ⟨"notes", false, .stored, 0, 0, 0, 39, false⟩,
  ⟨"p/A$B.class", false, .stored, 0xfbdb2615, 1, 1, 74, false⟩]

theorem members_packedBytes : Archive.members packedBytes = .ok packedMembers := by
  have hplace : Archive.directoryPlace packedBytes = .ok ⟨0, 116, 3⟩ :=
    eq_ok_of_toOption (by decide +kernel)
  -- Where each header ends is given, so that none is evaluated again for the next one.
  refine Archive.members_eq_ok hplace (Archive.readHeaders_cons 171 ?_
    (Archive.readHeaders_cons 222 ?_ (Archive.readHeaders_cons 279 ?_ rfl)))
  all_goals
    simp only [Archive.readHeader, Archive.bytesAt_eq]
    exact eq_ok_of_toOption (by decide +kernel)

def packedOrder : List Below :=
  [⟨["p", "A.class"], ⟨#[]⟩⟩, ⟨["notes"], ⟨#[]⟩⟩, ⟨["p", "A$B.class"], ⟨#[0x79]⟩⟩]

theorem filesBelow_packedFiles : packedFiles.filesBelow ["classes"] = packedOrder.reverse := by
  decide

theorem holds_packedMembers : List.Forall₂
    (fun b m => m.name = b.entry ∧ m.Holds packedBytes b.content) packedOrder packedMembers := by
  refine .cons ⟨by decide, .of_stored 39 rfl (eq_ok_of_toOption ?_) ?_ ?_⟩
    (.cons ⟨by decide, .of_stored 74 rfl (eq_ok_of_toOption ?_) ?_ ?_⟩
      (.cons ⟨by decide, .of_stored 115 rfl (eq_ok_of_toOption ?_) ?_ ?_⟩ .nil))
  all_goals try rw [Crc32.checksum_eq]
  all_goals decide +kernel

theorem packs_packedBytes :
    Packs packedBytes packedMembers (packedFiles.filesBelow ["classes"]) := by
  rw [filesBelow_packedFiles]
  exact ⟨packedOrder, (List.reverse_perm packedOrder).symm, holds_packedMembers⟩

theorem classTree_packedFiles {root : Path} (hroot : packedFiles.resolve root = .ok ["classes"]) :
    ClassTree packedFiles root ["classes"] where
  tree := by decide
  notInput h := by
    have hlocation := resolve_eq_locate hroot
    rw [locate_congr h] at hlocation
    exact absurd hlocation (by decide)
  leads := hroot
  directory := isDirectoryAt_iff.1 (by decide)
  noRules := noRules_of_keys (by decide)
  named := by
    rw [filesBelow_packedFiles]
    decide
  small := by
    rw [filesBelow_packedFiles]
    decide

theorem packed_classes_are_listed_alike :
    ClassTree packedFiles ⟨"classes"⟩ ["classes"] ∧
      WithinReach packedFiles ⟨"classes"⟩ ["classes"] ∧
      packedFiles.map ⟨"a.jar"⟩ = .ok packedBytes ∧
      Archive.members packedBytes = .ok packedMembers ∧
      Packs packedBytes packedMembers (packedFiles.filesBelow ["classes"]) ∧
      ∃ packed walked, ofArchive packedFiles ⟨"a.jar"⟩ = .ok packed ∧
        ofDirectory packedFiles ⟨"classes"⟩ = .ok walked ∧
        ListedAlike packedFiles ⟨"classes"⟩ ["classes"] packedMembers packed walked := by
  have htree : ClassTree packedFiles ⟨"classes"⟩ ["classes"] :=
    classTree_packedFiles (eq_ok_of_toOption (by decide))
  have hreach : WithinReach packedFiles ⟨"classes"⟩ ["classes"] := by
    rw [WithinReach, filesBelow_packedFiles]
    decide
  exact ⟨htree, hreach, map_packedFiles, members_packedBytes, packs_packedBytes,
    archive_and_directory_list_alike htree hreach map_packedFiles members_packedBytes
      packs_packedBytes⟩

/-- The directory with so many slashes behind it that there is no room for its class files. -/
def slashedRoot : Path := ⟨"classes" ++ String.ofList (List.replicate 4080 '/')⟩

theorem size_slashedRoot : slashedRoot.text.utf8ByteSize = 4087 := by
  rw [slashedRoot, String.utf8ByteSize_append, Path.utf8ByteSize_slashes]
  decide

theorem resolve_slashedRoot : packedFiles.resolve slashedRoot = .ok ["classes"] := by
  have hclasses : packedFiles.resolve ⟨"classes"⟩ = .ok ["classes"] :=
    eq_ok_of_toOption (by decide)
  have hfits : Fits slashedRoot := by
    rw [Fits, size_slashedRoot]
    decide
  refine resolve_of_same (Path.same_slashes ?_ _) hfits hclasses (Or.inl ?_)
  · decide
  · exact isDirectoryAt_iff.1 (by decide)

theorem not_fits_slashedRoot : ¬ Fits (slashedRoot.join "p/A.class") := by
  have hsize : slashedRoot.text.utf8ByteSize + "p/A.class".utf8ByteSize ≤
      (slashedRoot.join "p/A.class").text.utf8ByteSize := Path.size_join (by decide)
  have hrest : "p/A.class".utf8ByteSize = 9 := by decide
  rw [size_slashedRoot, hrest] at hsize
  exact Nat.not_le.2 hsize

theorem fits_slashedRoot : Fits (slashedRoot.join "p") := by
  have hsize : (slashedRoot.join "p").text.utf8ByteSize ≤
      slashedRoot.text.utf8ByteSize + 1 + "p".utf8ByteSize := Path.size_join_le_add (by decide)
  have hrest : "p".utf8ByteSize = 1 := by decide
  rw [size_slashedRoot, hrest] at hsize
  exact Nat.le_trans hsize (by decide)

theorem ofArchive_packedFiles : ofArchive packedFiles ⟨"a.jar"⟩ =
    .ok [⟨"p.A", "p/A.class", false⟩, ⟨"p.A$B", "p/A$B.class", false⟩] := by
  have hlisted : packedOrder.filterMap classOf =
      [⟨"p.A", "p/A.class", false⟩, ⟨"p.A$B", "p/A$B.class", false⟩] := by
    decide
  rw [ofArchive_eq_ok map_packedFiles members_packedBytes holds_packedMembers (by decide),
    hlisted]

theorem slashes_put_classes_out_of_reach :
    ClassTree packedFiles slashedRoot ["classes"] ∧
      packedFiles.map ⟨"a.jar"⟩ = .ok packedBytes ∧
      Archive.members packedBytes = .ok packedMembers ∧
      Packs packedBytes packedMembers (packedFiles.filesBelow ["classes"]) ∧
      ofArchive packedFiles ⟨"a.jar"⟩ =
        .ok [⟨"p.A", "p/A.class", false⟩, ⟨"p.A$B", "p/A$B.class", false⟩] ∧
      ∃ p, ofDirectory packedFiles slashedRoot = .error (.io p (.file .nameTooLong)) := by
  have htree := classTree_packedFiles resolve_slashedRoot
  have hlast : ⟨["p", "A.class"], ⟨#[]⟩⟩ ∈ packedFiles.filesBelow ["classes"] := by
    rw [filesBelow_packedFiles]
    decide
  have hopened : ∀ k, 0 < k → k < ["p", "A.class"].length →
      Fits (slashedRoot.join ("/".intercalate (["p", "A.class"].take k))) := by
    intro k hpos hk
    obtain rfl : k = 1 := Nat.le_antisymm (Nat.le_of_lt_succ hk) hpos
    have hway : "/".intercalate (["p", "A.class"].take 1) = "p" := String.intercalate_singleton
    rw [hway]
    exact fits_slashedRoot
  have hreaches := reaches_way htree.tree htree.noRules hlast hopened
  have hclass : classOf ⟨["p", "A.class"], ⟨#[]⟩⟩ = some ⟨"p.A", "p/A.class", false⟩ := by
    decide
  exact ⟨htree, map_packedFiles, members_packedBytes, packs_packedBytes, ofArchive_packedFiles,
    ofDirectory_of_long htree hlast hreaches hclass not_fits_slashedRoot⟩

def dashedFiles : Files :=
  (((Files.emptyAt []).write ["-", "p", "A$B.class"] ⟨#[0x79]⟩).write
    ["-", "notes"] ⟨#[]⟩).write ["-", "p", "A.class"] ⟨#[]⟩

theorem a_dash_hides_the_classes :
    dashedFiles.resolve standardInput = .ok ["-"] ∧
      Packs packedBytes packedMembers (dashedFiles.filesBelow ["-"]) ∧
      ofDirectory dashedFiles standardInput = .ok [] := by
  have hfiles : dashedFiles.filesBelow ["-"] = packedFiles.filesBelow ["classes"] := by
    decide
  refine ⟨eq_ok_of_toOption (by decide), hfiles ▸ packs_packedBytes, ?_⟩
  have hsame : standardInput.Same standardInput := rfl
  rw [ofDirectory, scan, walk, if_pos hsame, List.filter_nil, sortByPath, List.mergeSort_nil]
  rfl

end ClasspathSymbols.Catalog
