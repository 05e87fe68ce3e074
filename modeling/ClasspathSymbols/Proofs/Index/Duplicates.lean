import ClasspathSymbols.Proofs.Classpath.Merging
import ClasspathSymbols.Proofs.Files.Reach
import ClasspathSymbols.Proofs.Index.Agreement

/-! # Duplicate roots

Of several spellings of a root a class path keeps the first. If that one is found and reaches as
far, the others declare nothing that it does not declare before them, so an index is the same with
and without them. -/
namespace ClasspathSymbols

variable {fs : Files}

namespace Item

/-- Whatever the second item declares, the first declares under the same binary name. -/
def Covers (fs : Files) (i j : Item) : Prop :=
  ∀ ds es, i.declarations fs = .ok ds → j.declarations fs = .ok es →
    ∀ e ∈ es, ∃ d ∈ ds, d.binaryName = e.binaryName

theorem covers_source {p q : Path} (h : p.Same q) : Covers fs (.source p) (.source q) := by
  intro ds es hds hes e he
  obtain ⟨a, ha, rfl⟩ := map_eq_ok.1 hds
  obtain ⟨b, hb, rfl⟩ := map_eq_ok.1 hes
  obtain rfl := Files.content_unique h (mapError_eq_ok.1 ha) (mapError_eq_ok.1 hb)
  obtain ⟨t, ht, rfl⟩ := List.mem_map.1 he
  exact ⟨_, List.mem_map_of_mem ht, rfl⟩

theorem covers_archive {p q : Path} (h : p.Same q) : Covers fs (.archive p) (.archive q) := by
  intro ds es hds hes e he
  obtain ⟨xs, hx, rfl⟩ := map_eq_ok.1 hds
  obtain ⟨ys, hy, rfl⟩ := map_eq_ok.1 hes
  obtain ⟨c, hc, rfl⟩ := List.mem_map.1 he
  obtain ⟨file, members, hfile, hmembers, m, hm, hof⟩ := Catalog.mem_ofArchive hy hc
  obtain ⟨file', hfile', -⟩ := bind_eq_ok.1 hx
  rw [mapError_eq_ok] at hfile'
  obtain rfl := Files.content_unique h hfile' hfile
  obtain ⟨hentry, hname⟩ := Catalog.ofMember_eq_some hof
  rw [hentry] at hname
  obtain ⟨d, hd, heq⟩ := Catalog.exists_of_member hx hfile' hmembers hm hname
  exact ⟨_, List.mem_map_of_mem hd, heq⟩

/-- Each of the files that a walk from the second spelling gets to, one from the first gets to. -/
def ReachesAsFar (fs : Files) (keep : Path → Bool) (p q : Path) : Prop :=
  ∀ top way, fs.resolve q = .ok top → fs.InReach q top way →
    keep (q.join ("/".intercalate way)) → fs.InReach p top way

theorem mem_scan_of_same {p q : Path} (h : p.Same q) (hp : fs.isDirectory p)
    (hq : fs.isDirectory q) {keep : Path → Bool}
    (hkeep : ∀ {a b : Path}, a.Same b → keep a = keep b)
    (hfar : ReachesAsFar fs keep p q) {f : Found} (hf : f ∈ fs.scan q keep) :
    ⟨p.join ("/".intercalate f.below), f.below⟩ ∈ fs.scan p keep ∧
      (p.join ("/".intercalate f.below)).Same f.path := by
  obtain ⟨l, hl, hdir⟩ := Files.isDirectory_iff.1 hp
  obtain ⟨m, hm, hdir'⟩ := Files.isDirectory_iff.1 hq
  obtain rfl := Files.location_unique h hl hm
  obtain ⟨hwalk, hkept⟩ := Files.mem_scan.1 hf
  obtain ⟨hinput, hreach, hpath⟩ := (Files.mem_walk_iff hm hdir').1 hwalk
  have hsame : (p.join ("/".intercalate f.below)).Same f.path := by
    rw [hpath]
    exact Path.same_join (Files.text_ne_empty_of_isDirectory hp)
      (Files.text_ne_empty_of_isDirectory hq) h _
  have hinput' : ¬ p.Same Files.standardInput := fun hp' => hinput (h.symm.trans hp')
  refine ⟨Files.mem_scan.2 ⟨(Files.mem_walk_iff hl hdir).2 ⟨hinput', ?_, rfl⟩, ?_⟩, hsame⟩
  · rw [hpath] at hkept
    exact hfar _ _ hm hreach hkept
  · rw [hkeep hsame]
    exact hkept

theorem isClassFile_congr {a b : Path} (h : a.Same b) :
    Catalog.isClassFile a = Catalog.isClassFile b := by
  rw [Catalog.isClassFile, Catalog.isClassFile, Path.extension?_congr h]

theorem isSourceFile_congr {a b : Path} (h : a.Same b) :
    Declaration.isSourceFile a = Declaration.isSourceFile b := by
  rw [Declaration.isSourceFile, Declaration.isSourceFile, Path.extension?_congr h]

theorem covers_directory {p q : Path} (h : p.Same q) (hp : fs.isDirectory p)
    (hq : fs.isDirectory q) (hfar : ReachesAsFar fs Catalog.isClassFile p q) :
    Covers fs (.directory p) (.directory q) := by
  intro ds es hds hes e he
  obtain ⟨xs, hx, rfl⟩ := map_eq_ok.1 hds
  obtain ⟨ys, hy, rfl⟩ := map_eq_ok.1 hes
  obtain ⟨c, hc, rfl⟩ := List.mem_map.1 he
  obtain ⟨f, hf, hfound⟩ := Catalog.mem_ofDirectory hy hc
  obtain ⟨hentry, hname, -⟩ := Catalog.ofFound_eq_some hfound
  rw [hentry] at hname
  have hscan := (mem_scan_of_same h hp hq isClassFile_congr hfar hf).1
  obtain ⟨d, hd, heq⟩ := Catalog.exists_of_found hx hscan hname
  exact ⟨_, List.mem_map_of_mem hd, heq⟩

def RootCovers (fs : Files) (items : Path → List Item) (p q : Path) : Prop :=
  ∀ j ∈ items q, ∃ i ∈ items p, Covers fs i j

theorem sourceRoot_covers {p q : Path} (h : p.Same q)
    (hfound : fs.isDirectory q → fs.isDirectory p)
    (hfar : fs.isDirectory q → ReachesAsFar fs Declaration.isSourceFile p q) :
    RootCovers fs (ofSourceRoot fs) p q := by
  intro j hj
  rw [ofSourceRoot] at hj
  split at hj
  · rename_i hq
    obtain ⟨f, hf, rfl⟩ := List.mem_map.1 hj
    obtain ⟨hscan, hsame⟩ := mem_scan_of_same h (hfound hq) hq isSourceFile_congr (hfar hq) hf
    rw [ofSourceRoot, if_pos (hfound hq)]
    exact ⟨_, List.mem_map_of_mem hscan, covers_source hsame⟩
  · cases hj

theorem searchRoot_covers {p q : Path} (h : p.Same q)
    (hfound : Declaration.isSearched fs q → Declaration.isSearched fs p)
    (hfar : fs.isDirectory q → ReachesAsFar fs Catalog.isClassFile p q) :
    RootCovers fs (ofSearchRoot fs) p q := by
  intro j hj
  by_cases hq : fs.isDirectory q
  · rw [ofSearchRoot, if_pos hq, List.mem_singleton] at hj
    subst hj
    have hp : fs.isDirectory p := by
      have hsearched := hfound (by rw [Declaration.isSearched, hq, Bool.true_or])
      rw [Declaration.isSearched, Bool.or_eq_true, Bool.and_eq_true] at hsearched
      rcases hsearched with hp | ⟨hfile, -⟩
      · exact hp
      · exact absurd hfile (Files.not_isFile_of_isDirectory h.symm hq)
    rw [ofSearchRoot, if_pos hp]
    exact ⟨_, List.mem_singleton_self _, covers_directory h hp hq (hfar hq)⟩
  · rw [ofSearchRoot, if_neg hq] at hj
    split at hj
    · rename_i harchive
      rw [List.mem_singleton] at hj
      subst hj
      have hfile : fs.isFile q := (Bool.and_eq_true_iff.1 harchive).1
      have hp : ¬ fs.isDirectory p := fun hp => Files.not_isFile_of_isDirectory h hp hfile
      have hsearched := hfound (by rw [Declaration.isSearched, harchive, Bool.or_true])
      rw [Declaration.isSearched, Bool.or_eq_true] at hsearched
      rw [ofSearchRoot, if_neg hp, if_pos (hsearched.resolve_left hp)]
      exact ⟨_, List.mem_singleton_self _, covers_archive h⟩
    · cases hj

end Item

namespace Index

def add (fs : Files) (ix : Index) (i : Item) : Except BuildError Index :=
  (i.declarations fs).map fun ds => ds.foldl insert ix

theorem foldlM_add (items : List Item) (ix : Index) :
    items.foldlM (add fs) ix =
      (items.mapM (Item.declarations fs)).map fun rows => rows.flatten.foldl insert ix := by
  induction items generalizing ix with
  | nil => rfl
  | cons i items ih =>
    rw [List.foldlM_cons, List.mapM_cons, add]
    cases i.declarations fs with
    | error e => rfl
    | ok ds =>
      have hrest := ih (ds.foldl insert ix)
      cases hrows : items.mapM (Item.declarations fs) with
      | error e =>
        rw [hrows] at hrest
        exact hrest
      | ok rows =>
        rw [hrows] at hrest
        exact hrest.trans (congrArg Except.ok List.foldl_append.symm)

theorem build_eq_foldlM (fs : Files) (c : Classpath) :
    build fs c = (Item.all fs c).foldlM (add fs) empty := by
  rw [foldlM_add, build, Item.ofClasspath_eq]
  cases (Item.all fs c).mapM (Item.declarations fs) <;> rfl

theorem mem_types_foldl {ds : List Declaration} {ix : Index} {n : String} :
    n ∈ (ds.foldl insert ix).types ↔ n ∈ ix.types ∨ ∃ d ∈ ds, d.sourceName = n := by
  rw [Std.TreeMap.mem_iff_isSome_getElem?, Std.TreeMap.mem_iff_isSome_getElem?,
    foldl_insert_types, Option.isSome_or, Bool.or_eq_true, List.find?_isSome]
  simp only [decide_eq_true_eq]

/-- The item has been read, and every name that it declares is in the index. -/
def Knows (fs : Files) (ix : Index) (i : Item) : Prop :=
  ∃ ds, i.declarations fs = .ok ds ∧ ∀ d ∈ ds, d.sourceName ∈ ix.types

theorem knows_of_add {ix ix' : Index} {i : Item} (h : add fs ix i = .ok ix') : ix'.Knows fs i := by
  obtain ⟨ds, hds, rfl⟩ := map_eq_ok.1 h
  exact ⟨ds, hds, fun d hd => mem_types_foldl.2 (Or.inr ⟨d, hd, rfl⟩)⟩

theorem Knows.add {ix ix' : Index} {i j : Item} (hi : ix.Knows fs i)
    (h : Index.add fs ix j = .ok ix') : ix'.Knows fs i := by
  obtain ⟨es, -, rfl⟩ := map_eq_ok.1 h
  obtain ⟨ds, hds, hall⟩ := hi
  exact ⟨ds, hds, fun d hd => mem_types_foldl.2 (Or.inl (hall d hd))⟩

theorem foldl_insert_of_known {ds : List Declaration} {ix : Index}
    (h : ∀ d ∈ ds, d.sourceName ∈ ix.types) : ds.foldl insert ix = ix := by
  induction ds with
  | nil => rfl
  | cons d ds ih =>
    rw [List.foldl_cons, insert_of_known (h d List.mem_cons_self)]
    exact ih fun e he => h e (List.mem_cons_of_mem d he)

theorem add_of_covered {ix ix' : Index} {i j : Item} (hi : ix.Knows fs i)
    (hcovers : Item.Covers fs i j) (h : add fs ix j = .ok ix') : ix' = ix := by
  obtain ⟨es, hes, rfl⟩ := map_eq_ok.1 h
  obtain ⟨ds, hds, hall⟩ := hi
  apply foldl_insert_of_known
  intro e he
  obtain ⟨d, hd, heq⟩ := hcovers ds es hds hes e he
  have hname : d.sourceName = e.sourceName := congrArg BinaryName.sourceName heq
  exact hname ▸ hall d hd

theorem foldlM_of_covered {items : List Item} {ix ix' : Index}
    (hcovered : ∀ j ∈ items, ∃ i, ix.Knows fs i ∧ Item.Covers fs i j)
    (h : items.foldlM (add fs) ix = .ok ix') : ix' = ix := by
  induction items with
  | nil => exact (Except.ok.inj h).symm
  | cons j items ih =>
    rw [List.foldlM_cons] at h
    obtain ⟨next, hnext, hrest⟩ := bind_eq_ok.1 h
    obtain ⟨i, hi, hij⟩ := hcovered j List.mem_cons_self
    rw [add_of_covered hi hij hnext] at hrest
    exact ih (fun k hk => hcovered k (List.mem_cons_of_mem j hk)) hrest

theorem Knows.foldlM {items : List Item} {ix ix' : Index} {i : Item} (hi : ix.Knows fs i)
    (h : items.foldlM (Index.add fs) ix = .ok ix') : ix'.Knows fs i := by
  induction items generalizing ix with
  | nil => exact Except.ok.inj h ▸ hi
  | cons j items ih =>
    rw [List.foldlM_cons] at h
    obtain ⟨next, hnext, hrest⟩ := bind_eq_ok.1 h
    exact ih (hi.add hnext) hrest

theorem knows_of_foldlM {items : List Item} {ix ix' : Index}
    (h : items.foldlM (add fs) ix = .ok ix') : ∀ i ∈ items, ix'.Knows fs i := by
  induction items generalizing ix with
  | nil => exact fun i hi => by cases hi
  | cons j items ih =>
    rw [List.foldlM_cons] at h
    obtain ⟨next, hnext, hrest⟩ := bind_eq_ok.1 h
    intro i hi
    rcases List.mem_cons.1 hi with rfl | hi
    · exact (knows_of_add hnext).foldlM hrest
    · exact ih hrest i hi

/-- Going on from an index that knows the items of the roots seen, the roots that repeat one of
those or of each other add nothing. -/
theorem foldlM_distinctFrom {items : Path → List Item} {roots seen : List Path} {ix ix' : Index}
    (hseen : ∀ p ∈ seen, ∀ i ∈ items p, ix.Knows fs i)
    (hcovers : ∀ p ∈ seen ++ Path.distinctFrom seen roots, ∀ q ∈ roots, p.Same q →
      Item.RootCovers fs items p q)
    (h : (roots.flatMap items).foldlM (add fs) ix = .ok ix') :
    ((Path.distinctFrom seen roots).flatMap items).foldlM (add fs) ix = .ok ix' := by
  induction roots generalizing seen ix with
  | nil => exact h
  | cons q roots ih =>
    rw [List.flatMap_cons, List.foldlM_append] at h
    obtain ⟨next, hnext, hrest⟩ := bind_eq_ok.1 h
    rw [Path.distinctFrom] at hcovers ⊢
    by_cases hany : (seen.any fun p => Path.Same q p) = true
    · rw [if_pos hany] at hcovers ⊢
      obtain ⟨p, hp, hsame⟩ := List.any_eq_true.1 hany
      have hall := hcovers p (List.mem_append_left _ hp) q List.mem_cons_self
        (of_decide_eq_true hsame).symm
      have hcovered : ∀ j ∈ items q, ∃ i, ix.Knows fs i ∧ Item.Covers fs i j := by
        intro j hj
        obtain ⟨i, hi, hij⟩ := hall j hj
        exact ⟨i, hseen p hp i hi, hij⟩
      rw [foldlM_of_covered hcovered hnext] at hrest
      exact ih hseen (fun r hr s hs => hcovers r hr s (List.mem_cons_of_mem q hs)) hrest
    · rw [if_neg hany] at hcovers ⊢
      rw [List.flatMap_cons, List.foldlM_append, hnext]
      refine ih ?_ (fun r hr s hs => hcovers r ?_ s (List.mem_cons_of_mem q hs)) hrest
      · intro p hp i hi
        rcases List.mem_cons.1 hp with rfl | hp
        · exact knows_of_foldlM hnext i hi
        · exact (hseen p hp i hi).foldlM hnext
      · simpa [or_assoc, or_left_comm] using hr

/-- Where a root is found, it is found as well under the spelling that is kept of it, and a walk of
a directory reaches as far from there. -/
def FoundFirst (fs : Files) (found keep : Path → Bool) (roots : List Path) : Prop :=
  ∀ q ∈ roots, found q → ∀ p ∈ Path.distinct roots, p.Same q →
    found p ∧ (fs.isDirectory q → Item.ReachesAsFar fs keep p q)

theorem isDirectory_of_same {p q : Path} (h : p.Same q) (hfits : Files.Fits p)
    (hq : fs.isDirectory q) : fs.isDirectory p := by
  obtain ⟨l, hl, hdir⟩ := Files.isDirectory_iff.1 hq
  exact Files.isDirectory_iff.2 ⟨l, Files.resolve_of_same h hfits hl (Or.inl hdir), hdir⟩

theorem isSearched_of_isDirectory {p : Path} (h : fs.isDirectory p) :
    Declaration.isSearched fs p := by
  rw [Declaration.isSearched, h, Bool.true_or]

/-- Every spelling of a directory is as good as the first, where each leaves room. -/
theorem foundFirst_isDirectory {keep : Path → Bool} {roots : List Path}
    (h : ∀ p ∈ roots, Files.Fits p ∧ fs.HasRoom p) : FoundFirst fs fs.isDirectory keep roots := by
  intro q hq hdir p hp hsame
  obtain ⟨hfits, hroom⟩ := h p ((Path.distinctFrom_sublist [] roots).subset hp)
  exact ⟨isDirectory_of_same hsame hfits hdir, fun _ _ _ _ hreach _ =>
    hroom.inReach (h q hq).2 hreach⟩

/-- So is every spelling of an archive, unless it asks for a directory. -/
theorem foundFirst_isSearched {keep : Path → Bool} {roots : List Path}
    (h : ∀ p ∈ roots, Files.Fits p ∧ fs.HasRoom p ∧ (p.isArchive → Files.EndsInComponent p)) :
    FoundFirst fs (Declaration.isSearched fs) keep roots := by
  intro q hq hfound p hp hsame
  obtain ⟨hfits, hroom, hend⟩ := h p ((Path.distinctFrom_sublist [] roots).subset hp)
  refine ⟨?_, fun _ _ _ _ hreach _ => hroom.inReach (h q hq).2.1 hreach⟩
  rw [Declaration.isSearched, Bool.or_eq_true, Bool.and_eq_true] at hfound ⊢
  rcases hfound with hdir | ⟨hfile, harchive⟩
  · exact Or.inl (isDirectory_of_same hsame hfits hdir)
  · rw [← Path.isArchive_congr hsame] at harchive
    obtain ⟨l, content, hl, hcontent⟩ := Files.isFile_iff.1 hfile
    have hp' := Files.resolve_of_same hsame hfits hl (Or.inr (hend harchive))
    exact Or.inr ⟨Files.isFile_iff.2 ⟨l, content, hp', hcontent⟩, harchive⟩

/-- The index of all roots is the index of the class path, which has no root twice. -/
theorem duplicate_roots_add_nothing {r : Roots}
    (hsearch : FoundFirst fs (Declaration.isSearched fs) Catalog.isClassFile (r.boot ++ r.compile))
    (hsource : FoundFirst fs fs.isDirectory Declaration.isSourceFile r.source) {ix : Index}
    (h : build fs ⟨r.boot ++ r.compile, r.source⟩ = .ok ix) :
    build fs r.classpath = .ok ix := by
  rw [build_eq_foldlM, Item.all, List.foldlM_append] at h ⊢
  obtain ⟨sources, hsources, hrest⟩ := bind_eq_ok.1 h
  have hnone : ∀ {ix : Index} {items : Path → List Item}, ∀ p ∈ ([] : List Path),
      ∀ i ∈ items p, ix.Knows fs i := fun p hp => by cases hp
  have hkept := foldlM_distinctFrom hnone (fun p hp q hq hsame => Item.sourceRoot_covers hsame
    (fun hfound => (hsource q hq hfound p hp hsame).1)
    fun hdir => (hsource q hq hdir p hp hsame).2 hdir) hsources
  have hkept' := foldlM_distinctFrom hnone (fun p hp q hq hsame => Item.searchRoot_covers hsame
    (fun hfound => (hsearch q hq hfound p hp hsame).1)
    fun hdir => (hsearch q hq (isSearched_of_isDirectory hdir) p hp hsame).2 hdir) hrest
  exact bind_eq_ok.2 ⟨sources, hkept, hkept'⟩

def repeatedRoots : Roots where
  boot := [⟨"classes"⟩, ⟨"classes/"⟩]
  source := [⟨"src/"⟩, ⟨"src"⟩]
  compile := [⟨"classes//."⟩]

theorem repeated_declarations : Declaration.ofClasspath shadowedFiles
    ⟨repeatedRoots.boot ++ repeatedRoots.compile, repeatedRoots.source⟩ =
      .ok [⟨"A", .source ⟨"src/A.java"⟩, false⟩, ⟨"A", .source ⟨"src/A.java"⟩, false⟩,
        ⟨"A", .directory ⟨"classes/A.class"⟩, false⟩, ⟨"A", .directory ⟨"classes/A.class"⟩, false⟩,
        ⟨"A", .directory ⟨"classes//./A.class"⟩, false⟩] := by
  apply eq_ok_of_toOption
  decide +kernel

theorem repeated_roots_add_nothing :
    repeatedRoots.classpath = ⟨[⟨"classes"⟩], [⟨"src/"⟩]⟩ ∧ ∃ ix,
      build shadowedFiles ⟨repeatedRoots.boot ++ repeatedRoots.compile, repeatedRoots.source⟩ =
        .ok ix ∧ build shadowedFiles repeatedRoots.classpath = .ok ix := by
  have hbuild := congrArg (Except.map ofDeclarations) repeated_declarations
  refine ⟨by decide, _, hbuild, duplicate_roots_add_nothing (foundFirst_isSearched ?_)
    (foundFirst_isDirectory ?_) hbuild⟩
  · decide
  · decide

/-- An archive with the class `A` alone, whose file is empty. -/
def archiveBytes : ByteArray := ⟨#[
  0x50, 0x4b, 0x03, 0x04, 0x14, 0x00, 0x00, 0x00, 0x00, 0x00, 0x00, 0x00, 0x21, 0x00, 0x00, 0x00,
  0x00, 0x00, 0x00, 0x00, 0x00, 0x00, 0x00, 0x00, 0x00, 0x00, 0x07, 0x00, 0x00, 0x00, 0x41, 0x2e,
  0x63, 0x6c, 0x61, 0x73, 0x73, 0x50, 0x4b, 0x01, 0x02, 0x14, 0x03, 0x14, 0x00, 0x00, 0x00, 0x00,
  0x00, 0x00, 0x00, 0x21, 0x00, 0x00, 0x00, 0x00, 0x00, 0x00, 0x00, 0x00, 0x00, 0x00, 0x00, 0x00,
  0x00, 0x07, 0x00, 0x00, 0x00, 0x00, 0x00, 0x00, 0x00, 0x00, 0x00, 0x00, 0x00, 0x80, 0x01, 0x00,
  0x00, 0x00, 0x00, 0x41, 0x2e, 0x63, 0x6c, 0x61, 0x73, 0x73, 0x50, 0x4b, 0x05, 0x06, 0x00, 0x00,
  0x00, 0x00, 0x01, 0x00, 0x01, 0x00, 0x35, 0x00, 0x00, 0x00, 0x25, 0x00, 0x00, 0x00, 0x00, 0x00]⟩

def archiveFiles : Files := (Files.emptyAt []).write ["a.jar"] archiveBytes

/-- The first spelling of the archive asks for a directory. -/
def misspelledRoots : Roots := ⟨[⟨"a.jar/"⟩], [], [⟨"a.jar"⟩]⟩

theorem a_misspelled_archive_is_lost :
    (∃ ix, build archiveFiles ⟨misspelledRoots.boot ++ misspelledRoots.compile,
      misspelledRoots.source⟩ = .ok ix ∧ (ix.findType "A").isSome) ∧
    ∃ ix, build archiveFiles misspelledRoots.classpath = .ok ix ∧ (ix.findType "A").isNone := by
  have hall : Declaration.ofClasspath archiveFiles ⟨misspelledRoots.boot ++ misspelledRoots.compile,
      misspelledRoots.source⟩ = .ok [⟨"A", .archive ⟨"a.jar"⟩ "A.class", false⟩] := by
    apply eq_ok_of_toOption
    decide +kernel
  have hkept : Declaration.ofClasspath archiveFiles misspelledRoots.classpath = .ok [] := by
    apply eq_ok_of_toOption
    decide
  exact ⟨⟨_, congrArg (Except.map ofDeclarations) hall, by decide⟩,
    _, congrArg (Except.map ofDeclarations) hkept, by decide⟩

def deepFiles : Files := (Files.emptyAt []).write ["c", "p", "A.class"] ⟨#[]⟩

/-- The directory with so many slashes behind it that nothing below it can be opened. -/
def crowdedRoot : Path := ⟨"c" ++ String.ofList (List.replicate 4094 '/')⟩

def crowdedRoots : Roots := ⟨[crowdedRoot], [], [⟨"c"⟩]⟩

theorem size_crowdedRoot : crowdedRoot.text.utf8ByteSize = 4095 := by
  rw [crowdedRoot, String.utf8ByteSize_append, Path.utf8ByteSize_slashes]
  decide

theorem same_crowdedRoot : crowdedRoot.Same ⟨"c"⟩ := Path.same_slashes (by decide) _

theorem isDirectory_crowdedRoot : deepFiles.isDirectory crowdedRoot := by
  refine isDirectory_of_same same_crowdedRoot ?_ (by decide)
  rw [Files.Fits, size_crowdedRoot]
  decide

theorem scan_crowdedRoot (keep : Path → Bool) : deepFiles.scan crowdedRoot keep = [] := by
  obtain ⟨top, htop, hdir⟩ := Files.isDirectory_iff.1 isDirectory_crowdedRoot
  obtain rfl : top = ["c"] := by
    rw [Files.resolve_eq_locate htop, Files.locate_congr same_crowdedRoot]
    decide
  rw [List.eq_nil_iff_forall_not_mem]
  intro f hf
  obtain ⟨-, hreach, -⟩ := (Files.mem_walk_iff htop hdir).1 (Files.mem_scan.1 hf).1
  have hbelow : f.below = ["p", "A.class"] := by
    obtain ⟨content, hfile⟩ := hreach.regular
    have hmem : ⟨f.below, content⟩ ∈ deepFiles.filesBelow ["c"] :=
      Files.mem_filesBelow.2 ⟨hreach.below, hfile⟩
    have hall : ∀ b ∈ deepFiles.filesBelow ["c"], b.way = ["p", "A.class"] := by decide
    exact hall _ hmem
  rw [hbelow] at hreach
  obtain ⟨⟨-, hfits⟩, -⟩ := hreach.entered 1 (by decide) (by decide)
  have hsize : crowdedRoot.text.utf8ByteSize + "p".utf8ByteSize ≤
      (crowdedRoot.join "p").text.utf8ByteSize := Path.size_join (by decide)
  have hname : "p".utf8ByteSize = 1 := by decide
  rw [size_crowdedRoot, hname] at hsize
  have hway : "/".intercalate (["p", "A.class"].take 1) = "p" := String.intercalate_singleton
  rw [hway] at hfits
  exact Nat.not_le.2 hsize hfits

theorem a_crowded_root_is_lost :
    (∃ ix, build deepFiles ⟨crowdedRoots.boot ++ crowdedRoots.compile, crowdedRoots.source⟩ =
      .ok ix ∧ (ix.findType "p.A").isSome) ∧
    ∃ ix, build deepFiles crowdedRoots.classpath = .ok ix ∧ (ix.findType "p.A").isNone := by
  have hempty : (Item.directory crowdedRoot).declarations deepFiles = .ok [] := by
    rw [Item.declarations, Catalog.ofDirectory, scan_crowdedRoot]
    rfl
  have hclasses : (Item.directory ⟨"c"⟩).declarations deepFiles =
      .ok [⟨"p.A", .directory ⟨"c/p/A.class"⟩, false⟩] := eq_ok_of_toOption (by decide +kernel)
  have hcrowded : Item.ofSearchRoot deepFiles crowdedRoot = [.directory crowdedRoot] :=
    if_pos isDirectory_crowdedRoot
  have hplain : Item.ofSearchRoot deepFiles ⟨"c"⟩ = [.directory ⟨"c"⟩] := by decide
  have hdistinct : Path.distinct [crowdedRoot, ⟨"c"⟩] = [crowdedRoot] := by
    have hsame : Path.Same ⟨"c"⟩ crowdedRoot := same_crowdedRoot.symm
    simp [Path.distinct, Path.distinctFrom, hsame]
  have hall : Item.all deepFiles ⟨crowdedRoots.boot ++ crowdedRoots.compile,
      crowdedRoots.source⟩ = [.directory crowdedRoot, .directory ⟨"c"⟩] := by
    simp [Item.all, crowdedRoots, hcrowded, hplain]
  have hkept : Item.all deepFiles crowdedRoots.classpath = [.directory crowdedRoot] := by
    have hclasspath : crowdedRoots.classpath = ⟨[crowdedRoot], []⟩ :=
      congrArg (Classpath.mk · []) hdistinct
    simp [Item.all, hclasspath, hcrowded]
  constructor
  · refine ⟨ofDeclarations [⟨"p.A", .directory ⟨"c/p/A.class"⟩, false⟩], ?_, by decide⟩
    rw [build, Item.ofClasspath_eq, hall, List.mapM_cons, List.mapM_cons, hempty, hclasses]
    rfl
  · refine ⟨ofDeclarations [], ?_, by decide⟩
    rw [build, Item.ofClasspath_eq, hkept, List.mapM_cons, hempty]
    rfl

end Index

end ClasspathSymbols
