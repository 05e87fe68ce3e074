import ClasspathSymbols.Session
import ClasspathSymbols.Proofs.Files.Difference
import ClasspathSymbols.Proofs.Files.Reach
import ClasspathSymbols.Proofs.Workspace.FirstSpellings
import Mathlib.Data.List.TakeWhile

/-! # Guest files

The source roots of a project may lie in one another, be repeated or be spelled in several ways, and
a walk of a root delivers files in any order. Still each guest file is listed once, in path order,
as the first root that reaches it spells it. -/
namespace ClasspathSymbols

namespace Path

/-- The extension is what follows the last dot of the name, and that dot is not its first
character. -/
def EndsIn (name extension : String) : Prop :=
  ∃ stem : String, stem ≠ "" ∧ name = stem ++ "." ++ extension ∧ '.' ∉ extension.toList

theorem extensionOf_append {stem last : List Char} (h : '.' ∉ last) :
    extensionOf (stem ++ '.' :: last) = if stem = [] then none else some last := by
  have hreverse : (stem ++ '.' :: last).reverse = last.reverse ++ '.' :: stem.reverse := by simp
  have hlast : ∀ c ∈ last.reverse, (c ≠ '.' : Bool) = true := by
    intro c hc
    rw [decide_eq_true_eq]
    rintro rfl
    exact h (List.mem_reverse.1 hc)
  have hdrop : (last.reverse ++ '.' :: stem.reverse).dropWhile (· ≠ '.') = '.' :: stem.reverse := by
    rw [List.dropWhile_append_of_pos hlast, List.dropWhile_cons_of_neg (by decide)]
  have htake : (last.reverse ++ '.' :: stem.reverse).takeWhile (· ≠ '.') = last.reverse := by
    rw [List.takeWhile_append_of_pos hlast, List.takeWhile_cons_of_neg (by decide),
      List.append_nil]
  rw [extensionOf, hreverse, hdrop, htake, List.reverse_reverse]
  by_cases hstem : stem = []
  · rw [hstem]
    rfl
  · obtain ⟨c, cs, hcs⟩ := List.exists_cons_of_ne_nil (mt List.reverse_eq_nil_iff.1 hstem)
    rw [hcs, if_neg hstem]

theorem endsIn_iff {name extension : String} :
    EndsIn name extension ↔ extensionOf name.toList = some extension.toList := by
  constructor
  · rintro ⟨stem, hstem, rfl, hdot⟩
    have hlist : (stem ++ "." ++ extension).toList = stem.toList ++ '.' :: extension.toList := by
      simp
    rw [hlist, extensionOf_append hdot, if_neg (mt String.toList_eq_nil_iff.1 hstem)]
  · intro h
    have hdot : '.' ∈ name.toList := by
      by_contra hnone
      have hall : name.toList.reverse.dropWhile (· ≠ '.') = [] := by
        rw [List.dropWhile_eq_nil_iff]
        intro c hc
        rw [decide_eq_true_eq]
        rintro rfl
        exact hnone (List.mem_reverse.1 hc)
      rw [extensionOf, hall] at h
      cases h
    obtain ⟨stem, last, hname, hlast⟩ := Text.exists_last hdot
    rw [hname, extensionOf_append hlast] at h
    split at h
    · cases h
    · rename_i hstem
      obtain rfl := Option.some.inj h
      refine ⟨String.ofList stem, fun hnil => hstem (String.ofList_eq_empty_iff.1 hnil), ?_, hlast⟩
      apply String.toList_injective
      simp [hname]

theorem hasExtension_iff {p : Path} {name : String} {extensions : List String}
    (h : p.components.getLast? = some (.name name)) :
    p.hasExtension extensions ↔ ∃ extension ∈ extensions, EndsIn name extension := by
  simp only [endsIn_iff, hasExtension, extension?, h]
  cases extensionOf name.toList with
  | none => simp
  | some found =>
    simp only [Option.map_some, List.contains_iff_mem, Option.some.injEq]
    constructor
    · exact fun hmem => ⟨_, hmem, String.toList_ofList.symm⟩
    · rintro ⟨extension, hmem, rfl⟩
      rwa [String.ofList_toList]

end Path

namespace ProjectModel

/-- The root is a directory that a walk does not take for the standard input, and `p` is how it
spells a file below it that is in reach and has one of the extensions. -/
inductive Offers (fs : Files) (extensions : List String) (root : Path) : Path → Prop where
  | file {top : Location} {way : List String} {name extension : String} :
      ¬ root.Same Files.standardInput → fs.resolve root = .ok top →
      fs.entryAt top = some .directory → fs.InReach root top way →
      way.getLast? = some name → extension ∈ extensions → Path.EndsIn name extension →
      Offers fs extensions root (root.join ("/".intercalate way))

/-- The first of the roots that offers the path in any spelling offers it in this one. -/
inductive OfferedFirst (fs : Files) (extensions : List String) : List Path → Path → Prop where
  | here {root p : Path} {roots : List Path} :
      Offers fs extensions root p → OfferedFirst fs extensions (root :: roots) p
  | later {root p : Path} {roots : List Path} :
      (∀ q, Offers fs extensions root q → ¬ p.Same q) → OfferedFirst fs extensions roots p →
      OfferedFirst fs extensions (root :: roots) p

def guestsFound (fs : Files) (extensions : List String) (root : Path) : List Path :=
  ((fs.walk root).filter fun f => f.path.hasExtension extensions).map (·.path)

/-- What the walks of the roots that are directories deliver, each in an order of its own. -/
def Deliveries (fs : Files) (extensions : List String) (roots : List Path)
    (deliveries : List (List Path)) : Prop :=
  List.Forall₂ (fun root paths => paths.Perm (guestsFound fs extensions root))
    (roots.filter fs.isDirectory) deliveries

/-- Each guest file of the roots is listed once. -/
structure ListsGuests (fs : Files) (extensions : List String) (roots listed : List Path) :
    Prop where
  ascending : Path.Ascending listed
  offered : ∀ p ∈ listed, ∃ root ∈ roots, Offers fs extensions root p
  /-- A path that leads anywhere leads to a file. -/
  regular : ∀ p ∈ listed, ∀ l, fs.resolve p = .ok l →
    ∃ content, fs.entryAt l = some (.file content)
  covers : ∀ root ∈ roots, ∀ p, Offers fs extensions root p → ∃ q ∈ listed, q.Same p
  spelled : ∀ p, p ∈ listed ↔ OfferedFirst fs extensions roots p

variable {fs : Files} {extensions : List String} {root p q : Path} {roots : List Path}

theorem Offers.isDirectory (h : Offers fs extensions root p) : fs.isDirectory root := by
  cases h with
  | file _ hroot hdir => exact Files.isDirectory_iff.2 ⟨_, hroot, hdir⟩

theorem getLast?_of_walk (hs : fs.Sound) (hdir : fs.isDirectory root) {f : Found}
    (hf : f ∈ fs.walk root) : f.path.components.getLast? = f.below.getLast?.map .name := by
  obtain ⟨top, hroot, htop⟩ := Files.isDirectory_iff.1 hdir
  obtain ⟨-, hreach, -⟩ := (Files.mem_walk_iff hroot htop).1 hf
  have hbelow := hreach.below
  rw [Files.components_of_walk hs hroot htop hf,
    List.getLast?_append_of_ne_nil _ (mt List.map_eq_nil_iff.1 hbelow), List.getLast?_map]

theorem mem_guestsFound (hs : fs.Sound) (hdir : fs.isDirectory root) :
    p ∈ guestsFound fs extensions root ↔ Offers fs extensions root p := by
  obtain ⟨top, hroot, htop⟩ := Files.isDirectory_iff.1 hdir
  simp only [guestsFound, List.mem_map, List.mem_filter]
  constructor
  · rintro ⟨f, ⟨hf, hextension⟩, rfl⟩
    obtain ⟨hinput, hreach, hpath⟩ := (Files.mem_walk_iff hroot htop).1 hf
    obtain ⟨name, hname⟩ := Option.isSome_iff_exists.1 (List.getLast?_isSome.2 hreach.below)
    have hlast := getLast?_of_walk hs hdir hf
    rw [hname] at hlast
    obtain ⟨extension, hmem, hends⟩ := (Path.hasExtension_iff hlast).1 hextension
    rw [hpath]
    exact .file hinput hroot htop hreach hname hmem hends
  · intro h
    cases h with
    | @file top' way name extension hinput hroot' htop' hreach hname hmem hends =>
      obtain rfl := Except.ok.inj (hroot.symm.trans hroot')
      have hf : ⟨root.join ("/".intercalate way), way⟩ ∈ fs.walk root :=
        (Files.mem_walk_iff hroot htop).2 ⟨hinput, hreach, rfl⟩
      have hlast := getLast?_of_walk hs hdir hf
      rw [hname] at hlast
      exact ⟨_, ⟨hf, (Path.hasExtension_iff hlast).2 ⟨extension, hmem, hends⟩⟩, rfl⟩

theorem Offers.eq_of_same (hs : fs.Sound) (hp : Offers fs extensions root p)
    (hq : Offers fs extensions root q) (h : p.Same q) : p = q := by
  obtain ⟨f, hf, rfl⟩ := List.mem_map.1 ((mem_guestsFound hs hp.isDirectory).2 hp)
  obtain ⟨g, hg, rfl⟩ := List.mem_map.1 ((mem_guestsFound hs hp.isDirectory).2 hq)
  rw [Files.eq_of_same_path hs (List.mem_filter.1 hf).1 (List.mem_filter.1 hg).1 h]

theorem Offers.regular (hs : fs.Sound) (h : Offers fs extensions root p) {l : Location}
    (hl : fs.resolve p = .ok l) : ∃ content, fs.entryAt l = some (.file content) := by
  cases h with
  | @file top way name extension _ hroot htop hreach =>
    obtain ⟨content, hcontent⟩ := hreach.regular
    have hkey : top ++ way ∈ fs.table.keys := by
      rw [Files.entryAt_append hreach.below] at hcontent
      rw [Table.mem_keys, hcontent]
      rfl
    have hnames : ∀ name ∈ way, Path.IsName name := fun name hname =>
      hs.2 _ hkey name (List.mem_append_right top hname)
    rw [Files.resolve_join hroot hreach.below hnames hl]
    exact ⟨content, hcontent⟩

theorem OfferedFirst.offered (h : OfferedFirst fs extensions roots p) :
    ∃ root ∈ roots, Offers fs extensions root p := by
  induction h with
  | here hoffers => exact ⟨_, List.mem_cons_self, hoffers⟩
  | later _ _ ih =>
    obtain ⟨root, hroot, hoffers⟩ := ih
    exact ⟨root, List.mem_cons_of_mem _ hroot, hoffers⟩

theorem exists_offeredFirst (hroot : root ∈ roots) (h : Offers fs extensions root p) :
    ∃ q, OfferedFirst fs extensions roots q ∧ q.Same p := by
  induction roots with
  | nil => cases hroot
  | cons first roots ih =>
    by_cases hfirst : ∃ q, Offers fs extensions first q ∧ q.Same p
    · obtain ⟨q, hq, hsame⟩ := hfirst
      exact ⟨q, .here hq, hsame⟩
    · rcases List.mem_cons.1 hroot with rfl | hroot
      · exact absurd ⟨p, h, rfl⟩ hfirst
      · obtain ⟨q, hq, hsame⟩ := ih hroot
        exact ⟨q, .later (fun r hr hqr => hfirst ⟨r, hr, hqr.symm.trans hsame⟩) hq, hsame⟩

/-- Whatever the order of each delivery, what comes first is offered first. -/
theorem find?_deliveries (hs : fs.Sound) {deliveries : List (List Path)}
    (h : Deliveries fs extensions roots deliveries) :
    deliveries.flatten.find? (fun q => p.Same q) = some p ↔
      OfferedFirst fs extensions roots p := by
  induction roots generalizing deliveries with
  | nil =>
    cases h
    exact iff_of_false (fun hfound => by cases hfound) (fun hfirst => by cases hfirst)
  | cons root roots ih =>
    by_cases hdir : fs.isDirectory root
    · rw [Deliveries, List.filter_cons_of_pos hdir] at h
      cases h with
      | @cons _ paths _ rest hpaths hrest =>
        have hmem : ∀ q, q ∈ paths ↔ Offers fs extensions root q := fun q =>
          hpaths.mem_iff.trans (mem_guestsFound hs hdir)
        rw [List.flatten_cons, List.find?_append]
        cases hfind : paths.find? (fun q => p.Same q) with
        | some q =>
          have hq := (hmem q).1 (List.mem_of_find?_eq_some hfind)
          have hfound := List.find?_some hfind
          have hsame : p.Same q := of_decide_eq_true hfound
          rw [Option.some_or, Option.some.injEq]
          constructor
          · rintro rfl
            exact .here hq
          · intro hfirst
            cases hfirst with
            | here hp => exact hq.eq_of_same hs hp hsame.symm
            | later hnone => exact absurd hsame (hnone q hq)
        | none =>
          have hnone : ∀ q, Offers fs extensions root q → ¬ p.Same q := fun q hq hsame =>
            List.find?_eq_none.1 hfind q ((hmem q).2 hq) (decide_eq_true hsame)
          rw [Option.none_or, ih hrest]
          constructor
          · exact .later hnone
          · intro hfirst
            cases hfirst with
            | here hp => exact absurd rfl (hnone p hp)
            | later _ hlater => exact hlater
    · rw [Deliveries, List.filter_cons_of_neg hdir] at h
      rw [ih h]
      constructor
      · exact .later fun q hq => absurd hq.isDirectory hdir
      · intro hfirst
        cases hfirst with
        | here hp => exact absurd hp.isDirectory hdir
        | later _ hlater => exact hlater

theorem listsGuests_of_deliveries (hs : fs.Sound) {deliveries : List (List Path)}
    (h : Deliveries fs extensions roots deliveries) :
    ListsGuests fs extensions roots (collect deliveries) := by
  have hspelled : ∀ p, p ∈ collect deliveries ↔ OfferedFirst fs extensions roots p := fun p =>
    mem_collect.trans (find?_deliveries hs h)
  have hoffered : ∀ p ∈ collect deliveries, ∃ root ∈ roots, Offers fs extensions root p :=
    fun p hp => ((hspelled p).1 hp).offered
  refine ⟨collect_ascending deliveries, hoffered, fun p hp l hl => ?_, fun root hroot p hp => ?_,
    hspelled⟩
  · obtain ⟨root, -, hoffers⟩ := hoffered p hp
    exact hoffers.regular hs hl
  · obtain ⟨q, hq, hsame⟩ := exists_offeredFirst hroot hp
    exact ⟨q, (hspelled q).2 hq, hsame⟩

theorem ListsGuests.unique {listed more : List Path} (h : ListsGuests fs extensions roots listed)
    (hmore : ListsGuests fs extensions roots more) : listed = more :=
  h.ascending.eq_of_mem_iff hmore.ascending fun p => (h.spelled p).trans (hmore.spelled p).symm

theorem deliveries_walk (fs : Files) (extensions : List String) (roots : List Path) :
    Deliveries fs extensions roots
      ((roots.filter fs.isDirectory).map (guestsFound fs extensions)) := by
  rw [Deliveries, List.forall₂_map_right_iff, List.forall₂_same]
  exact fun root _ => List.Perm.refl _

theorem deliveries_scan (fs : Files) (extensions : List String) (roots : List Path) :
    Deliveries fs extensions roots ((roots.filter fs.isDirectory).map fun root =>
      (fs.scan root fun p => p.hasExtension extensions).map (·.path)) := by
  rw [Deliveries, List.forall₂_map_right_iff, List.forall₂_same]
  exact fun root _ => (Files.scan_perm fs root _).map _

theorem guestFilesBelow_lists (hs : fs.Sound) (extensions : List String) (roots : List Path) :
    ListsGuests fs extensions roots (guestFilesBelow fs roots extensions) :=
  listsGuests_of_deliveries hs (deliveries_scan fs extensions roots)

end ProjectModel

namespace Session

open ProjectModel (ListsGuests Deliveries collect)

/-- The roots of a project without the guest language are not asked for, so that nothing is
invalidated meanwhile. Of one with it the answer is why there are no roots, or each guest file below
them once, in path order and as the first root that reaches it spells it, whatever the order in
which the walks come upon files. -/
theorem guest_files_are_listed (s : Session) (hs : s.host.files.Sound) (held : List String)
    (project : String) (extensions : List String) :
    (¬ s.host.model.hasGuest project →
      run held s (.guestFiles project extensions) = (.files project [], s)) ∧
    (s.host.model.hasGuest project →
      (run held s (.guestFiles project extensions)).2 =
        s.withCache (s.cache.invalidateAll s.host.invalidates) ∧
      (∀ e, s.host.model.roots project = .error e →
        (run held s (.guestFiles project extensions)).1 = .noRoots e) ∧
      ∀ r, s.host.model.roots project = .ok r →
        ∃ listed, (run held s (.guestFiles project extensions)).1 = .files project listed ∧
          ListsGuests s.host.files extensions r.source listed ∧
          ∀ deliveries, Deliveries s.host.files extensions r.source deliveries →
            collect deliveries = listed) := by
  refine ⟨fun hguest => ?_, fun hguest => ⟨?_, fun e he => ?_, fun r hr => ?_⟩⟩
  · simp only [run, guestFiles, ProjectModel.guestFiles, if_neg hguest]
    rfl
  · simp only [run, guestFiles, if_pos hguest]
    rfl
  · simp only [run, guestFiles, ProjectModel.guestFiles, if_pos hguest, he]
    rfl
  · have hlists := ProjectModel.guestFilesBelow_lists hs extensions r.source
    refine ⟨_, ?_, hlists, fun deliveries h =>
      (ProjectModel.listsGuests_of_deliveries hs h).unique hlists⟩
    simp only [run, guestFiles, ProjectModel.guestFiles, if_pos hguest, hr]
    rfl

def overlappingFiles : Files :=
  ((((((Files.emptyAt ["work"]).write ["work", "src", "A.kt"] .empty).write
    ["work", "src", "sub", "B.kt"] .empty).write ["work", "src", "sub", "C.java"] .empty).write
    ["work", "src", "old", "D.kt"] .empty).write
    ["work", "src", ".ignore"] ⟨#[0x6f, 0x6c, 0x64, 0x2f, 0x0a]⟩).write
    ["work", "gen", "E.kts"] .empty

/-- Roots that lie in one another, are repeated in other spellings, are missing or are files. -/
def overlappingRoots : List Path :=
  [⟨"src//sub"⟩, ⟨"src"⟩, ⟨"./src"⟩, ⟨"src/"⟩, ⟨"lost"⟩, ⟨"src/A.kt"⟩, ⟨"gen"⟩]

def overlappingSession : Session :=
  start overlappingFiles ⟨[⟨"app", true, ⟨[], overlappingRoots, []⟩⟩]⟩ 0

theorem overlappingFiles_sound : overlappingFiles.Sound := by
  refine ⟨by decide, ?_⟩
  decide

def overlappingGuests : List Path :=
  [⟨"./src/A.kt"⟩, ⟨"./src/sub/B.kt"⟩, ⟨"gen/E.kts"⟩, ⟨"src/A.kt"⟩, ⟨"src//sub/B.kt"⟩]

theorem mem_overlappingGuests {deliveries : List (List Path)}
    (h : deliveries = (overlappingRoots.filter overlappingFiles.isDirectory).map
      (ProjectModel.guestsFound overlappingFiles ["kts", "kt"])) (p : Path) :
    p ∈ collect deliveries ↔ p ∈ overlappingGuests := by
  have hdistinct : Path.distinct deliveries.flatten =
      [⟨"src//sub/B.kt"⟩, ⟨"src/A.kt"⟩, ⟨"./src/A.kt"⟩, ⟨"./src/sub/B.kt"⟩, ⟨"gen/E.kts"⟩] := by
    rw [h]
    decide +kernel
  have hperm : (Path.distinct deliveries.flatten).Perm overlappingGuests := by
    rw [hdistinct]
    decide
  rw [ProjectModel.mem_collect_iff_distinct, hperm.mem_iff]

theorem overlapping_guest_files_are_listed :
    overlappingSession.host.files.Sound ∧ overlappingSession.host.model.hasGuest "app" ∧
      ListsGuests overlappingFiles ["kts", "kt"] overlappingRoots overlappingGuests ∧
      ∀ deliveries, Deliveries overlappingFiles ["kts", "kt"] overlappingRoots deliveries →
        collect deliveries = overlappingGuests := by
  have hguest : overlappingSession.host.model.hasGuest "app" := by decide
  have hlisted := (guest_files_are_listed overlappingSession overlappingFiles_sound [] "app"
    ["kts", "kt"]).2 hguest
  obtain ⟨listed, -, hlists, hcollected⟩ := hlisted.2.2 ⟨[], overlappingRoots, []⟩ rfl
  have heq : listed = overlappingGuests := by
    have hwalked := hcollected _ (ProjectModel.deliveries_walk _ _ _)
    refine hlists.ascending.eq_of_mem_iff (by decide) fun p => ?_
    rw [← hwalked]
    exact mem_overlappingGuests rfl p
  rw [heq] at hlists hcollected
  exact ⟨overlappingFiles_sound, hguest, hlists, hcollected⟩

end Session

end ClasspathSymbols
