import ClasspathSymbols.Proofs.Index.Packages
import Mathlib.Data.List.Sort

/-! # Packages and the order of the roots

An index knows the packages of its winners. A declaration that is shadowed may lie in another
package than the one that shadows it, because a nesting sign and a dot are the same in a source
name; the packages around it are known only so far as they are around the winner too. Where this
does not happen, every declaration counts, and the order of the roots does not matter. -/
namespace ClasspathSymbols

variable {fs : Files} {c c' : Classpath}

/-- Roots in another order make the same declarations in another order. -/
theorem Declaration.ofClasspath_perm (hsource : c'.source.Perm c.source)
    (hsearch : c'.search.Perm c.search) {row : List Declaration}
    (h : Declaration.ofClasspath fs c = .ok row) :
    ∃ row', Declaration.ofClasspath fs c' = .ok row' ∧ row'.Perm row := by
  have hitems : (Item.all fs c').Perm (Item.all fs c) :=
    (hsource.flatMap_right _).append (hsearch.flatMap_right _)
  rw [Item.ofClasspath_eq] at h
  obtain ⟨rows, hrows, rfl⟩ := map_eq_ok.1 h
  obtain ⟨rows', hrows', hperm⟩ := mapM_perm hitems hrows
  refine ⟨rows'.flatten, ?_, hperm.flatten⟩
  rw [Item.ofClasspath_eq, hrows']
  rfl

namespace Index

open BinaryName

variable {ix : Index} {row : List Declaration} {d : Declaration}

def IsFirst (row : List Declaration) (d : Declaration) : Prop :=
  row.find? (fun e => e.sourceName = d.sourceName) = some d

theorem find?_name_iff {n : String} :
    (row.find? fun e => e.sourceName = n) = some d ↔ IsFirst row d ∧ d.sourceName = n := by
  constructor
  · intro h
    have hname : d.sourceName = n := by simpa using List.find?_some h
    exact ⟨by rwa [IsFirst, hname], hname⟩
  · rintro ⟨h, rfl⟩
    exact h

theorem wins_ofDeclarations {n : String} :
    (ofDeclarations row).Wins d n ↔ IsFirst row d ∧ d.sourceName = n := by
  rw [Wins, ofDeclarations_types, find?_name_iff]

theorem mem_of_isFirst (h : IsFirst row d) : d ∈ row := List.mem_of_find?_eq_some h

theorem exists_isFirst (hd : d ∈ row) : ∃ e ∈ row, IsFirst row e ∧ e.sourceName = d.sourceName := by
  have hfound : (row.find? fun e => e.sourceName = d.sourceName).isSome := by
    rw [List.find?_isSome]
    exact ⟨d, hd, decide_eq_true rfl⟩
  obtain ⟨e, he⟩ := Option.isSome_iff_exists.1 hfound
  exact ⟨e, List.mem_of_find?_eq_some he, find?_name_iff.1 he⟩

theorem findPackage_ofDeclarations {p : String} : ((ofDeclarations row).findPackage p).isSome ↔
    ∃ d ∈ row, IsFirst row d ∧ Encloses p (packageOf d.binaryName) := by
  rw [findPackage_isSome, Std.TreeSet.mem_toList, (coherent_ofDeclarations row).packages]
  constructor
  · rintro ⟨d, n, hd, hp⟩
    have hfirst := (wins_ofDeclarations.1 hd).1
    exact ⟨d, mem_of_isFirst hfirst, hfirst, hp⟩
  · rintro ⟨d, -, hfirst, hp⟩
    exact ⟨d, d.sourceName, wins_ofDeclarations.2 ⟨hfirst, rfl⟩, hp⟩

/-- No two declarations of one source name lie in different packages. -/
def OnePackageEach (row : List Declaration) : Prop :=
  ∀ d ∈ row, ∀ e ∈ row, d.sourceName = e.sourceName →
    packageOf d.binaryName = packageOf e.binaryName

theorem OnePackageEach.perm {row' : List Declaration} (h : OnePackageEach row)
    (hperm : row'.Perm row) : OnePackageEach row' :=
  fun d hd e he => h d (hperm.mem_iff.1 hd) e (hperm.mem_iff.1 he)

theorem findPackage_of_onePackageEach (h : OnePackageEach row) {p : String} :
    ((ofDeclarations row).findPackage p).isSome ↔
      ∃ d ∈ row, Encloses p (packageOf d.binaryName) := by
  rw [findPackage_ofDeclarations]
  constructor
  · rintro ⟨d, hd, -, hp⟩
    exact ⟨d, hd, hp⟩
  · rintro ⟨d, hd, hp⟩
    obtain ⟨e, he, hfirst, hname⟩ := exists_isFirst hd
    exact ⟨e, he, hfirst, by rwa [h e he d hd hname]⟩

theorem mem_packagesIn {p q : String} :
    p ∈ ix.packagesIn q ↔ (ix.findPackage p).isSome ∧ Inside q p := by
  rw [packagesIn_eq_filter, List.mem_filter, findPackage_isSome, liesIn_iff]

theorem packages_congr {jx : Index}
    (h : ∀ p, (ix.findPackage p).isSome ↔ (jx.findPackage p).isSome) :
    (∀ p, ix.findPackage p = jx.findPackage p) ∧ ∀ q, ix.packagesIn q = jx.packagesIn q := by
  have hlist : ix.packages.toList = jx.packages.toList := by
    refine (packages_sorted ix).eq_of_mem_iff (packages_sorted jx) fun p => ?_
    rw [← findPackage_isSome, ← findPackage_isSome, h]
  constructor
  · intro p
    have hcontains : ix.packages.contains p = jx.packages.contains p := by
      rw [Bool.eq_iff_iff, Std.TreeSet.contains_iff_mem, Std.TreeSet.contains_iff_mem,
        ← Std.TreeSet.mem_toList, ← Std.TreeSet.mem_toList, hlist]
    rw [findPackage, findPackage, hcontains]
  · intro q
    rw [packagesIn_eq_filter, packagesIn_eq_filter, hlist]

/-- What an index knows of packages, in terms of all the declarations that it was made of. -/
structure KnowsPackages (ix : Index) (row : List Declaration) : Prop where
  known : ∀ p, (ix.findPackage p).isSome ↔
    ∃ d ∈ row, IsFirst row d ∧ Encloses p (packageOf d.binaryName)
  listed : ∀ p q, p ∈ ix.packagesIn q ↔ (ix.findPackage p).isSome ∧ Inside q p
  /-- A package of any declaration is known, unless the winner of the name lies elsewhere. -/
  shadowed : ∀ d ∈ row, ∀ p, Encloses p (packageOf d.binaryName) → (ix.findPackage p).isSome ∨
    ∃ e ∈ row, IsFirst row e ∧ e.sourceName = d.sourceName ∧ ¬ Encloses p (packageOf e.binaryName)
  /-- If none does, every declaration counts. -/
  counted : OnePackageEach row → ∀ p, (ix.findPackage p).isSome ↔
    ∃ d ∈ row, Encloses p (packageOf d.binaryName)

theorem knowsPackages_ofDeclarations (row : List Declaration) :
    (ofDeclarations row).KnowsPackages row where
  known p := findPackage_ofDeclarations
  listed p q := mem_packagesIn
  shadowed := by
    intro d hd p _
    obtain ⟨e, he, hfirst, hname⟩ := exists_isFirst hd
    by_cases hp : Encloses p (packageOf e.binaryName)
    · exact Or.inl (findPackage_ofDeclarations.2 ⟨e, he, hfirst, hp⟩)
    · exact Or.inr ⟨e, he, hfirst, hname, hp⟩
  counted h p := findPackage_of_onePackageEach h

/-- An index knows the packages of its winners, and those of all declarations if no declaration is
shadowed from another package. Then the order of the roots does not matter to them. -/
theorem packages_of_winners_are_known (h : build fs c = .ok ix) : ∃ row,
    Declaration.ofClasspath fs c = .ok row ∧ ix.KnowsPackages row ∧
    ∀ c' : Classpath, c'.source.Perm c.source → c'.search.Perm c.search →
      ∃ ix', build fs c' = .ok ix' ∧ (OnePackageEach row →
        (∀ p, ix'.findPackage p = ix.findPackage p) ∧ ∀ q, ix'.packagesIn q = ix.packagesIn q) := by
  obtain ⟨row, hrow, rfl⟩ := map_eq_ok.1 h
  refine ⟨row, hrow, knowsPackages_ofDeclarations row, ?_⟩
  intro c' hsource hsearch
  obtain ⟨row', hrow', hperm⟩ := Declaration.ofClasspath_perm hsource hsearch hrow
  refine ⟨ofDeclarations row', map_eq_ok.2 ⟨row', hrow', rfl⟩,
    fun hone => packages_congr fun p => ?_⟩
  rw [findPackage_of_onePackageEach (hone.perm hperm), findPackage_of_onePackageEach hone]
  exact exists_congr fun d => and_congr_left fun _ => hperm.mem_iff

def sharedFiles : Files :=
  (((Files.emptyAt []).write ["jdk", "a", "b", "C.class"] ⟨#[]⟩).write
    ["lib", "a", "b", "C.class"] ⟨#[]⟩).write ["app", "x", "Y$Z.class"] ⟨#[]⟩

def sharedClasspath : Classpath := ⟨[⟨"jdk"⟩, ⟨"lib"⟩, ⟨"app"⟩], []⟩

theorem shared_declarations : Declaration.ofClasspath sharedFiles sharedClasspath =
    .ok [⟨"a.b.C", .directory ⟨"jdk/a/b/C.class"⟩, false⟩,
      ⟨"a.b.C", .directory ⟨"lib/a/b/C.class"⟩, false⟩,
      ⟨"x.Y$Z", .directory ⟨"app/x/Y$Z.class"⟩, false⟩] := by
  apply eq_ok_of_toOption
  decide +kernel

theorem shared_packages_are_known :
    ∃ ix ix', build sharedFiles sharedClasspath = .ok ix ∧
      build sharedFiles ⟨[⟨"lib"⟩, ⟨"jdk"⟩, ⟨"app"⟩], []⟩ = .ok ix' ∧ (ix.findPackage "a").isSome ∧
      (∀ p, ix'.findPackage p = ix.findPackage p) ∧ ∀ q, ix'.packagesIn q = ix.packagesIn q := by
  have hbuild := congrArg (Except.map ofDeclarations) shared_declarations
  obtain ⟨row, hrow, hknows, horder⟩ := packages_of_winners_are_known hbuild
  obtain rfl := Except.ok.inj (shared_declarations.symm.trans hrow)
  have hone : OnePackageEach [⟨"a.b.C", .directory ⟨"jdk/a/b/C.class"⟩, false⟩,
      ⟨"a.b.C", .directory ⟨"lib/a/b/C.class"⟩, false⟩,
      ⟨"x.Y$Z", .directory ⟨"app/x/Y$Z.class"⟩, false⟩] := by
    unfold OnePackageEach
    decide
  obtain ⟨ix', hbuild', hsame⟩ :=
    horder ⟨[⟨"lib"⟩, ⟨"jdk"⟩, ⟨"app"⟩], []⟩ (List.Perm.refl _) (List.Perm.swap _ _ _)
  refine ⟨_, ix', hbuild, hbuild', (hknows.counted hone "a").2 ⟨_, List.mem_cons_self, ?_⟩,
    hsame hone⟩
  have hpackage : packageOf "a.b.C" = "a" ++ "." ++ "b" := by decide
  exact ⟨by decide, Or.inr ⟨"b", hpackage⟩⟩

/-- A nested class, and one with the same source name in a package named like the outer class. -/
def strayFiles : Files :=
  ((Files.emptyAt []).write ["classes", "a", "B$C.class"] ⟨#[]⟩).write
    ["other", "a", "B", "C.class"] ⟨#[]⟩

/-- The package of a class is not known if the class is shadowed from another package, and is known
if the roots change places. -/
theorem a_shadowed_class_hides_its_package :
    (∃ ix row, build strayFiles ⟨[⟨"classes"⟩, ⟨"other"⟩], []⟩ = .ok ix ∧
      Declaration.ofClasspath strayFiles ⟨[⟨"classes"⟩, ⟨"other"⟩], []⟩ = .ok row ∧
      (∃ d ∈ row, d.binaryName = "a.B.C" ∧ Encloses "a.B" (packageOf d.binaryName)) ∧
      ix.findPackage "a.B" = none) ∧
    ∃ ix, build strayFiles ⟨[⟨"other"⟩, ⟨"classes"⟩], []⟩ = .ok ix ∧
      ix.findPackage "a.B" = some ⟨"a.B", .package⟩ := by
  have hnested : Declaration.ofClasspath strayFiles ⟨[⟨"classes"⟩, ⟨"other"⟩], []⟩ =
      .ok [⟨"a.B$C", .directory ⟨"classes/a/B$C.class"⟩, false⟩,
        ⟨"a.B.C", .directory ⟨"other/a/B/C.class"⟩, false⟩] := by
    apply eq_ok_of_toOption
    decide +kernel
  have hplain : Declaration.ofClasspath strayFiles ⟨[⟨"other"⟩, ⟨"classes"⟩], []⟩ =
      .ok [⟨"a.B.C", .directory ⟨"other/a/B/C.class"⟩, false⟩,
        ⟨"a.B$C", .directory ⟨"classes/a/B$C.class"⟩, false⟩] := by
    apply eq_ok_of_toOption
    decide +kernel
  have hpackage : packageOf "a.B.C" = "a.B" := by decide
  refine ⟨⟨_, _, congrArg (Except.map ofDeclarations) hnested, hnested,
    ⟨_, List.mem_cons_of_mem _ List.mem_cons_self, rfl, ?_⟩, by decide +kernel⟩,
    _, congrArg (Except.map ofDeclarations) hplain, by decide +kernel⟩
  exact ⟨by decide, Or.inl hpackage.symm⟩

end Index

end ClasspathSymbols
