import ClasspathSymbols.Proofs.BinaryName.Segments
import ClasspathSymbols.Proofs.Index.Packages

/-! # Names that can be written in source

The names of an index come from source files and from the entries of class files. Of an entry the
nested names are checked; whether its folders and its outer name can be written is left open, and so
it is for the packages, whose names are beginnings of those of the types. -/
namespace ClasspathSymbols

open BinaryName

/-- The declaration is that of a class file, filed under the name that its entry gives it. -/
def Declaration.IsOfEntry (d : Declaration) (entry : String) : Prop :=
  (∃ root, d.place = .archive root entry ∨ d.place = .directory (root.join entry)) ∧
    ofEntry? entry = some d.binaryName

theorem Item.isOfEntry_of_mem {fs : Files} {item : Item} {ds : List Declaration}
    (h : item.declarations fs = .ok ds) {d : Declaration} (hd : d ∈ ds) :
    (∃ file, d.place = .source file) ∨ ∃ entry, d.IsOfEntry entry := by
  cases item with
  | source file => exact Or.inl ⟨file, places_source h hd⟩
  | archive root =>
    obtain ⟨entry, hplace, hname⟩ := places_archive h hd
    exact Or.inr ⟨entry, ⟨root, Or.inl hplace⟩, hname⟩
  | directory root =>
    rw [declarations] at h
    obtain ⟨entries, hentries, rfl⟩ := map_eq_ok.1 h
    obtain ⟨c, hc, rfl⟩ := List.mem_map.1 hd
    obtain ⟨f, -, hf⟩ := Catalog.mem_ofDirectory hentries hc
    exact Or.inr ⟨c.entry, ⟨root, Or.inr rfl⟩, (Catalog.ofFound_eq_some hf).2.1⟩

namespace Index

variable {fs : Files} {c : Classpath} {ix : Index}

/-- Where the names come from that an index holds. -/
structure NamesCataloged (ix : Index) : Prop where
  types : ∀ n, (ix.findType n).isSome → ∃ d, ix.Wins d n ∧ n = sourceName d.binaryName ∧
    ((∃ file, d.place = .source file) ∨ ∃ entry, d.IsOfEntry entry)
  packages : ∀ p, (ix.findPackage p).isSome →
    ∃ n, (ix.findType n).isSome ∧ segments (sourceName p) <+: segments n

theorem namesCataloged_of_build (h : build fs c = .ok ix) : ix.NamesCataloged := by
  obtain ⟨rows, hrows, rfl⟩ := build_eq_ok.1 h
  have hcoherent := coherent_ofDeclarations rows.flatten
  constructor
  · intro n hn
    obtain ⟨d, hd⟩ := findType_isSome.1 hn
    have hfound := hd
    rw [Wins, ofDeclarations_types] at hfound
    obtain ⟨ds, hds, hmem⟩ := List.mem_flatten.1 (List.mem_of_find?_eq_some hfound)
    obtain ⟨item, -, hitem⟩ := mem_of_mapM (mapM_eq_ok.2 hrows) hds
    exact ⟨d, hd, (hcoherent.named d n hd).symm, Item.isOfEntry_of_mem hitem hmem⟩
  · intro p hp
    rw [findPackage_isSome, Std.TreeSet.mem_toList, hcoherent.packages] at hp
    obtain ⟨d, n, hd, hencloses⟩ := hp
    have hn : sourceName d.binaryName = n := hcoherent.named d n hd
    exact ⟨n, findType_isSome.2 ⟨d, hd⟩, hn ▸ segments_of_encloses hencloses⟩

/-- The nested names of a cataloged class can be written, and all of its name can if its folders,
its outer name and what stands behind dots can. An index holds names of such classes, names from
source files, and the packages of either. -/
theorem nested_names_can_be_written :
    (∀ entry b, ofEntry? entry = some b → ∃ stem, entry.toList = stem ++ classEnding ∧
      ('\\' ∉ simpleName stem → NamedAfter stem b)) ∧
    ∀ fs c ix, build fs c = .ok ix → ix.NamesCataloged := by
  refine ⟨?_, fun fs c ix => namesCataloged_of_build⟩
  intro entry b h
  obtain ⟨stem, hstem, hlisted, rfl⟩ := exists_stem h
  exact ⟨stem, hstem, namedAfter_of_isListed hlisted⟩

theorem the_name_of_a_member_class_can_be_written :
    (∀ s ∈ segments (sourceName "java.util.Map$Entry"), Writable s) ∧
    ∃ ix, build oddFiles ⟨[⟨"classes"⟩], []⟩ = .ok ix ∧
      (ix.findType "a.b..c.Map.Entry").isSome ∧ ix.NamesCataloged := by
  obtain ⟨hname, hindex⟩ := nested_names_can_be_written
  constructor
  · obtain ⟨stem, hstem, hafter⟩ :=
      hname "java/util/Map$Entry.class" "java.util.Map$Entry" (by decide)
    have hentry : "java/util/Map$Entry.class".toList =
        "java/util/Map$Entry".toList ++ classEnding := by
      decide
    obtain rfl := List.append_cancel_right (hentry.symm.trans hstem)
    exact (hafter (by decide)).writable.2 (by decide)
  · have hbuild : build oddFiles ⟨[⟨"classes"⟩], []⟩ = .ok (ofDeclarations [oddClass]) :=
      congrArg (Except.map ofDeclarations) odd_declarations
    exact ⟨_, hbuild, findType_isSome.2 ⟨oddClass, (ofDeclarations_types _ _).trans (by decide)⟩,
      hindex _ _ _ hbuild⟩

/-- The folders, the name in front of the first sign and what stands behind a dot are not checked,
and neither are the packages that come of them. -/
theorem folders_and_outer_names_are_not_checked :
    ofEntry? "META-INF/versions/9/A.class" = some "META-INF.versions.9.A" ∧
    ['9'] ∈ segments (sourceName "META-INF.versions.9.A") ∧ ¬ Writable ['9'] ∧
    ofEntry? "p/$A.class" = some "p.$A" ∧ [] ∈ segments (sourceName "p.$A") ∧
    ofEntry? "B$C.1.class" = some "B$C.1" ∧ ['1'] ∈ segments (sourceName "B$C.1") ∧
    ¬ Writable ['1'] ∧
    ∃ ix, build oddFiles ⟨[⟨"classes"⟩], []⟩ = .ok ix ∧ (ix.findPackage "a$b..c").isSome ∧
      [] ∈ segments (sourceName "a$b..c") := by
  have hbuild : build oddFiles ⟨[⟨"classes"⟩], []⟩ = .ok (ofDeclarations [oddClass]) :=
    congrArg (Except.map ofDeclarations) odd_declarations
  exact ⟨by decide, by decide, by decide, by decide, by decide, by decide, by decide, by decide, _,
    hbuild, by decide +kernel, by decide⟩

end Index

end ClasspathSymbols
