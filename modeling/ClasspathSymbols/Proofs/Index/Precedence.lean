import ClasspathSymbols.Proofs.Catalog
import ClasspathSymbols.Proofs.Index.Winners

/-! # The order of a class path

A class path lists items: the source files below its source roots, then the directories and the
archives of its search path. An index is made of the declarations of all items in that order. The
first item that fails is the error; otherwise the first declaration of a name is the answer. -/
namespace ClasspathSymbols

inductive Item where
  | source (file : Path)
  | archive (root : Path)
  | directory (root : Path)
  deriving DecidableEq, Repr

namespace Item

def ofSourceRoot (fs : Files) (root : Path) : List Item :=
  if fs.isDirectory root then
    (fs.scan root Declaration.isSourceFile).map fun f => .source f.path
  else []

def ofSearchRoot (fs : Files) (root : Path) : List Item :=
  if fs.isDirectory root then [.directory root]
  else if fs.isFile root && root.isArchive then [.archive root]
  else []

def all (fs : Files) (c : Classpath) : List Item :=
  c.source.flatMap (ofSourceRoot fs) ++ c.search.flatMap (ofSearchRoot fs)

def typesIn (content : ByteArray) : List SourceFile.DeclaredType :=
  match Text.Utf8.decode? content.data.toList with
  | none => []
  | some text => ((SourceFile.declarations? (String.ofList text)).map (·.types)).getD []

def declarations (fs : Files) : Item → Except BuildError (List Declaration)
  | .source file => ((fs.read file).mapError fun e => .io file (.file e)).map fun content =>
    (typesIn content).map fun t => ⟨t.binaryName, .source file, t.deprecated⟩
  | .archive root => (Catalog.ofArchive fs root).map fun entries =>
    entries.map fun c => ⟨c.binaryName, .archive root c.entry, c.deprecated⟩
  | .directory root => (Catalog.ofDirectory fs root).map fun entries =>
    entries.map fun c => ⟨c.binaryName, .directory (root.join c.entry), c.deprecated⟩

theorem ofSource_eq (fs : Files) (file : Path) :
    Declaration.ofSource fs file = (Item.source file).declarations fs := by
  rw [Declaration.ofSource, declarations]
  cases fs.read file with
  | error e => rfl
  | ok content =>
    simp only [Except.mapError, Except.map, typesIn, bind, Except.bind]
    cases Text.Utf8.decode? content.data.toList with
    | none => rfl
    | some text =>
      simp only
      cases SourceFile.declarations? (String.ofList text) <;> rfl

theorem sourceFiles_eq (fs : Files) (roots : List Path) :
    roots.flatMap (ofSourceRoot fs) = (Declaration.sourceFiles fs roots).map .source := by
  induction roots with
  | nil => rfl
  | cons root roots ih =>
    simp only [List.flatMap_cons, ih, ofSourceRoot, Declaration.sourceFiles, List.filter_cons]
    by_cases h : fs.isDirectory root
    · rw [if_pos h, if_pos h, List.flatMap_cons, List.map_append, List.map_map]
      rfl
    · rw [if_neg h, if_neg h]
      rfl

def ofRoot (fs : Files) (root : Path) : Item :=
  if fs.isDirectory root then .directory root else .archive root

theorem ofRoot_eq (fs : Files) (root : Path) :
    Declaration.ofRoot fs root = (ofRoot fs root).declarations fs := by
  rw [Declaration.ofRoot, ofRoot]
  by_cases h : fs.isDirectory root
  · rw [if_pos h, if_pos h]
    rfl
  · rw [if_neg h, if_neg h]
    rfl

theorem searchRoots_eq (fs : Files) (roots : List Path) :
    roots.flatMap (ofSearchRoot fs) =
      (roots.filter (Declaration.isSearched fs)).map (ofRoot fs) := by
  induction roots with
  | nil => rfl
  | cons root roots ih =>
    rw [List.flatMap_cons, ih, ofSearchRoot, List.filter_cons]
    by_cases hd : fs.isDirectory root
    · have hs : Declaration.isSearched fs root = true := by simp [Declaration.isSearched, hd]
      rw [if_pos hd, if_pos hs, List.map_cons, ofRoot, if_pos hd]
      rfl
    · by_cases ha : (fs.isFile root && root.isArchive) = true
      · have hs : Declaration.isSearched fs root = true := by
          rw [Declaration.isSearched, ha, Bool.or_true]
        rw [if_neg hd, if_pos ha, if_pos hs, List.map_cons, ofRoot, if_neg hd]
        rfl
      · have hs : ¬ Declaration.isSearched fs root = true := by
          rw [Declaration.isSearched, Bool.or_eq_true]
          exact not_or.2 ⟨hd, ha⟩
        rw [if_neg hd, if_neg ha, if_neg hs]
        rfl

theorem ofClasspath_eq (fs : Files) (c : Classpath) :
    Declaration.ofClasspath fs c = ((all fs c).mapM (declarations fs)).map List.flatten := by
  have hsource : Declaration.ofSource fs = declarations fs ∘ .source := funext (ofSource_eq fs)
  have hroot : Declaration.ofRoot fs = declarations fs ∘ ofRoot fs := funext (ofRoot_eq fs)
  rw [Declaration.ofClasspath, all, sourceFiles_eq, searchRoots_eq, List.mapM_append,
    List.mapM_map, List.mapM_map, hsource, hroot]
  cases (Declaration.sourceFiles fs c.source).mapM (declarations fs ∘ .source) with
  | error e => rfl
  | ok sources =>
    cases (c.search.filter (Declaration.isSearched fs)).mapM (declarations fs ∘ ofRoot fs) with
    | error e => rfl
    | ok classes => exact congrArg Except.ok List.flatten_append.symm

def IsListed (fs : Files) : Item → Prop
  | .source file => Declaration.isSourceFile file
  | .archive root => fs.isFile root ∧ root.isArchive
  | .directory root => fs.isDirectory root

/-- Where an item places a declaration: in the source file, in an entry of the archive as written,
or in a file below the directory that is the very file which was walked. -/
def Places (fs : Files) : Item → Declaration → Prop
  | .source file, d => d.place = .source file
  | .archive root, d => ∃ entry, d.place = .archive root entry ∧
      BinaryName.ofEntry? entry = some d.binaryName
  | .directory root, d => ∃ entry content, d.place = .directory (root.join entry) ∧
      BinaryName.ofEntry? entry = some d.binaryName ∧
      fs.IsWalked root (root.join entry) content ∧ d.deprecated = Catalog.deprecatedBytes content

theorem places_source {fs : Files} {file : Path} {ds : List Declaration}
    (h : (Item.source file).declarations fs = .ok ds) {d : Declaration} (hd : d ∈ ds) :
    (Item.source file).Places fs d := by
  rw [declarations] at h
  obtain ⟨content, -, rfl⟩ := map_eq_ok.1 h
  obtain ⟨t, -, rfl⟩ := List.mem_map.1 hd
  rfl

theorem places_archive {fs : Files} {root : Path} {ds : List Declaration}
    (h : (Item.archive root).declarations fs = .ok ds) {d : Declaration} (hd : d ∈ ds) :
    (Item.archive root).Places fs d := by
  rw [declarations] at h
  obtain ⟨entries, hentries, rfl⟩ := map_eq_ok.1 h
  obtain ⟨c, hc, rfl⟩ := List.mem_map.1 hd
  obtain ⟨_, _, -, -, m, -, hm⟩ := Catalog.mem_ofArchive hentries hc
  exact ⟨c.entry, rfl, (Catalog.ofMember_eq_some hm).2⟩

end Item

namespace Index

theorem build_eq_ok {fs : Files} {c : Classpath} {ix : Index} :
    build fs c = .ok ix ↔ ∃ rows,
      List.Forall₂ (fun item ds => item.declarations fs = .ok ds) (Item.all fs c) rows ∧
      ix = ofDeclarations rows.flatten := by
  rw [build, Item.ofClasspath_eq, map_eq_ok]
  constructor
  · rintro ⟨ds, hds, rfl⟩
    obtain ⟨rows, hrows, rfl⟩ := map_eq_ok.1 hds
    exact ⟨rows, mapM_eq_ok.1 hrows, rfl⟩
  · rintro ⟨rows, hrows, rfl⟩
    exact ⟨rows.flatten, map_eq_ok.2 ⟨rows, mapM_eq_ok.2 hrows, rfl⟩, rfl⟩

/-- A class that is declared in a source file and once more in a class directory. -/
def shadowedFiles : Files :=
  ((Files.emptyAt []).write ["classes", "A.class"] ⟨#[]⟩).write ["src", "A.java"]
    "class A {}".toUTF8

end Index

end ClasspathSymbols
