import ClasspathSymbols.Proofs.BinaryName.Entry
import ClasspathSymbols.Proofs.Index.Agreement
import ClasspathSymbols.Proofs.SourceFile.Nesting

/-! # Source files shadow class files

A source file and a class file give a type the same binary name, and source files come first in the
order of a class path. So a type that is in both is looked up in a source file. -/
namespace ClasspathSymbols

open BinaryName SourceFile

def Files.HasSource (fs : Files) (file : Path) (package : String) (chain : List String) : Prop :=
  ∃ content text annotations, fs.read file = .ok content ∧
    Text.Utf8.decode? content.data.toList = some text ∧
    DeclaresIn (nodesOfText (String.ofList text)) package chain annotations

namespace Index

variable {fs : Files} {c : Classpath} {ix : Index}

theorem mem_ofSource {file : Path} {package : String} {chain : List String}
    (h : fs.HasSource file package chain) {ds : List Declaration}
    (hds : Declaration.ofSource fs file = .ok ds) :
    ∃ d ∈ ds, d.binaryName = qualified package chain := by
  obtain ⟨content, text, annotations, hread, htext, hdecl⟩ := h
  have hnodes : nodesOfText (String.ofList text) ≠ [] := by
    obtain ⟨before, n, after, heq, -⟩ := hdecl
    rw [heq]
    simp
  have htypes : Item.typesIn content =
      (Declarations.ofNodes (nodesOfText (.ofList text))).types := by
    rw [Item.typesIn, htext]
    simp only [declarations?_of_nodes hnodes, Option.map_some, Option.getD_some]
  have hmem := mem_types_ofNodes.2 ⟨package, chain, annotations, hdecl, rfl⟩
  rw [← htypes] at hmem
  rw [Item.ofSource_eq, Item.declarations, hread] at hds
  obtain rfl := Except.ok.inj hds
  exact ⟨_, List.mem_map_of_mem hmem, rfl⟩

theorem place_of_ofSource {file : Path} {ds : List Declaration}
    (h : Declaration.ofSource fs file = .ok ds) {d : Declaration} (hd : d ∈ ds) :
    d.place = .source file :=
  Item.places_source (Item.ofSource_eq fs file ▸ h) hd

theorem build_eq_ok_sources (h : build fs c = .ok ix) : ∃ sources classes,
    (Declaration.sourceFiles fs c.source).mapM (Declaration.ofSource fs) = .ok sources ∧
      ix = ofDeclarations (sources.flatten ++ classes) := by
  obtain ⟨ds, hds, rfl⟩ := map_eq_ok.1 h
  obtain ⟨sources, hsources, hds⟩ := bind_eq_ok.1 hds
  obtain ⟨classes, -, hds⟩ := bind_eq_ok.1 hds
  exact ⟨sources, classes.flatten, hsources, congrArg ofDeclarations (Except.ok.inj hds).symm⟩

theorem source_wins (h : build fs c = .ok ix) {file : Path}
    (hfile : file ∈ Declaration.sourceFiles fs c.source) {package : String} {chain : List String}
    (hsource : fs.HasSource file package chain) :
    ∃ d winner, ix.Wins d (sourceName (qualified package chain)) ∧ d.place = .source winner := by
  obtain ⟨sources, classes, hsources, rfl⟩ := build_eq_ok_sources h
  obtain ⟨ds, hds, hof⟩ := exists_of_mapM hsources hfile
  obtain ⟨e, he, hname⟩ := mem_ofSource hsource hof
  have hfound : (sources.flatten.find? fun d =>
      d.sourceName = sourceName (qualified package chain)).isSome := by
    rw [List.find?_isSome]
    exact ⟨e, List.mem_flatten.2 ⟨ds, hds, he⟩, decide_eq_true (congrArg sourceName hname)⟩
  obtain ⟨d, hd⟩ := Option.isSome_iff_exists.1 hfound
  obtain ⟨row, hrow, hdrow⟩ := List.mem_flatten.1 (List.mem_of_find?_eq_some hd)
  obtain ⟨winner, -, hwinner⟩ := mem_of_mapM hsources hrow
  refine ⟨d, winner, ?_, place_of_ofSource hwinner hdrow⟩
  rw [Wins, ofDeclarations_types, List.find?_append, hd, Option.some_or]

/-- Of the two names of a type the binary one leads to the winner of the source name, or nowhere if
that one has another binary name. -/
theorem declaration?_binaryName (h : Coherent ix) {d : Declaration} {b : String}
    (hd : ix.Wins d (sourceName b)) :
    ix.declaration? b = some d ∨ ix.declaration? b = none ∧ d.binaryName ≠ b := by
  cases htype : ix.types[b]? with
  | some e =>
    have he : sourceName e.binaryName = b := h.named e b htype
    have hb : sourceName b = b := by rw [← he, sourceName_sourceName]
    rw [hb] at hd
    exact Or.inl (by rw [declaration?, hd, Option.some_or])
  | none =>
    cases hbinary : ix.byBinaryName[b]? with
    | some n =>
      obtain ⟨e, he, heb⟩ := (h.byBinaryName b n).1 hbinary
      have hn : sourceName b = n := by rw [← heb, ← h.named e n he, Declaration.sourceName]
      rw [hn] at hd
      refine Or.inl ?_
      rw [declaration?, htype, hbinary, Option.none_or, Option.bind_some, hd]
    | none =>
      refine Or.inr ⟨by rw [declaration?, htype, hbinary]; rfl, ?_⟩
      intro hdb
      rw [(h.byBinaryName b _).2 ⟨d, hd, hdb⟩] at hbinary
      cases hbinary

/-- Whichever name of a type is looked up, the answer is a declaration from a source file. -/
def AnsweredBySource (ix : Index) (b : String) : Prop :=
  ∃ d file, d.place = .source file ∧ d.sourceName = sourceName b ∧
    ix.declaration? (sourceName b) = some d ∧ ix.Answers (sourceName b) (some d) ∧
    (ix.declaration? b = some d ∨ ix.declaration? b = none ∧ d.binaryName ≠ b)

theorem answeredBySource_of_source (h : build fs c = .ok ix) {file : Path}
    (hfile : file ∈ Declaration.sourceFiles fs c.source) {package : String} {chain : List String}
    (hsource : fs.HasSource file package chain) :
    ix.AnsweredBySource (qualified package chain) := by
  obtain ⟨d, winner, hwins, hplace⟩ := source_wins h hfile hsource
  obtain ⟨rows, -, rfl⟩ := build_eq_ok.1 h
  have hcoherent := coherent_ofDeclarations rows.flatten
  refine ⟨d, winner, hplace, hcoherent.named d _ hwins, ?_, answers_of_types hwins,
    declaration?_binaryName hcoherent hwins⟩
  rw [declaration?, hwins, Option.some_or]

/-- A source file records a type under the name that its class file gives it, the name in source
and the package can be had from this name, and the type is looked up in a source file. -/
theorem source_shadows_class {parts chain : List String} (hparts : ∀ s ∈ parts, IsIdentifier s)
    (hne : chain ≠ []) (hchain : ∀ s ∈ chain, IsIdentifier s ∧ nestingSign ∉ s.toList) :
    (∀ nodes annotations, DeclaresIn nodes (packageName parts) chain annotations →
      ⟨qualified (packageName parts) chain, SourceFile.isDeprecated annotations⟩ ∈
        (Declarations.ofNodes nodes).types) ∧
    ofEntry? (entryOf (packageName parts) chain) = some (qualified (packageName parts) chain) ∧
    sourceName (qualified (packageName parts) chain) =
      inPackage (sourceName (packageName parts)) ++ ".".intercalate chain ∧
    packageOf (qualified (packageName parts) chain) = packageName parts ∧
    ∀ fs c ix, build fs c = .ok ix → ∀ file ∈ Declaration.sourceFiles fs c.source,
      fs.HasSource file (packageName parts) chain →
        ix.AnsweredBySource (qualified (packageName parts) chain) := by
  have hids := fun s hs => (hchain s hs).1
  have hsigns := fun s hs => (hchain s hs).2
  refine ⟨?_, ofEntry_entryOf (noSlash_packageName hparts) hne hids hsigns,
    sourceName_qualified _ hsigns, packageOf_qualified _ hids, ?_⟩
  · intro nodes annotations h
    exact mem_types_ofNodes.2 ⟨_, chain, annotations, h, rfl⟩
  · intro fs c ix h file hfile hsource
    exact answeredBySource_of_source h hfile hsource

def nestedText : String := "package a; class B { class C {} }"

theorem nestedText_nodes : nodesOfText nestedText =
    [.package "a", .type .ofClass [] "B" [.type .ofClass [] "C" []]] := by
  have htokens : (scan .start nestedText.toList).1 =
      [⟨[], "package".toList, .word⟩, ⟨[' '], ['a'], .word⟩, ⟨[], [';'], .sign⟩,
        ⟨[' '], "class".toList, .word⟩, ⟨[' '], ['B'], .word⟩, ⟨[' '], ['{'], .opening .curly⟩,
        ⟨[' '], "class".toList, .word⟩, ⟨[' '], ['C'], .word⟩, ⟨[' '], ['{'], .opening .curly⟩,
        ⟨[], ['}'], .closing .curly⟩, ⟨[' '], ['}'], .closing .curly⟩] := by
    decide +kernel
  rw [nodesOfText, htokens]
  rfl

def nestedFiles : Files :=
  ((Files.emptyAt []).write ["classes", "a", "B$C.class"] ⟨#[]⟩).write ["src", "B.java"]
    nestedText.toUTF8

def nestedClasspath : Classpath := ⟨[⟨"classes"⟩], [⟨"src"⟩]⟩

theorem hasSource_of_nestedText {file : Path}
    (h : (fs.read file).toOption = some nestedText.toUTF8) :
    fs.HasSource file (packageName ["a"]) ["B", "C"] := by
  have htext : Text.Utf8.decode? nestedText.toUTF8.data.toList = some nestedText.toList := by
    decide +kernel
  refine ⟨_, _, [], eq_ok_of_toOption h, htext, ?_⟩
  rw [String.ofList_toList, nestedText_nodes]
  exact ⟨[.package "a"], _, [], rfl, rfl,
    .member false .ofClass [] "B" List.mem_cons_self (.self true .ofClass [] "C" [])⟩

theorem nested_declarations : Declaration.ofClasspath nestedFiles nestedClasspath =
    .ok [⟨"a.B", .source ⟨"src/B.java"⟩, false⟩, ⟨"a.B$C", .source ⟨"src/B.java"⟩, false⟩,
      ⟨"a.B$C", .directory ⟨"classes/a/B$C.class"⟩, false⟩] := by
  apply eq_ok_of_toOption
  decide +kernel

theorem the_source_shadows_the_nested_class :
    ofEntry? (entryOf (packageName ["a"]) ["B", "C"]) = some "a.B$C" ∧
      ∃ ix, build nestedFiles nestedClasspath = .ok ix ∧ ix.AnsweredBySource "a.B$C" := by
  obtain ⟨-, hentry, -, -, hanswered⟩ := @source_shadows_class ["a"] ["B", "C"]
    (by decide) (by decide) (by decide)
  have hbuild := congrArg (Except.map ofDeclarations) nested_declarations
  exact ⟨hentry, _, hbuild, hanswered _ _ _ hbuild ⟨"src/B.java"⟩ (by decide +kernel)
    (hasSource_of_nestedText (by decide))⟩

/-- The nested class once more, with another source that gives its name in source to a class with
another binary name. -/
def rivalFiles : Files := nestedFiles.write ["other", "C.java"] "package a.B; class C {}".toUTF8

def rivalClasspath : Classpath := ⟨[⟨"classes"⟩], [⟨"other"⟩, ⟨"src"⟩]⟩

theorem rival_declarations : Declaration.ofClasspath rivalFiles rivalClasspath =
    .ok [⟨"a.B.C", .source ⟨"other/C.java"⟩, false⟩, ⟨"a.B", .source ⟨"src/B.java"⟩, false⟩,
      ⟨"a.B$C", .source ⟨"src/B.java"⟩, false⟩,
      ⟨"a.B$C", .directory ⟨"classes/a/B$C.class"⟩, false⟩] := by
  apply eq_ok_of_toOption
  decide +kernel

/-- A nesting sign in a package does not come through to the source name, and a binary name may
lead nowhere although a source file and a class file declare it. -/
theorem signs_and_rivals_are_in_the_way :
    (IsIdentifier "a$b" ∧ IsIdentifier "C" ∧
      sourceName (qualified (packageName ["a$b"]) ["C"]) ≠
        inPackage (packageName ["a$b"]) ++ ".".intercalate ["C"]) ∧
    ∃ ix, build rivalFiles rivalClasspath = .ok ix ∧
      ⟨"src/B.java"⟩ ∈ Declaration.sourceFiles rivalFiles rivalClasspath.source ∧
      rivalFiles.HasSource ⟨"src/B.java"⟩ (packageName ["a"]) ["B", "C"] ∧
      ix.binaryName (qualified (packageName ["a"]) ["B", "C"]) = none := by
  have hbuild := congrArg (Except.map ofDeclarations) rival_declarations
  exact ⟨by decide +kernel, _, hbuild, by decide +kernel,
    hasSource_of_nestedText (by decide),
    by decide⟩

end Index

end ClasspathSymbols
