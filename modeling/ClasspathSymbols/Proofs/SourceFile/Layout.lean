import ClasspathSymbols.Proofs.SourceFile.Places
import ClasspathSymbols.Proofs.SourceFile.Respelling

/-! # Layout of a source file

White space and comments between the tokens of a source do not change what it declares, except
inside of the names of packages and of annotations. -/
namespace ClasspathSymbols.SourceFile

/-- What a source declares; a blank one no type, in no package. -/
def declared (source : String) : Declarations := (declarations? source).getD ⟨"", []⟩

theorem declared_eq (source : String) : declared source = .ofNodes (nodesOfText source) := by
  by_cases hblank : Text.trim source.toList = []
  · rw [declared, declarations?_eq_none.2 hblank, nodesOfText_of_blank hblank]
    rfl
  · rw [declared, declarations?, if_neg hblank]
    rfl

def Declarations.names (d : Declarations) : List String := d.types.map DeclaredType.binaryName

def Declarations.flags (d : Declarations) : List Bool := d.types.map DeclaredType.deprecated

theorem Declarations.types_eq (d : Declarations) :
    d.types = List.zipWith DeclaredType.mk d.names d.flags := by
  rw [names, flags, List.zipWith_map, List.zipWith_self]
  exact (List.map_id _).symm

theorem Declarations.eq_of_parts {d e : Declarations} (hpackage : d.package = e.package)
    (hnames : d.names = e.names) (hflags : d.flags = e.flags) : d = e := by
  have htypes : d.types = e.types := by rw [d.types_eq, e.types_eq, hnames, hflags]
  cases d
  cases e
  exact congrArg₂ Declarations.mk hpackage htypes

def packageNames (nodes : List Node) : List String :=
  nodes.filterMap fun n => match n with
    | .package name => some name
    | _ => none

mutual

def Node.annotationNames (inBody : Bool) : Node → List (List String)
  | .type _ annotations _ members => annotations :: annotationNamesOf true members
  | .behindConstants members => if inBody then annotationNamesOf false members else []
  | .package _ | .other _ => []

def annotationNamesOf (inBody : Bool) : List Node → List (List String)
  | [] => []
  | n :: rest => n.annotationNames inBody ++ annotationNamesOf inBody rest

end

mutual

theorem Node.deprecated_types (inBody : Bool) (outer : String) : ∀ n : Node,
    (n.types inBody outer).map DeclaredType.deprecated =
      (n.annotationNames inBody).map isDeprecated
  | .package _ | .other _ => rfl
  | .behindConstants members => by
    rw [Node.types, Node.annotationNames]
    split
    · exact deprecated_typesOf false outer members
    · rfl
  | .type _ annotations _ members =>
    congrArg (isDeprecated annotations :: ·) (deprecated_typesOf true _ members)

theorem deprecated_typesOf (inBody : Bool) (outer : String) : ∀ nodes : List Node,
    (typesOf inBody outer nodes).map DeclaredType.deprecated =
      (annotationNamesOf inBody nodes).map isDeprecated
  | [] => rfl
  | n :: rest => by
    rw [typesOf, annotationNamesOf, List.map_append, List.map_append,
      n.deprecated_types inBody outer, deprecated_typesOf inBody outer rest]

end

theorem annotationNamesOf_append (inBody : Bool) (before after : List Node) :
    annotationNamesOf inBody (before ++ after) =
      annotationNamesOf inBody before ++ annotationNamesOf inBody after := by
  induction before with
  | nil => rfl
  | cons n before ih =>
    rw [List.cons_append, annotationNamesOf, annotationNamesOf, ih, List.append_assoc]

theorem flags_ofNodes (nodes : List Node) :
    (Declarations.ofNodes nodes).flags = (annotationNamesOf false nodes).map isDeprecated := by
  induction nodes using List.reverseRecOn with
  | nil => rfl
  | append_singleton nodes n ih =>
    rw [Declarations.flags] at ih ⊢
    rw [types_ofNodes_snoc, List.map_append, ih, n.deprecated_types, annotationNamesOf_append,
      List.map_append, annotationNamesOf, annotationNamesOf, List.append_nil]

/-- The names are the same behind the packages, and these are related. -/
def InPackages (R : String → String → Prop) (m n : String) : Prop :=
  ∃ package package' own, R package package' ∧ m = inPackage package ++ own ∧
    n = inPackage package' ++ own

/-- Types that are declared alike are called alike, whatever they are put after. -/
theorem Alike.own_names {R : String → String → Prop} {ms ns : List Node} (h : Alike R ms ns)
    (inBody : Bool) : ∃ owns : List String, ∀ outer,
      (typesOf inBody outer ms).map DeclaredType.binaryName = owns.map (outer ++ ·) ∧
        (typesOf inBody outer ns).map DeclaredType.binaryName = owns.map (outer ++ ·) := by
  -- One row of own names has to serve for every `outer`, as the packages may differ.
  induction h generalizing inBody with
  | nil => exact ⟨[], fun _ => ⟨rfl, rfl⟩⟩
  | package _ _ ih => exact ih inBody
  | other _ _ _ ih => exact ih inBody
  | behindConstants _ _ ihmembers ih =>
    obtain ⟨owns, howns⟩ := ih inBody
    cases inBody with
    | false => exact ⟨owns, howns⟩
    | true =>
      obtain ⟨inner, hinner⟩ := ihmembers false
      refine ⟨inner ++ owns, fun outer => ?_⟩
      simp only [typesOf, Node.types, if_true, List.map_append, howns, hinner, and_self]
  | type form name _ _ _ ihmembers ih =>
    obtain ⟨inner, hinner⟩ := ihmembers true
    obtain ⟨owns, howns⟩ := ih inBody
    refine ⟨name :: inner.map (name ++ String.singleton BinaryName.nestingSign ++ ·) ++ owns,
      fun outer => ?_⟩
    simp only [typesOf, Node.types, List.map_append, List.map_cons, howns, hinner, List.map_map,
      Function.comp_def, String.append_assoc, and_self]

structure Declarations.Alike (R : String → String → Prop) (d e : Declarations) : Prop where
  package : R d.package e.package
  names : List.Forall₂ (InPackages R) d.names e.names

theorem Declarations.Alike.add_types {R S : String → String → Prop} {d e : Declarations}
    (h : d.Alike S e) {ms ns : List Node} (hnodes : SourceFile.Alike R ms ns) :
    Declarations.Alike S ⟨d.package, d.types ++ typesOf false (inPackage d.package) ms⟩
      ⟨e.package, e.types ++ typesOf false (inPackage e.package) ns⟩ := by
  obtain ⟨owns, howns⟩ := hnodes.own_names false
  refine ⟨h.package, ?_⟩
  rw [Declarations.names.eq_1, Declarations.names.eq_1, List.map_append, List.map_append,
    (howns _).1, (howns _).2]
  refine List.rel_append h.names ?_
  rw [List.forall₂_map_left_iff, List.forall₂_map_right_iff, List.forall₂_same]
  exact fun own _ => ⟨_, _, own, h.package, rfl, rfl⟩

theorem Alike.foldl_add {R S : String → String → Prop} {ms ns : List Node} (h : Alike R ms ns)
    (hpackages : List.Forall₂ S (packageNames ms) (packageNames ns)) {d e : Declarations}
    (hd : d.Alike S e) : (ms.foldl Declarations.add d).Alike S (ns.foldl Declarations.add e) := by
  induction h generalizing d e with
  | nil => exact hd
  | package _ _ ih =>
    cases hpackages with
    | cons hname hpackages => exact ih hpackages ⟨hname, hd.names⟩
  | type form name hannotations hmembers _ _ ih =>
    have hself := hd.add_types (.type form name hannotations hmembers .nil)
    simp only [typesOf, List.append_nil] at hself
    exact ih hpackages hself
  | behindConstants hmembers _ _ ih =>
    have hself := hd.add_types (.behindConstants hmembers .nil)
    simp only [typesOf, List.append_nil] at hself
    exact ih hpackages hself
  | other hchildren _ _ ih =>
    have hself := hd.add_types (.other hchildren .nil)
    simp only [typesOf, List.append_nil] at hself
    exact ih hpackages hself

theorem Alike.packageNames {R : String → String → Prop} {ms ns : List Node} (h : Alike R ms ns) :
    List.Forall₂ R (packageNames ms) (packageNames ns) := by
  induction h with
  | nil => exact .nil
  | package hname _ ih => exact .cons hname ih
  | type _ _ _ _ _ _ ih => exact ih
  | behindConstants _ _ _ ih => exact ih
  | other _ _ _ ih => exact ih

theorem Alike.annotationNames {R : String → String → Prop} {ms ns : List Node} (h : Alike R ms ns)
    (inBody : Bool) : List.Forall₂ (List.Forall₂ R) (annotationNamesOf inBody ms)
      (annotationNamesOf inBody ns) := by
  induction h generalizing inBody with
  | nil => exact .nil
  | package _ _ ih => exact ih inBody
  | type _ _ hannotations _ _ ihmembers ih =>
    exact .cons hannotations (List.rel_append (ihmembers true) (ih inBody))
  | behindConstants _ _ ihmembers ih =>
    cases inBody with
    | false => exact ih false
    | true => exact List.rel_append (ihmembers false) (ih true)
  | other _ _ _ ih => exact ih inBody

def packagesOf (source : String) : List String := packageNames (nodesOfText source)

def annotationsOf (source : String) : List (List String) :=
  annotationNamesOf false (nodesOfText source)

/-- Two sources declare the same types and differ at most in how the names of packages and of
annotations are spelled. -/
structure SameUpToSpelling (s t : String) : Prop where
  packages : List.Forall₂ Respells (packagesOf s) (packagesOf t)
  annotations : List.Forall₂ (List.Forall₂ Respells) (annotationsOf s) (annotationsOf t)
  package : Respells (declared s).package (declared t).package
  names : List.Forall₂ (InPackages Respells) (declared s).names (declared t).names
  same_names : packagesOf s = packagesOf t →
    (declared s).package = (declared t).package ∧ (declared s).names = (declared t).names
  same_flags : annotationsOf s = annotationsOf t → (declared s).flags = (declared t).flags

/-- No name of a package or of an annotation of a type has layout in it. -/
def NamesInOnePiece (source : String) : Prop :=
  (∀ name ∈ packagesOf source, OnePiece name) ∧
    ∀ names ∈ annotationsOf source, ∀ name ∈ names, OnePiece name

instance (source : String) : Decidable (NamesInOnePiece source) :=
  inferInstanceAs (Decidable (_ ∧ _))

theorem respells_empty : Respells "" "" :=
  have hempty : Bares "" "" := ⟨[], fun _ h => absurd h List.not_mem_nil, rfl, rfl⟩
  ⟨"", hempty, hempty⟩

theorem eq_of_inPackages_eq {m n : String} (h : InPackages (· = ·) m n) : m = n := by
  obtain ⟨package, _, own, rfl, rfl, rfl⟩ := h
  rfl

theorem SameTokens.declared_alike {S : String → String → Prop} {s t : String} (h : SameTokens s t)
    (hempty : S "" "") (hpackages : List.Forall₂ S (packagesOf s) (packagesOf t)) :
    (declared s).Alike S (declared t) := by
  rw [declared_eq, declared_eq]
  exact h.alike.foldl_add hpackages ⟨hempty, .nil⟩

theorem SameTokens.sameUpToSpelling {s t : String} (h : SameTokens s t) :
    SameUpToSpelling s t := by
  have hspelled := h.declared_alike respells_empty h.alike.packageNames
  refine ⟨h.alike.packageNames, h.alike.annotationNames false, hspelled.package, hspelled.names,
    ?_, ?_⟩
  · -- If the packages are called the same, their names may be related by equality.
    intro hpackages
    obtain ⟨hpackage, hnames⟩ := h.declared_alike rfl (by rw [List.forall₂_eq_eq_eq, hpackages])
    refine ⟨hpackage, ?_⟩
    rw [← List.forall₂_eq_eq_eq]
    exact hnames.imp fun _ _ => eq_of_inPackages_eq
  · intro hannotations
    rw [declared_eq, declared_eq, flags_ofNodes, flags_ofNodes]
    exact congrArg (List.map isDeprecated) hannotations

theorem eq_of_forall₂ {α : Type} {R : α → α → Prop} {P : α → Prop} {as bs : List α}
    (hR : ∀ a b, R a b → P a → P b → a = b) (h : List.Forall₂ R as bs) (has : ∀ a ∈ as, P a)
    (hbs : ∀ b ∈ bs, P b) : as = bs := by
  induction h with
  | nil => rfl
  | cons hab _ ih =>
    obtain ⟨ha, has⟩ := List.forall_mem_cons.1 has
    obtain ⟨hb, hbs⟩ := List.forall_mem_cons.1 hbs
    rw [hR _ _ hab ha hb, ih has hbs]

/-- Layout between the tokens of a source changes nothing in what it declares but how the names of
packages and of annotations are spelled, and nothing at all where these are in one piece. -/
theorem layout_matters_only_in_names {s t : String} (h : SameTokens s t) :
    SameUpToSpelling s t ∧ (NamesInOnePiece s → NamesInOnePiece t → declared s = declared t) := by
  have hsame := h.sameUpToSpelling
  refine ⟨hsame, fun hs ht => ?_⟩
  have hnames : ∀ ms ns : List String, List.Forall₂ Respells ms ns → (∀ m ∈ ms, OnePiece m) →
      (∀ n ∈ ns, OnePiece n) → ms = ns := fun _ _ =>
    eq_of_forall₂ fun _ _ hname hm hn => hname.eq_of_onePiece hm hn
  obtain ⟨hpackage, hbinary⟩ := hsame.same_names (hnames _ _ hsame.packages hs.1 ht.1)
  have hflags := hsame.same_flags (eq_of_forall₂ hnames hsame.annotations hs.2 ht.2)
  exact Declarations.eq_of_parts hpackage hbinary hflags

/-- Comments, spaces and closing signs that are written together change nothing. -/
theorem comments_change_nothing :
    let tight := "package a.b;@Deprecated class C<T>{List<List<T>>x;enum E{}}"
    let loose := "/* A */ package a.b ;\n@ Deprecated // B\n" ++
      "class C < T > { List<List<T> > x; enum E { } }"
    SameTokens tight loose ∧ NamesInOnePiece tight ∧ NamesInOnePiece loose ∧
      declared tight = ⟨"a.b", [⟨"a.b.C", true⟩, ⟨"a.b.C$E", false⟩]⟩ ∧
      declared tight = declared loose := by
  intro tight loose
  have hsides : SameTokens tight loose ∧ NamesInOnePiece tight ∧ NamesInOnePiece loose ∧
      declared tight = ⟨"a.b", [⟨"a.b.C", true⟩, ⟨"a.b.C$E", false⟩]⟩ := by
    decide +kernel
  obtain ⟨hsame, htight, hloose, htypes⟩ := hsides
  exact ⟨hsame, htight, hloose, htypes, (layout_matters_only_in_names hsame).2 htight hloose⟩

/-- With spaces in it a name is another name, of a package as of an annotation. -/
theorem spaced_names_are_other_names :
    let tight := "package a.b; @java.lang.Deprecated class C {}"
    let loose := "package a . b; @java . lang . Deprecated class C {}"
    SameTokens tight loose ∧ declared tight = ⟨"a.b", [⟨"a.b.C", true⟩]⟩ ∧
      declared loose = ⟨"a . b", [⟨"a . b.C", false⟩]⟩ := by
  decide +kernel

end ClasspathSymbols.SourceFile
