import ClasspathSymbols.Proofs.BinaryName
import ClasspathSymbols.Proofs.Index.Precedence
import Mathlib.Algebra.BigOperators.Group.List.Lemmas
import Mathlib.Algebra.GroupWithZero.Nat
import Mathlib.Data.List.Induction

/-! # The answers of one index agree

The winners by source name determine the other three tables of an index: each table lists the
winners and nothing else, and the packages are those that enclose the package of a winner. An index
keeps this up while it grows, although it looks for packages only up to the first that it knows. -/
namespace ClasspathSymbols.Index

open BinaryName

theorem mem_addPackages {known : Std.TreeSet String} {package : List Char}
    (hclosed : ∀ q p, Encloses q (String.ofList package) → q ∈ known → Encloses p q → p ∈ known)
    (outer : List Char) :
    String.ofList outer ∈ addPackages known package ↔
      String.ofList outer ∈ known ∨ Encloses (String.ofList outer) (String.ofList package) := by
  fun_induction addPackages known package with
  | case1 known =>
    simp [not_encloses_empty]
  | case2 known package hne hknown =>
    rw [Std.TreeSet.contains_iff_mem] at hknown
    constructor
    · exact Or.inl
    · rintro (h | h)
      · exact h
      · exact hclosed _ _ (encloses_self hne) hknown h
  | case3 known package hne _ _ ih =>
    have haround : ∀ q, Encloses q (String.ofList (splitLast package).1) →
        Encloses q (String.ofList package) := by
      intro q hq
      rw [← String.ofList_toList (s := q)] at hq ⊢
      exact (encloses_iff_around hne).2 (Or.inr hq)
    have hgrown := ih fun q p hq hmem hp => by
      rcases Std.TreeSet.mem_insert.1 hmem with heq | hmem
      · rw [Std.compare_eq_iff_eq] at heq
        exact absurd (heq ▸ hq) (not_encloses_around hne)
      · exact Std.TreeSet.mem_insert.2 (Or.inr (hclosed q p (haround q hq) hmem hp))
    rw [hgrown, encloses_iff_around hne, Std.TreeSet.mem_insert, Std.compare_eq_iff_eq,
      String.ofList_inj, eq_comm, or_assoc]
    exact or_left_comm

def Wins (ix : Index) (d : Declaration) (n : String) : Prop := ix.types[n]? = some d

/-- The other tables of an index say of its winners what the table by source name says. -/
structure Coherent (ix : Index) : Prop where
  named : ∀ d n, ix.Wins d n → d.sourceName = n
  byBinaryName : ∀ b n, ix.byBinaryName[b]? = some n ↔ ∃ d, ix.Wins d n ∧ d.binaryName = b
  bySimpleName : ∀ s n, n ∈ ix.bySimpleName.getD s ∅ ↔ (∃ d, ix.Wins d n) ∧ lastPart n = s
  packages : ∀ p, p ∈ ix.packages ↔ ∃ d n, ix.Wins d n ∧ Encloses p (packageOf d.binaryName)

theorem coherent_empty : Coherent empty := by
  constructor <;> simp [empty, Wins]

theorem insert_of_known {ix : Index} {d : Declaration} (h : d.sourceName ∈ ix.types) :
    ix.insert d = ix := by
  simp [insert, h]

theorem insert_of_new {ix : Index} {d : Declaration} (h : d.sourceName ∉ ix.types) :
    ix.insert d =
      { types := ix.types.insert d.sourceName d
        byBinaryName := ix.byBinaryName.insert d.binaryName d.sourceName
        bySimpleName := ix.bySimpleName.insert (lastPart d.sourceName)
          ((ix.bySimpleName.getD (lastPart d.sourceName) ∅).insert d.sourceName)
        packages := addPackages ix.packages (splitLast d.binaryName.toList).1 } := by
  simp [insert, h]

theorem wins_insert {ix : Index} {d : Declaration} (h : d.sourceName ∉ ix.types)
    {e : Declaration} {n : String} :
    (ix.insert d).Wins e n ↔ e = d ∧ n = d.sourceName ∨ ix.Wins e n := by
  have hnone : ix.types[d.sourceName]? = none := by simpa using h
  rw [Wins, Wins, insert_types]
  by_cases hn : d.sourceName = n
  · subst hn
    simp [hnone, eq_comm]
  · simp [hn, Ne.symm hn]

theorem byBinaryName_insert {ix : Index} {d : Declaration} (h : d.sourceName ∉ ix.types)
    (b : String) : (ix.insert d).byBinaryName[b]? =
      if d.binaryName = b then some d.sourceName else ix.byBinaryName[b]? := by
  rw [insert_of_new h, Std.TreeMap.getElem?_insert]
  simp only [Std.compare_eq_iff_eq]

theorem mem_bySimpleName_insert {ix : Index} {d : Declaration} (h : d.sourceName ∉ ix.types)
    (s n : String) : n ∈ (ix.insert d).bySimpleName.getD s ∅ ↔
      n = d.sourceName ∧ lastPart n = s ∨ n ∈ ix.bySimpleName.getD s ∅ := by
  rw [insert_of_new h, Std.TreeMap.getD_insert]
  simp only [Std.compare_eq_iff_eq]
  split
  · rename_i hs
    subst hs
    rw [Std.TreeSet.mem_insert, Std.compare_eq_iff_eq]
    apply or_congr_left
    constructor
    · rintro rfl
      exact ⟨rfl, rfl⟩
    · rintro ⟨rfl, -⟩
      rfl
  · rename_i hs
    constructor
    · exact Or.inr
    · rintro (⟨rfl, hl⟩ | hn)
      · exact absurd hl hs
      · exact hn

theorem Coherent.enclosing_known {ix : Index} (h : Coherent ix) {p q : String}
    (hq : q ∈ ix.packages) (hp : Encloses p q) : p ∈ ix.packages := by
  obtain ⟨d, n, hd, hqd⟩ := (h.packages q).1 hq
  exact (h.packages p).2 ⟨d, n, hd, hp.trans hqd⟩

theorem mem_packages_insert {ix : Index} (h : Coherent ix) {d : Declaration}
    (hnew : d.sourceName ∉ ix.types) (p : String) :
    p ∈ (ix.insert d).packages ↔ p ∈ ix.packages ∨ Encloses p (packageOf d.binaryName) := by
  have hadded := @mem_addPackages ix.packages (splitLast d.binaryName.toList).1
    (fun _ _ _ hq hp => h.enclosing_known hq hp) p.toList
  rw [String.ofList_toList] at hadded
  rw [insert_of_new hnew]
  exact hadded

theorem coherent_insert {ix : Index} (h : Coherent ix) (d : Declaration) :
    Coherent (ix.insert d) := by
  by_cases hknown : d.sourceName ∈ ix.types
  · rwa [insert_of_known hknown]
  have hwins := @wins_insert ix d hknown
  constructor
  · intro e n he
    rcases hwins.1 he with ⟨rfl, rfl⟩ | he
    · rfl
    · exact h.named e n he
  · intro b n
    simp only [byBinaryName_insert hknown, hwins]
    split
    · rename_i hb
      subst hb
      constructor
      · intro hn
        exact ⟨d, Or.inl ⟨rfl, (Option.some.inj hn).symm⟩, rfl⟩
      · rintro ⟨e, ⟨rfl, rfl⟩ | he, heb⟩
        · rfl
        · have hsame : e.sourceName = d.sourceName := congrArg sourceName heb
          rw [← h.named e n he, hsame]
    · rename_i hb
      rw [h.byBinaryName]
      constructor
      · rintro ⟨e, he, heb⟩
        exact ⟨e, Or.inr he, heb⟩
      · rintro ⟨e, ⟨rfl, -⟩ | he, heb⟩
        · exact absurd heb hb
        · exact ⟨e, he, heb⟩
  · intro s n
    simp only [mem_bySimpleName_insert hknown, h.bySimpleName, hwins, exists_or,
      exists_and_right, exists_eq, true_and, or_and_right]
  · intro p
    rw [mem_packages_insert h hknown, h.packages]
    constructor
    · rintro (⟨e, n, he, hp⟩ | hp)
      · exact ⟨e, n, hwins.2 (Or.inr he), hp⟩
      · exact ⟨d, _, hwins.2 (Or.inl ⟨rfl, rfl⟩), hp⟩
    · rintro ⟨e, n, he, hp⟩
      rcases hwins.1 he with ⟨rfl, -⟩ | he
      · exact Or.inr hp
      · exact Or.inl ⟨e, n, he, hp⟩

theorem coherent_ofDeclarations (ds : List Declaration) : Coherent (ofDeclarations ds) := by
  induction ds using List.reverseRecOn with
  | nil => exact coherent_empty
  | append_singleton ds d ih =>
    rw [ofDeclarations, List.foldl_append]
    exact coherent_insert ih d

theorem findType_isSome {ix : Index} {n : String} :
    (ix.findType n).isSome ↔ ∃ d, ix.Wins d n := by
  rw [findType, types_contains]
  cases htype : ix.types[n]? <;> simp [Wins, htype]

theorem mem_withSimpleName {ix : Index} (h : Coherent ix) {n s : String} :
    n ∈ ix.withSimpleName s ↔ (ix.findType n).isSome ∧ lastPart n = s := by
  rw [withSimpleName, Std.TreeSet.mem_toList, h.bySimpleName, findType_isSome]

theorem withSimpleName_sorted (ix : Index) (s : String) :
    (ix.withSimpleName s).Pairwise (· < ·) := by
  have ho := Std.TreeSet.ordered_toList (t := ix.bySimpleName.getD s ∅)
  exact ho.imp compareOfLessAndEq_eq_lt.1

theorem binaryName_of_wins {ix : Index} {d : Declaration} {n : String} (h : ix.Wins d n) :
    ix.binaryName n = some d.binaryName := by
  rw [binaryName, declaration?, h]
  rfl

theorem binaryName_binaryName {ix : Index} (h : Coherent ix) {d : Declaration} {n : String}
    (hd : ix.Wins d n) : ix.binaryName d.binaryName = some d.binaryName := by
  cases htype : ix.types[d.binaryName]? with
  | some e =>
    -- A binary name that is a source name has no nesting sign, so it is the name that `d` won.
    have he : sourceName e.binaryName = d.binaryName := h.named e _ htype
    have hn : sourceName d.binaryName = n := h.named d n hd
    rw [← he, sourceName_sourceName, he] at hn
    rw [hn]
    have hb := binaryName_of_wins hd
    rwa [hn] at hb
  | none =>
    have hb : ix.byBinaryName[d.binaryName]? = some n := (h.byBinaryName _ _).2 ⟨d, hd, rfl⟩
    rw [binaryName, declaration?, htype, hb, Option.none_or, Option.bind_some, hd]
    rfl

theorem wins_of_binaryName {ix : Index} (h : Coherent ix) {m b : String}
    (hb : ix.binaryName m = some b) :
    (m = b ∨ m = sourceName b) ∧ ∃ d, ix.Wins d (sourceName b) := by
  obtain ⟨d, hd, rfl⟩ := Option.map_eq_some_iff.1 hb
  rcases Option.or_eq_some_iff.1 hd with hd | ⟨-, hd⟩
  · have hn : sourceName d.binaryName = m := h.named d m hd
    exact ⟨Or.inr hn.symm, d, hn.symm ▸ hd⟩
  · obtain ⟨n, hn, hd⟩ := Option.bind_eq_some_iff.1 hd
    obtain ⟨e, he, heb⟩ := (h.byBinaryName m n).1 hn
    obtain rfl : d = e := Option.some.inj (hd.symm.trans he)
    have hs : sourceName d.binaryName = n := h.named d n hd
    exact ⟨Or.inl heb.symm, d, hs.symm ▸ hd⟩

theorem withSimpleName_length {ix : Index} (h : Coherent ix) (s : String) :
    (ix.withSimpleName s).length = (ix.types.keys.map lastPart).count s := by
  have hlisted : (ix.withSimpleName s).Nodup := (withSimpleName_sorted ix s).imp String.ne_of_lt
  have hkeys : (ix.types.keys.filter fun n => lastPart n == s).Nodup :=
    (Std.TreeMap.nodup_keys (t := ix.types)).filter _
  have hperm : (ix.withSimpleName s).Perm (ix.types.keys.filter fun n => lastPart n == s) := by
    rw [List.perm_ext_iff_of_nodup hlisted hkeys]
    intro n
    rw [mem_withSimpleName h, List.mem_filter, Std.TreeMap.mem_keys, beq_iff_eq, findType]
    by_cases hn : n ∈ ix.types <;> simp [hn]
  rw [hperm.length_eq, List.count_eq_countP, List.countP_map, List.countP_eq_length_filter]
  rfl

/-- Each type is listed under one simple name. -/
theorem sum_withSimpleName {ix : Index} (h : Coherent ix) :
    ∃ names : List String, names.Nodup ∧ (∀ s, s ∈ names ↔ ix.withSimpleName s ≠ []) ∧
      (names.map fun s => (ix.withSimpleName s).length).sum = ix.typeCount := by
  refine ⟨(ix.types.keys.map lastPart).dedup, List.nodup_dedup _, ?_, ?_⟩
  · intro s
    rw [List.mem_dedup, ← List.count_pos_iff, ← withSimpleName_length h, List.length_pos_iff]
  · simp only [withSimpleName_length h]
    rw [List.sum_map_count_dedup_eq_length, List.length_map, Std.TreeMap.length_keys]
    rfl

/-- Whatever an index is asked, its answers agree with each other. -/
structure Agrees (ix : Index) : Prop where
  /-- A type that is found has a place and a verdict, and no other name has either. -/
  known : ∀ n, (ix.place? ⟨n, .type⟩).isSome = (ix.findType n).isSome ∧
    (ix.deprecated? ⟨n, .type⟩).isSome = (ix.findType n).isSome
  listed : ∀ n, (ix.findType n).isSome ↔ n ∈ ix.withSimpleName (lastPart n)
  named : ∀ n, (ix.findType n).isSome → ∃ b, ix.binaryName n = some b ∧ sourceName b = n ∧
    ix.binaryName b = some b
  /-- Only its own two names lead to a binary name. -/
  owned : ∀ m b, ix.binaryName m = some b →
    (m = b ∨ m = sourceName b) ∧ (ix.findType (sourceName b)).isSome
  sorted : ∀ s, (ix.withSimpleName s).Pairwise (· < ·)
  apart : ∀ n s t, n ∈ ix.withSimpleName s → n ∈ ix.withSimpleName t → s = t
  counted : ∃ names : List String, names.Nodup ∧ (∀ s, s ∈ names ↔ ix.withSimpleName s ≠ []) ∧
    (names.map fun s => (ix.withSimpleName s).length).sum = ix.typeCount
  packages : ∀ p, (ix.findPackage p).isSome ↔
    ∃ n b, (ix.findType n).isSome ∧ ix.binaryName n = some b ∧ Encloses p (packageOf b)

theorem agrees_of_coherent {ix : Index} (h : Coherent ix) : Agrees ix where
  known := by
    intro n
    rw [findType, types_contains]
    cases htype : ix.types[n]? <;> simp [place?, deprecated?, htype]
  listed := by
    intro n
    rw [mem_withSimpleName h]
    exact (and_iff_left rfl).symm
  named := by
    intro n hn
    obtain ⟨d, hd⟩ := findType_isSome.1 hn
    exact ⟨d.binaryName, binaryName_of_wins hd, h.named d n hd, binaryName_binaryName h hd⟩
  owned := by
    intro m b hb
    obtain ⟨hm, hwins⟩ := wins_of_binaryName h hb
    exact ⟨hm, findType_isSome.2 hwins⟩
  sorted := withSimpleName_sorted ix
  apart := by
    intro n s t hs ht
    exact ((mem_withSimpleName h).1 hs).2.symm.trans ((mem_withSimpleName h).1 ht).2
  counted := sum_withSimpleName h
  packages := by
    intro p
    have hfound : (ix.findPackage p).isSome ↔ p ∈ ix.packages := by
      rw [findPackage, ← Std.TreeSet.contains_iff_mem]
      cases ix.packages.contains p <;> simp
    rw [hfound, h.packages]
    constructor
    · rintro ⟨d, n, hd, hp⟩
      exact ⟨n, d.binaryName, findType_isSome.2 ⟨d, hd⟩, binaryName_of_wins hd, hp⟩
    · rintro ⟨n, b, hn, hb, hp⟩
      obtain ⟨d, hd⟩ := findType_isSome.1 hn
      obtain rfl : d.binaryName = b := Option.some.inj ((binaryName_of_wins hd).symm.trans hb)
      exact ⟨d, n, hd, hp⟩

/-- The answers of an index that was built agree, whatever names its class path brought up. -/
theorem build_answers_agree {fs : Files} {c : Classpath} {ix : Index}
    (h : build fs c = .ok ix) : Agrees ix := by
  obtain ⟨rows, -, rfl⟩ := build_eq_ok.1 h
  exact agrees_of_coherent (coherent_ofDeclarations rows.flatten)

/-- A package with an empty part and a nesting sign in its name, and a class that is nested. -/
def oddFiles : Files := (Files.emptyAt []).write ["classes", "a$b", ".c", "Map$Entry.class"] ⟨#[]⟩

def oddClass : Declaration :=
  ⟨"a$b..c.Map$Entry", .directory ⟨"classes/a$b/.c/Map$Entry.class"⟩, false⟩

theorem odd_declarations :
    Declaration.ofClasspath oddFiles ⟨[⟨"classes"⟩], []⟩ = .ok [oddClass] := by
  apply eq_ok_of_toOption
  decide +kernel

theorem odd_answers_agree : ∃ ix, build oddFiles ⟨[⟨"classes"⟩], []⟩ = .ok ix ∧
    (ix.findType "a.b..c.Map.Entry").isSome ∧ Agrees ix := by
  have hbuild : build oddFiles ⟨[⟨"classes"⟩], []⟩ = .ok (ofDeclarations [oddClass]) :=
    congrArg (Except.map ofDeclarations) odd_declarations
  refine ⟨_, hbuild, ?_, build_answers_agree hbuild⟩
  exact findType_isSome.2 ⟨oddClass, (ofDeclarations_types _ _).trans (by decide)⟩

end ClasspathSymbols.Index
