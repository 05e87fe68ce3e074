import ClasspathSymbols.Proofs.BinaryName.Segments
import ClasspathSymbols.SourceFile.Unit

/-! # The names of a nested type

A type has a package and a chain of names, from the type around all others to its own. Its binary
name, its name in source and the entry of its class file are spelled from these, and each of the
three can be had from another. -/
namespace ClasspathSymbols.BinaryName

/-- What is true of every identifier, whatever letters it may be made of. -/
structure IsIdentifier (text : String) : Prop where
  notEmpty : text ≠ ""
  noDigit : ∀ c ∈ text.toList.head?, c.isDigit = false
  noSign : ∀ c ∈ text.toList, c ∉ ['.', '/', '\\', '-']

instance (text : String) : Decidable (IsIdentifier text) :=
  decidable_of_iff (text ≠ "" ∧ text.toList.head?.all (fun c => !c.isDigit) ∧
      text.toList.all fun c => c ∉ ['.', '/', '\\', '-']) <| by
    rw [List.all_eq_true]
    constructor
    · rintro ⟨hne, hdigit, hsign⟩
      refine ⟨hne, fun c hc => ?_, fun c hc => by simpa using hsign c hc⟩
      rw [Option.mem_def.1 hc] at hdigit
      simpa using hdigit
    · rintro ⟨hne, hdigit, hsign⟩
      refine ⟨hne, ?_, fun c hc => by simpa using hsign c hc⟩
      cases hhead : text.toList.head? with
      | none => rfl
      | some c => simpa using hdigit c hhead

def packageName (parts : List String) : String := ".".intercalate parts

def nestedName (chain : List String) : String := "$".intercalate chain

def qualified (package : String) (chain : List String) : String :=
  SourceFile.inPackage package ++ nestedName chain

def folder (package : String) : String :=
  if package = "" then ""
  else String.ofList (package.toList.map fun c => if c = '.' then '/' else c) ++ "/"

def entryOf (package : String) (chain : List String) : String :=
  folder package ++ nestedName chain ++ ".class"

theorem forall_mem_intercalate {p : Char → Prop} {sep : String} {d : Char} {parts : List String}
    (hsep : sep.toList = [d]) (hd : p d) (hparts : ∀ s ∈ parts, ∀ c ∈ s.toList, p c) :
    ∀ c ∈ (sep.intercalate parts).toList, p c := by
  induction parts with
  | nil =>
    intro c hc
    simp at hc
  | cons s rest ih =>
    have hs := hparts s List.mem_cons_self
    have hrest := ih fun t ht => hparts t (List.mem_cons_of_mem s ht)
    by_cases hr : rest = []
    · rwa [hr, String.intercalate_singleton]
    · intro c hc
      rw [String.intercalate_cons_of_ne_nil hr, String.toList_append, String.toList_append,
        List.mem_append, List.mem_append, hsep, List.mem_singleton] at hc
      rcases hc with (hc | rfl) | hc
      · exact hs c hc
      · exact hd
      · exact hrest c hc

theorem noSlash_packageName {parts : List String} (h : ∀ s ∈ parts, IsIdentifier s) :
    ∀ c ∈ (packageName parts).toList, c ∉ ['/', '\\'] := by
  refine forall_mem_intercalate rfl (by decide) fun s hs c hc hslash => (h s hs).noSign c hc ?_
  exact List.mem_cons_of_mem _ (List.mem_append_left ['-'] hslash)

theorem noSign_nestedName {chain : List String} (h : ∀ s ∈ chain, IsIdentifier s) :
    ∀ c ∈ (nestedName chain).toList, c ∉ ['.', '/', '\\', '-'] :=
  forall_mem_intercalate rfl (by decide) fun s hs => (h s hs).noSign

theorem sourceName_of_not_mem {name : String} (h : nestingSign ∉ name.toList) :
    sourceName name = name := by
  have hid : name.toList.map (fun c => if c = nestingSign then '.' else c) = name.toList := by
    refine Text.map_eq_self fun c hc => ?_
    have hne : c ≠ nestingSign := by
      rintro rfl
      exact h hc
    exact if_neg hne
  rw [sourceName, hid, String.ofList_toList]

theorem sourceName_nestedName {chain : List String} (h : ∀ s ∈ chain, nestingSign ∉ s.toList) :
    sourceName (nestedName chain) = ".".intercalate chain := by
  rw [nestedName]
  induction chain with
  | nil => rfl
  | cons s rest ih =>
    have hs := sourceName_of_not_mem (h s List.mem_cons_self)
    have hrest := ih fun t ht => h t (List.mem_cons_of_mem s ht)
    by_cases hr : rest = []
    · rw [hr, String.intercalate_singleton, String.intercalate_singleton, hs]
    · have hsign : sourceName "$" = "." := rfl
      rw [String.intercalate_cons_of_ne_nil hr, String.intercalate_cons_of_ne_nil hr,
        sourceName_append, sourceName_append, hs, hrest, hsign]

theorem sourceName_eq_empty {name : String} : sourceName name = "" ↔ name = "" := by
  rw [← String.toList_eq_nil_iff, ← String.toList_eq_nil_iff, sourceName, String.toList_ofList,
    List.map_eq_nil_iff]

theorem sourceName_inPackage (package : String) :
    sourceName (SourceFile.inPackage package) = SourceFile.inPackage (sourceName package) := by
  rw [SourceFile.inPackage, SourceFile.inPackage]
  by_cases hp : package = ""
  · rw [if_pos hp, if_pos (sourceName_eq_empty.2 hp)]
    rfl
  · rw [if_neg hp, if_neg (mt sourceName_eq_empty.1 hp), sourceName_append]
    rfl

theorem sourceName_qualified (package : String) {chain : List String}
    (h : ∀ s ∈ chain, nestingSign ∉ s.toList) :
    sourceName (qualified package chain) =
      SourceFile.inPackage (sourceName package) ++ ".".intercalate chain := by
  rw [qualified, sourceName_append, sourceName_inPackage, sourceName_nestedName h]

theorem packageOf_qualified (package : String) {chain : List String}
    (h : ∀ s ∈ chain, IsIdentifier s) : packageOf (qualified package chain) = package := by
  have hdot : '.' ∉ (nestedName chain).toList := fun hmem =>
    noSign_nestedName h '.' hmem List.mem_cons_self
  rw [packageOf, qualified, SourceFile.inPackage]
  split
  · rename_i hp
    rw [String.empty_append, splitLast_of_not_mem hdot, hp]
  · have hlist : (package ++ "." ++ nestedName chain).toList =
        package.toList ++ '.' :: (nestedName chain).toList := by simp
    rw [hlist, splitLast_append hdot, String.ofList_toList]

theorem dotted_folder {package : String} (h : ∀ c ∈ package.toList, c ∉ ['/', '\\']) :
    dotted (folder package).toList = (SourceFile.inPackage package).toList := by
  rw [folder, SourceFile.inPackage]
  split
  · rfl
  · have hback : dotted (package.toList.map fun c => if c = '.' then '/' else c) =
        package.toList := by
      rw [dotted, List.map_map]
      refine Text.map_eq_self fun c hc => ?_
      have hslash := h c hc
      simp only [List.mem_cons, List.not_mem_nil, or_false] at hslash
      by_cases hdot : c = '.'
      · simp [hdot]
      · simp [hdot, hslash]
    rw [String.toList_append, String.toList_append, String.toList_ofList, dotted, List.map_append,
      ← dotted, hback]
    rfl

theorem dotted_nestedName {chain : List String} (h : ∀ s ∈ chain, IsIdentifier s) :
    dotted (nestedName chain).toList = (nestedName chain).toList := by
  refine Text.map_eq_self fun c hc => ?_
  have hsign := noSign_nestedName h c hc
  simp only [List.mem_cons, not_or] at hsign
  exact if_neg (not_or.2 ⟨hsign.2.1, hsign.2.2.1⟩)

theorem simpleName_folder (package : String) {simple : List Char} (h : '/' ∉ simple) :
    simpleName ((folder package).toList ++ simple) = simple := by
  rw [folder]
  split
  · rw [String.toList_empty, List.nil_append, simpleName_of_not_mem h]
  · rw [String.toList_append, List.append_assoc]
    exact simpleName_append _ h

theorem isAddressable_nestedName {chain : List String} (hne : chain ≠ [])
    (h : ∀ s ∈ chain, IsIdentifier s) (hsign : ∀ s ∈ chain, nestingSign ∉ s.toList) :
    isAddressable (nestedName chain).toList := by
  have hparts : (nestedName chain).toList.splitOn nestingSign = chain.map String.toList := by
    rw [nestedName, String.toList_intercalate]
    apply List.splitOn_intercalate
    · intro part hpart
      obtain ⟨s, hs, rfl⟩ := List.mem_map.1 hpart
      exact hsign s hs
    · simpa using hne
  rw [isAddressable, hparts, List.all_eq_true]
  intro part hpart
  obtain ⟨s, hs, rfl⟩ := List.mem_map.1 (List.mem_of_mem_tail hpart)
  have hs' := h s hs
  have hnil : s.toList ≠ [] := mt String.toList_eq_nil_iff.1 hs'.notEmpty
  cases hc : s.toList with
  | nil => exact absurd hc hnil
  | cons c cs =>
    have hd := hs'.noDigit c (by rw [hc]; rfl)
    simp [hd]

theorem not_descriptor {simple : List Char} (h : '-' ∉ simple) : simple ∉ descriptors := by
  have hall : ∀ d ∈ descriptors, '-' ∈ d := by decide
  exact fun hmem => h (hall simple hmem)

/-- The class file of a type is filed under its binary name. -/
theorem ofEntry_entryOf {package : String} (hp : ∀ c ∈ package.toList, c ∉ ['/', '\\'])
    {chain : List String} (hne : chain ≠ []) (h : ∀ s ∈ chain, IsIdentifier s)
    (hsign : ∀ s ∈ chain, nestingSign ∉ s.toList) :
    ofEntry? (entryOf package chain) = some (qualified package chain) := by
  have hplain := noSign_nestedName h
  have hslash : '/' ∉ (nestedName chain).toList := fun hmem => hplain _ hmem (by decide)
  have hhyphen : '-' ∉ (nestedName chain).toList := fun hmem => hplain _ hmem (by decide)
  have hlist : (entryOf package chain).toList =
      ((folder package).toList ++ (nestedName chain).toList) ++ classEnding := by
    have hending : ".class".toList = classEnding := rfl
    rw [entryOf, String.toList_append, String.toList_append, hending]
  have hlisted : IsListed ((folder package).toList ++ (nestedName chain).toList) := by
    rw [IsListed, simpleName_folder package hslash]
    exact ⟨not_descriptor hhyphen, isAddressable_nestedName hne h hsign⟩
  rw [ofEntry?_of_stem hlist, if_pos hlisted, dotted, List.map_append, ← dotted, ← dotted,
    dotted_folder hp, dotted_nestedName h, qualified, ← String.toList_append, String.ofList_toList]

end ClasspathSymbols.BinaryName
