import ClasspathSymbols.Index

/-! # Winners

An index holds, for each source name, the first declaration of the row that it was made of. -/
namespace ClasspathSymbols.Index

theorem types_contains (ix : Index) (name : String) :
    ix.types.contains name = ix.types[name]?.isSome :=
  Std.TreeMap.contains_eq_isSome_getElem?

theorem insert_types (ix : Index) (d : Declaration) (name : String) :
    (ix.insert d).types[name]? =
      ix.types[name]?.or (if d.sourceName = name then some d else none) := by
  rw [insert]
  by_cases hd : ix.types.contains d.sourceName
  · rw [if_pos hd]
    by_cases hn : d.sourceName = name
    · subst hn
      rw [types_contains] at hd
      obtain ⟨w, hw⟩ := Option.isSome_iff_exists.1 hd
      rw [hw, Option.some_or]
    · rw [if_neg hn, Option.or_none]
  · rw [if_neg hd, Std.TreeMap.getElem?_insert]
    by_cases hn : d.sourceName = name
    · subst hn
      rw [types_contains, Option.not_isSome_iff_eq_none] at hd
      rw [hd, if_pos rfl, Option.none_or, if_pos Std.compare_self]
    · simp [hn]

theorem foldl_insert_types (ds : List Declaration) (ix : Index) (name : String) :
    (ds.foldl insert ix).types[name]? =
      ix.types[name]?.or (ds.find? fun d => d.sourceName = name) := by
  induction ds generalizing ix with
  | nil => exact (Option.or_none).symm
  | cons d ds ih =>
    rw [List.foldl_cons, ih, insert_types, Option.or_assoc, List.find?_cons]
    by_cases hn : d.sourceName = name
    · simp [hn]
    · simp [hn]

theorem ofDeclarations_types (ds : List Declaration) (name : String) :
    (ofDeclarations ds).types[name]? = ds.find? fun d => d.sourceName = name := by
  have he : empty.types[name]? = none := Std.TreeMap.getElem?_emptyc
  rw [ofDeclarations, foldl_insert_types, he, Option.none_or]

/-- What the index says of a name is what the winner says, where there is one. -/
structure Answers (ix : Index) (name : String) (winner : Option Declaration) : Prop where
  findType : ix.findType name = winner.map fun _ => ⟨name, .type⟩
  binaryName : ∀ d ∈ winner, ix.binaryName name = some d.binaryName
  deprecated : ix.deprecated? ⟨name, .type⟩ = winner.map (·.deprecated)
  place : ix.place? ⟨name, .type⟩ = winner.map (·.place)

theorem answers_of_types {ix : Index} {name : String} {winner : Option Declaration}
    (h : ix.types[name]? = winner) : ix.Answers name winner where
  findType := by
    rw [findType, types_contains, h]
    cases winner <;> rfl
  binaryName := by
    intro d hd
    rw [binaryName, declaration?, h, Option.mem_def.1 hd]
    rfl
  deprecated := congrArg (Option.map _) h
  place := congrArg (Option.map _) h

theorem answers_ofDeclarations (ds : List Declaration) (name : String) :
    (ofDeclarations ds).Answers name (ds.find? fun d => d.sourceName = name) :=
  answers_of_types (ofDeclarations_types ds name)

end ClasspathSymbols.Index
