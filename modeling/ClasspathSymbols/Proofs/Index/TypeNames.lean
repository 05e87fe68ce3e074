import ClasspathSymbols.Proofs.Index.RootOrder

/-! # Type names and the order of the roots

The order of the roots decides which of several declarations wins a name. That there is a winner is
decided by the declarations alone, and so is all that an index says of the names themselves: which
of them are types, how many there are, and which have a simple name. Packages are not so, as they
are taken from the winners. -/
namespace ClasspathSymbols.Index

open BinaryName

variable {fs : Files} {ix ix' : Index}

theorem findType_ofDeclarations {row : List Declaration} {n : String} :
    ((ofDeclarations row).findType n).isSome ↔ ∃ d ∈ row, d.sourceName = n := by
  rw [(answers_ofDeclarations row n).findType, Option.isSome_map, List.find?_isSome]
  simp only [decide_eq_true_eq]

/-- The indexes know the same types, whichever declarations stand behind them. -/
structure SameTypes (ix ix' : Index) : Prop where
  counted : ix.typeCount = ix'.typeCount
  found : ∀ n, ix.findType n = ix'.findType n
  declared : ∀ n, ix.declares ⟨n, .type⟩ = ix'.declares ⟨n, .type⟩
  listed : ∀ s, ix.withSimpleName s = ix'.withSimpleName s

theorem findType_eq (h : ∀ n, (ix.findType n).isSome ↔ (ix'.findType n).isSome) (n : String) :
    ix.findType n = ix'.findType n := by
  have hshape : ∀ jx : Index,
      jx.findType n = if (jx.findType n).isSome then some ⟨n, .type⟩ else none := by
    intro jx
    rw [findType]
    split <;> rfl
  rw [hshape ix, hshape ix', Bool.eq_iff_iff.2 (h n)]

theorem typeCount_eq (h : ∀ n, (ix.findType n).isSome ↔ (ix'.findType n).isSome) :
    ix.typeCount = ix'.typeCount := by
  have hmem : ∀ (jx : Index) (n : String), n ∈ jx.types.keys ↔ (jx.findType n).isSome := by
    intro jx n
    rw [Std.TreeMap.mem_keys, findType, ← Std.TreeMap.contains_iff_mem]
    cases jx.types.contains n <;> simp
  have hperm : ix.types.keys.Perm ix'.types.keys := by
    rw [List.perm_ext_iff_of_nodup Std.TreeMap.nodup_keys Std.TreeMap.nodup_keys]
    intro n
    rw [hmem, hmem, h]
  rw [typeCount, typeCount, ← Std.TreeMap.length_keys, ← Std.TreeMap.length_keys, hperm.length_eq]

theorem sameTypes_of_found (hix : Coherent ix) (hix' : Coherent ix')
    (h : ∀ n, (ix.findType n).isSome ↔ (ix'.findType n).isSome) : SameTypes ix ix' where
  counted := typeCount_eq h
  found := findType_eq h
  declared := by
    intro n
    rw [declares, declares, ((agrees_of_coherent hix).known n).1,
      ((agrees_of_coherent hix').known n).1, findType_eq h n]
  listed := by
    intro s
    refine (withSimpleName_sorted ix s).eq_of_mem_iff (withSimpleName_sorted ix' s) fun n => ?_
    rw [mem_withSimpleName hix, mem_withSimpleName hix', h]

theorem sameTypes_of_perm {row row' : List Declaration} (h : row.Perm row') :
    SameTypes (ofDeclarations row) (ofDeclarations row') := by
  refine sameTypes_of_found (coherent_ofDeclarations row) (coherent_ofDeclarations row') fun n => ?_
  rw [findType_ofDeclarations, findType_ofDeclarations]
  exact exists_congr fun d => and_congr_left fun _ => h.mem_iff

theorem exists_build_of_perm {c c' : Classpath} (hsource : c.source.Perm c'.source)
    (hsearch : c.search.Perm c'.search) (h : build fs c = .ok ix) :
    ∃ ix', build fs c' = .ok ix' ∧ SameTypes ix ix' := by
  obtain ⟨row, hrow, rfl⟩ := map_eq_ok.1 h
  obtain ⟨row', hrow', hperm⟩ := Declaration.ofClasspath_perm hsource.symm hsearch.symm hrow
  exact ⟨ofDeclarations row', map_eq_ok.2 ⟨row', hrow', rfl⟩, sameTypes_of_perm hperm.symm⟩

/-- Class paths with the same roots in another order can be built together or not at all, and then
their indexes know the same types. -/
theorem root_order_leaves_the_types {c c' : Classpath} (hsource : c.source.Perm c'.source)
    (hsearch : c.search.Perm c'.search) :
    ((∃ ix, build fs c = .ok ix) ↔ ∃ ix', build fs c' = .ok ix') ∧
    ∀ ix ix', build fs c = .ok ix → build fs c' = .ok ix' → SameTypes ix ix' := by
  refine ⟨⟨?_, ?_⟩, ?_⟩
  · rintro ⟨ix, hix⟩
    obtain ⟨ix', hix', -⟩ := exists_build_of_perm hsource hsearch hix
    exact ⟨ix', hix'⟩
  · rintro ⟨ix', hix'⟩
    obtain ⟨ix, hix, -⟩ := exists_build_of_perm hsource.symm hsearch.symm hix'
    exact ⟨ix, hix⟩
  · intro ix ix' hix hix'
    obtain ⟨jx, hjx, hsame⟩ := exists_build_of_perm hsource hsearch hix
    rwa [Except.ok.inj (hjx.symm.trans hix')] at hsame

/-- A class of a source name that a nested class has as well wins it in one order, and loses it in
the other. -/
theorem rivals_are_one_type : ∃ ix ix',
    build strayFiles ⟨[⟨"classes"⟩, ⟨"other"⟩], []⟩ = .ok ix ∧
    build strayFiles ⟨[⟨"other"⟩, ⟨"classes"⟩], []⟩ = .ok ix' ∧
    ix.binaryName "a.B.C" = some "a.B$C" ∧ ix'.binaryName "a.B.C" = some "a.B.C" ∧
    SameTypes ix ix' := by
  have hnested : Declaration.ofClasspath strayFiles ⟨[⟨"classes"⟩, ⟨"other"⟩], []⟩ =
      .ok [⟨"a.B$C", .directory ⟨"classes/a/B$C.class"⟩, false⟩,
        ⟨"a.B.C", .directory ⟨"other/a/B/C.class"⟩, false⟩] := by
    apply eq_ok_of_toOption
    decide +kernel
  have hplain : Declaration.ofClasspath strayFiles ⟨[⟨"other"⟩, ⟨"classes"⟩], []⟩ =
      .ok [⟨"a.B.C", .directory ⟨"other/a/B/C.class"⟩, false⟩,
        ⟨"a.B$C", .directory ⟨"classes/a/B$C.class"⟩, false⟩] := by
    apply eq_ok_of_toOption
    decide +kernel
  have hbuild := congrArg (Except.map ofDeclarations) hnested
  have hbuild' := congrArg (Except.map ofDeclarations) hplain
  have hsame := @root_order_leaves_the_types strayFiles ⟨[⟨"classes"⟩, ⟨"other"⟩], []⟩
    ⟨[⟨"other"⟩, ⟨"classes"⟩], []⟩ (List.Perm.refl _) (List.Perm.swap _ _ _)
  exact ⟨_, _, hbuild, hbuild', by decide, by decide, hsame.2 _ _ hbuild hbuild'⟩

end ClasspathSymbols.Index
