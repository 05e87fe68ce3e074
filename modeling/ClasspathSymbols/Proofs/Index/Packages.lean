import ClasspathSymbols.Proofs.Index.Agreement

/-! # Listing packages

The packages of an index are in order, and texts with one beginning are neighbours in it. So those
below a package are found by going through the row from the package on, up to the first text that
does not begin with it. Between a package and what lies in it there may be others that only share
the beginning, as `a-b` and `a0` do with `a`; these are passed over and do not end the search. -/
namespace ClasspathSymbols.Index

section Neighbours

variable {α : Type} {keep stop : α → Bool}

theorem filter_dropWhile (h : ∀ x, stop x → ¬ keep x) (row : List α) :
    (row.dropWhile stop).filter keep = row.filter keep := by
  induction row with
  | nil => rfl
  | cons x row ih =>
    by_cases hx : stop x
    · rw [List.dropWhile_cons_of_pos hx, ih, List.filter_cons_of_neg (h x hx)]
    · rw [List.dropWhile_cons_of_neg hx]

theorem filter_takeWhile {test : α → Bool} {row : List α}
    (h : row.Pairwise fun x y => ¬ test x → ¬ keep y) (hkeep : ∀ x, keep x → test x) :
    (row.takeWhile test).filter keep = row.filter keep := by
  induction row with
  | nil => rfl
  | cons x row ih =>
    obtain ⟨hlater, hrow⟩ := List.pairwise_cons.1 h
    by_cases hx : test x
    · rw [List.takeWhile_cons_of_pos hx, List.filter_cons, List.filter_cons, ih hrow]
    · have hnone : (x :: row).filter keep = [] := by
        rw [List.filter_eq_nil_iff, List.forall_mem_cons]
        exact ⟨mt (hkeep x) hx, fun y hy => hlater y hy hx⟩
      rw [List.takeWhile_cons_of_neg hx, hnone, List.filter_nil]

end Neighbours

theorem not_prefix_of_lt {start text : List Char} (h : text < start) : ¬ start <+: text := by
  rintro ⟨rest, rfl⟩
  induction start with
  | nil => exact List.not_lt_nil _ h
  | cons c start ih =>
    rw [List.cons_append, List.cons_lt_cons_iff] at h
    rcases h with hc | ⟨-, h⟩
    · exact Char.lt_irrefl c hc
    · exact ih h

theorem prefix_of_between {start x y : List Char} (hstart : ¬ x < start) (hxy : x < y)
    (hy : start <+: y) : start <+: x := by
  induction start generalizing x y with
  | nil => exact List.nil_prefix
  | cons c start ih =>
    obtain ⟨rest, rfl⟩ := hy
    cases x with
    | nil => exact absurd (List.nil_lt_cons c start) hstart
    | cons d x =>
      rw [List.cons_append, List.cons_lt_cons_iff] at hxy
      rw [List.cons_lt_cons_iff, not_or] at hstart
      rcases hxy with hd | ⟨rfl, hxy⟩
      · exact absurd hd hstart.1
      · have hx : ¬ x < start := fun hlt => hstart.2 ⟨rfl, hlt⟩
        rw [List.cons_prefix_cons]
        exact ⟨rfl, ih hx hxy (List.prefix_append start rest)⟩

theorem startsWith_iff {start name : String} :
    startsWith start name ↔ start.toList <+: name.toList := List.isPrefixOf_iff_prefix

/-- The package itself, or one inside of it; all packages are inside the one without a name. -/
def Inside (package name : String) : Prop :=
  package = "" ∨ name = package ∨ (package ++ ".").toList <+: name.toList

instance (package name : String) : Decidable (Inside package name) :=
  inferInstanceAs (Decidable (_ ∨ _ ∨ _))

theorem liesIn_iff {package name : String} : liesIn package name ↔ Inside package name := by
  rw [liesIn, Bool.or_eq_true, Bool.or_eq_true, decide_eq_true_eq, decide_eq_true_eq,
    startsWith_iff, or_assoc]
  rfl

theorem startsWith_of_liesIn {package name : String} (h : liesIn package name) :
    startsWith package name := by
  rw [startsWith_iff]
  rcases liesIn_iff.1 h with rfl | rfl | hin
  · exact List.nil_prefix
  · exact List.prefix_refl _
  · rw [String.toList_append] at hin
    exact (List.prefix_append _ _).trans hin

theorem packages_sorted (ix : Index) : ix.packages.toList.Pairwise (· < ·) :=
  (Std.TreeSet.ordered_toList (t := ix.packages)).imp compareOfLessAndEq_eq_lt.1

theorem findPackage_isSome {ix : Index} {p : String} :
    (ix.findPackage p).isSome ↔ p ∈ ix.packages.toList := by
  rw [findPackage, Std.TreeSet.mem_toList, ← Std.TreeSet.contains_iff_mem]
  cases ix.packages.contains p <;> simp

theorem not_lt_of_mem_dropWhile {row : List String} (h : row.Pairwise (· < ·)) {start x : String}
    (hx : x ∈ row.dropWhile (· < start)) : ¬ x < start := by
  induction row with
  | nil => cases hx
  | cons y row ih =>
    obtain ⟨hlater, hrow⟩ := List.pairwise_cons.1 h
    by_cases hy : y < start
    · rw [List.dropWhile_cons_of_pos (by simpa using hy)] at hx
      exact ih hrow hx
    · rw [List.dropWhile_cons_of_neg (by simpa using hy)] at hx
      rcases List.mem_cons.1 hx with rfl | hx
      · exact hy
      · exact fun hlt => hy (String.lt_trans (hlater x hx) hlt)

/-- Going through the row from the package on, up to the first text that does not begin with it,
misses nothing that lies in it. -/
theorem packagesIn_eq_filter (ix : Index) (package : String) :
    ix.packagesIn package = ix.packages.toList.filter (liesIn package) := by
  have hfront : ∀ x : String, decide (x < package) = true → ¬ liesIn package x := by
    intro x hx hin
    have hlt := String.lt_iff.1 (of_decide_eq_true hx)
    exact not_prefix_of_lt hlt (startsWith_iff.1 (startsWith_of_liesIn hin))
  have hlater : (ix.packages.toList.dropWhile (· < package)).Pairwise fun x y =>
      ¬ startsWith package x → ¬ liesIn package y := by
    refine ((packages_sorted ix).sublist (List.dropWhile_sublist _)).imp_of_mem ?_
    intro x y hx _ hxy hstart hin
    have hbelow : ¬ x.toList < package.toList :=
      mt String.lt_iff.2 (not_lt_of_mem_dropWhile (packages_sorted ix) hx)
    have hy := startsWith_iff.1 (startsWith_of_liesIn hin)
    exact hstart (startsWith_iff.2 (prefix_of_between hbelow (String.lt_iff.1 hxy) hy))
  rw [packagesIn, filter_takeWhile hlater fun x => startsWith_of_liesIn, filter_dropWhile hfront]

/-- What is listed for a package: of all known packages those inside of it, each once and in
order. -/
structure ListsInside (ix : Index) (package : String) : Prop where
  listed : ∃ known : List String, known.Pairwise (· < ·) ∧
    (∀ p, p ∈ known ↔ (ix.findPackage p).isSome) ∧
    ix.packagesIn package = known.filter fun p => decide (Inside package p)
  sorted : (ix.packagesIn package).Pairwise (· < ·)
  mem : ∀ p, p ∈ ix.packagesIn package ↔ (ix.findPackage p).isSome ∧ Inside package p
  itself : package ∈ ix.packagesIn package ↔ (ix.findPackage package).isSome

/-- The packages inside of one are listed in order and in full, whatever stands between them. -/
theorem packages_inside_are_listed (ix : Index) (package : String) : ListsInside ix package := by
  have hscan := packagesIn_eq_filter ix package
  have hmem : ∀ p, p ∈ ix.packagesIn package ↔ (ix.findPackage p).isSome ∧ Inside package p := by
    intro p
    rw [hscan, List.mem_filter, findPackage_isSome, liesIn_iff]
  have hfilter : liesIn package = fun p => decide (Inside package p) := by
    funext p
    rw [Bool.eq_iff_iff, liesIn_iff, decide_eq_true_iff]
  refine ⟨⟨ix.packages.toList, packages_sorted ix, fun p => findPackage_isSome.symm, ?_⟩,
    ?_, hmem, ?_⟩
  · rw [hscan, hfilter]
  · rw [hscan]
    exact (packages_sorted ix).filter _
  · rw [hmem]
    exact and_iff_left (Or.inr (Or.inl rfl))

/-- Neither `a-b` nor `a0` lies in `a`, and neither hides what does. -/
example : (ofDeclarations (["a0.T", "a.b.T", "a-b.T", "b.T"].map fun name =>
    ⟨name, .source ⟨"T.java"⟩, false⟩)).packagesIn "a" = ["a", "a.b"] := by
  decide +kernel

end ClasspathSymbols.Index
