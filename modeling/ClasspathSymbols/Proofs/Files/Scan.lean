import ClasspathSymbols.Files.Walk

/-! # Scans are in path order

The order of paths compares the places of their components, so any two paths compare and the order
is transitive. A scan reports what a walk finds, each file once and in that order. -/
namespace ClasspathSymbols

namespace Path.Component

theorem rank_injective {a b : Component} (h : a.rank = b.rank) : a = b := by
  cases a <;> cases b <;> simp_all [rank]

instance : LE Component := ⟨fun a b => ¬ b < a⟩

instance : Std.IsLinearOrder Component where
  le_refl a := List.le_refl a.rank
  le_trans a b c hab hbc := by
    have h : ∀ {k l m : List String}, ¬ l < k → ¬ m < l → ¬ m < k := List.le_trans
    exact h hab hbc
  le_antisymm a b hab hba := by
    have h : ∀ {k l : List String}, ¬ l < k → ¬ k < l → k = l := List.le_antisymm
    exact rank_injective (h hab hba)
  le_total a b := List.le_total a.rank b.rank

instance : Std.LawfulOrderLT Component where
  lt_iff a b := by
    have h : ∀ {k l : List String}, k < l → ¬ l < k := List.lt_asymm
    constructor
    · intro hab
      exact ⟨h hab, Decidable.not_not.2 hab⟩
    · rintro ⟨-, hab⟩
      exact Decidable.not_not.1 hab

end Path.Component

namespace Path

theorem le_total (p q : Path) : (p.le q || q.le p) = true := by
  simpa [le] using List.le_total p.components q.components

theorem le_trans (p q r : Path) (hpq : p.le q = true) (hqr : q.le r = true) : p.le r = true := by
  rw [le, decide_eq_true_eq] at hpq hqr ⊢
  exact List.le_trans hpq hqr

end Path

namespace Files

theorem scan_perm (fs : Files) (root : Path) (keep : Path → Bool) :
    (fs.scan root keep).Perm ((fs.walk root).filter fun f => keep f.path) := by
  rw [scan, sortByPath]
  apply List.mergeSort_perm

theorem scan_sorted (fs : Files) (root : Path) (keep : Path → Bool) :
    (fs.scan root keep).Pairwise fun f g => f.path.le g.path := by
  rw [scan, sortByPath]
  apply List.pairwise_mergeSort
  · intro f g h
    exact Path.le_trans f.path g.path h.path
  · intro f g
    exact Path.le_total f.path g.path

theorem mem_scan {fs : Files} {root : Path} {keep : Path → Bool} {f : Found} :
    f ∈ fs.scan root keep ↔ f ∈ fs.walk root ∧ keep f.path := by
  rw [(scan_perm fs root keep).mem_iff, List.mem_filter]

end Files

end ClasspathSymbols
