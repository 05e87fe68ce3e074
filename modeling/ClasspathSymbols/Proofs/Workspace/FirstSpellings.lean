import ClasspathSymbols.Workspace
import ClasspathSymbols.Proofs.Classpath.Merging
import ClasspathSymbols.Proofs.Files.Scan

/-! # First spellings in path order

Paths are sorted, and of neighbours that spell one path the first is kept. Sorting leaves spellings
of one path in the order in which they came, and brings them together. So each path is kept once,
under the spelling that came first. -/
namespace ClasspathSymbols

namespace Path

variable {paths seen : List Path} {p q : Path}

def Ascending (paths : List Path) : Prop := paths.Pairwise fun p q => p.components < q.components

instance (paths : List Path) : Decidable (Ascending paths) :=
  inferInstanceAs (Decidable (paths.Pairwise _))

theorem le_of_same (h : p.Same q) : p.le q := by
  rw [le, decide_eq_true_eq, h]
  exact List.le_refl q.components

theorem same_of_le (hpq : p.le q) (hqp : q.le p) : p.Same q :=
  List.le_antisymm (of_decide_eq_true hpq) (of_decide_eq_true hqp)

theorem lt_of_le_of_not_same (hle : p.le q) (hne : ¬ p.Same q) : p.components < q.components := by
  by_contra hlt
  exact hne (same_of_le hle (decide_eq_true (List.not_lt.1 hlt)))

theorem Ascending.eq_of_mem_iff {more : List Path} (h : Ascending paths) (hmore : Ascending more)
    (hmem : ∀ p, p ∈ paths ↔ p ∈ more) : paths = more := by
  have hnodup : ∀ {ps : List Path}, Ascending ps → ps.Nodup := by
    intro ps hps
    refine List.Pairwise.imp ?_ hps
    rintro a b hlt rfl
    exact List.lt_irrefl _ hlt
  have hperm := (List.perm_ext_iff_of_nodup (hnodup h) (hnodup hmore)).2 hmem
  exact hperm.eq_of_pairwise (fun _ _ _ _ hpq hqp => absurd hqp (List.lt_asymm hpq)) h hmore

theorem mergeSort_sorted (paths : List Path) :
    (paths.mergeSort le).Pairwise fun p q => p.le q :=
  List.pairwise_mergeSort le_trans le_total paths

theorem filter_mergeSort (p : Path) (paths : List Path) :
    (paths.mergeSort le).filter (fun q => p.Same q) = paths.filter fun q => p.Same q := by
  have hsorted : (paths.filter fun q => p.Same q).Pairwise fun q r => q.le r := by
    refine List.pairwise_of_forall_mem_list fun q hq r hr => le_of_same ?_
    exact (of_decide_eq_true (List.mem_filter.1 hq).2).symm.trans
      (of_decide_eq_true (List.mem_filter.1 hr).2)
  have hkept := (List.sublist_mergeSort le_trans le_total hsorted List.filter_sublist).filter
    fun q => p.Same q
  rw [List.filter_filter] at hkept
  simp only [Bool.and_self] at hkept
  exact (hkept.eq_of_length ((List.mergeSort_perm paths le).filter _).length_eq.symm).symm

theorem find?_mergeSort (p : Path) (paths : List Path) :
    (paths.mergeSort le).find? (fun q => p.Same q) = paths.find? fun q => p.Same q := by
  rw [← List.head?_filter, ← List.head?_filter, filter_mergeSort]

theorem mem_distinctFrom : p ∈ distinctFrom seen paths ↔
    (∀ s ∈ seen, ¬ p.Same s) ∧ paths.find? (fun q => p.Same q) = some p := by
  induction paths generalizing seen with
  | nil => simp [distinctFrom]
  | cons q paths ih =>
    by_cases hsame : p.Same q
    · have hfound : (q :: paths).find? (fun r => p.Same r) = some q :=
        List.find?_cons_of_pos (decide_eq_true hsame)
      rw [hfound]
      rcases distinctFrom_cons seen q paths with ⟨⟨s, hs, hqs⟩, heq⟩ | ⟨hnew, heq⟩
      · rw [heq, ih]
        refine iff_of_false ?_ ?_
        · exact fun h => h.1 s hs (hsame.trans hqs)
        · exact fun h => h.1 s hs (hsame.trans hqs)
      · rw [heq, List.mem_cons, ih]
        constructor
        · rintro (rfl | ⟨hseen, -⟩)
          · exact ⟨hnew, rfl⟩
          · exact absurd hsame (hseen q List.mem_cons_self)
        · exact fun h => Or.inl (Option.some.inj h.2).symm
    · have hne : p ≠ q := by
        rintro rfl
        exact hsame rfl
      have hpassed : (q :: paths).find? (fun r => p.Same r) = paths.find? fun r => p.Same r :=
        List.find?_cons_of_neg (by simpa using hsame)
      rw [hpassed]
      rcases distinctFrom_cons seen q paths with ⟨-, heq⟩ | ⟨-, heq⟩
      · rw [heq, ih]
      · rw [heq, List.mem_cons, ih, List.forall_mem_cons]
        simp [hne, hsame]

end Path

namespace ProjectModel

variable {paths seen : List Path} {p last : Path}

theorem dropRepeatsAfter_eq (hsorted : (last :: paths).Pairwise fun p q => p.le q)
    (hlast : last ∈ seen) (hseen : ∀ s ∈ seen, s.le last) :
    dropRepeats.dropRepeatsAfter last paths = Path.distinctFrom seen paths := by
  induction paths generalizing last seen with
  | nil => rfl
  | cons q paths ih =>
    obtain ⟨hfirst, hrest⟩ := List.pairwise_cons.1 hsorted
    have hq := hfirst q List.mem_cons_self
    rw [dropRepeats.dropRepeatsAfter]
    rcases Path.distinctFrom_cons seen q paths with ⟨⟨s, hs, hqs⟩, heq⟩ | ⟨hnew, heq⟩
    · -- a path seen is not behind the last one, and that is not behind `q`
      have hsame : last.Same q :=
        Path.same_of_le hq (Path.le_trans _ _ _ (Path.le_of_same hqs) (hseen s hs))
      rw [if_pos hsame, heq]
      exact ih (hsorted.sublist ((List.sublist_cons_self q paths).cons_cons last)) hlast hseen
    · rw [if_neg fun hsame => hnew last hlast hsame.symm, heq]
      refine congrArg (q :: ·) (ih hrest List.mem_cons_self ?_)
      refine List.forall_mem_cons.2 ⟨Path.le_of_same rfl, fun s hs => ?_⟩
      exact Path.le_trans _ _ _ (hseen s hs) hq

/-- In path order repeats are neighbours. -/
theorem dropRepeats_eq_distinct (h : paths.Pairwise fun p q => p.le q) :
    dropRepeats paths = Path.distinct paths := by
  cases paths with
  | nil => rfl
  | cons p paths =>
    have hself : ∀ s ∈ [p], s.le p := by
      intro s hs
      rw [List.mem_singleton.1 hs]
      exact Path.le_of_same rfl
    exact congrArg (p :: ·) (dropRepeatsAfter_eq h List.mem_cons_self hself)

def collect (deliveries : List (List Path)) : List Path :=
  dropRepeats (deliveries.flatten.mergeSort Path.le)

theorem collect_eq (deliveries : List (List Path)) :
    collect deliveries = Path.distinct (deliveries.flatten.mergeSort Path.le) :=
  dropRepeats_eq_distinct (Path.mergeSort_sorted _)

theorem mem_collect_iff_distinct {deliveries : List (List Path)} :
    p ∈ collect deliveries ↔ p ∈ Path.distinct deliveries.flatten := by
  rw [collect_eq, Path.distinct, Path.distinct, Path.mem_distinctFrom, Path.mem_distinctFrom,
    Path.find?_mergeSort]

theorem mem_collect {deliveries : List (List Path)} :
    p ∈ collect deliveries ↔ deliveries.flatten.find? (fun q => p.Same q) = some p := by
  rw [mem_collect_iff_distinct, Path.distinct, Path.mem_distinctFrom]
  exact and_iff_right fun s hs => absurd hs List.not_mem_nil

theorem collect_ascending (deliveries : List (List Path)) :
    Path.Ascending (collect deliveries) := by
  rw [collect_eq]
  have hsorted := (Path.mergeSort_sorted deliveries.flatten).sublist
    (Path.distinctFrom_sublist [] _)
  exact (hsorted.and (Path.distinctFrom_apart [] _)).imp fun h =>
    Path.lt_of_le_of_not_same h.1 h.2

end ProjectModel

end ClasspathSymbols
