import ClasspathSymbols.Classpath
import Mathlib.Data.List.Basic

/-! # Merging roots

Of several spellings of one root the first is kept, at its place among the first spellings of the
others. Roots are the same if they have the same components, so what is kept may be written in
another way than what is dropped. A list in which no root comes twice is kept as it is, and nothing
is added to it by roots that it holds. -/
namespace ClasspathSymbols

namespace Path

variable {paths seen : List Path} {p q : Path}

theorem distinctFrom_cons (seen : List Path) (q : Path) (paths : List Path) :
    (∃ s ∈ seen, q.Same s) ∧ distinctFrom seen (q :: paths) = distinctFrom seen paths ∨
    (∀ s ∈ seen, ¬ q.Same s) ∧
      distinctFrom seen (q :: paths) = q :: distinctFrom (q :: seen) paths := by
  have hany : (seen.any fun s => q.Same s) = true ↔ ∃ s ∈ seen, q.Same s := by
    simp only [List.any_eq_true, decide_eq_true_eq]
  rw [distinctFrom]
  by_cases h : ∃ s ∈ seen, q.Same s
  · exact Or.inl ⟨h, if_pos (hany.2 h)⟩
  · exact Or.inr ⟨fun s hs hsame => h ⟨s, hs, hsame⟩, if_neg (mt hany.1 h)⟩

theorem not_same_of_mem_distinctFrom (h : p ∈ distinctFrom seen paths) :
    ∀ s ∈ seen, ¬ p.Same s := by
  induction paths generalizing seen with
  | nil => cases h
  | cons q paths ih =>
    rcases distinctFrom_cons seen q paths with ⟨-, heq⟩ | ⟨hnew, heq⟩
    · rw [heq] at h
      exact ih h
    · rw [heq] at h
      rcases List.mem_cons.1 h with rfl | h
      · exact hnew
      · exact fun s hs => ih h s (List.mem_cons_of_mem q hs)

theorem not_same_of_seen {s : Path} (hp : p ∈ distinctFrom seen paths) (hs : s ∈ seen)
    (hsame : q.Same s) : ¬ p.Same q :=
  fun hpq => not_same_of_mem_distinctFrom hp s hs (hpq.trans hsame)

theorem distinctFrom_sublist (seen paths : List Path) :
    (distinctFrom seen paths).Sublist paths := by
  induction paths generalizing seen with
  | nil => exact List.Sublist.refl []
  | cons q paths ih =>
    rcases distinctFrom_cons seen q paths with ⟨-, heq⟩ | ⟨-, heq⟩
    · rw [heq]
      exact (ih seen).cons q
    · rw [heq]
      exact (ih (q :: seen)).cons_cons q

theorem distinctFrom_apart (seen paths : List Path) :
    (distinctFrom seen paths).Pairwise fun p q => ¬ p.Same q := by
  induction paths generalizing seen with
  | nil => exact List.Pairwise.nil
  | cons q paths ih =>
    rcases distinctFrom_cons seen q paths with ⟨-, heq⟩ | ⟨-, heq⟩
    · rw [heq]
      exact ih seen
    · rw [heq]
      refine List.pairwise_cons.2 ⟨fun p hp hsame => ?_, ih (q :: seen)⟩
      exact not_same_of_seen hp List.mem_cons_self rfl hsame.symm

theorem distinctFrom_covers (seen : List Path) (hq : q ∈ paths) :
    ∃ p ∈ seen ++ distinctFrom seen paths, p.Same q := by
  induction paths generalizing seen with
  | nil => cases hq
  | cons r paths ih =>
    rcases distinctFrom_cons seen r paths with ⟨⟨s, hs, hsame⟩, heq⟩ | ⟨-, heq⟩
    · rw [heq]
      rcases List.mem_cons.1 hq with rfl | hq
      · exact ⟨s, List.mem_append_left _ hs, hsame.symm⟩
      · exact ih seen hq
    · rw [heq]
      rcases List.mem_cons.1 hq with rfl | hq
      · exact ⟨q, List.mem_append_right _ List.mem_cons_self, rfl⟩
      · obtain ⟨p, hp, hsame⟩ := ih (r :: seen) hq
        exact ⟨p, List.perm_middle.mem_iff.2 hp, hsame⟩

def firstPlace (paths : List Path) (p : Path) : Nat := paths.findIdx fun q => p.Same q

theorem firstPlace_cons_self (p : Path) (paths : List Path) : firstPlace (p :: paths) p = 0 := by
  have hself : decide (p.Same p) = true := decide_eq_true rfl
  rw [firstPlace, List.findIdx_cons, hself, cond_true]

theorem firstPlace_cons_of_not_same (h : ¬ p.Same q) :
    firstPlace (q :: paths) p = firstPlace paths p + 1 := by
  rw [firstPlace, List.findIdx_cons, decide_eq_false h, cond_false]
  rfl

theorem getElem?_firstPlace (h : p ∈ distinctFrom seen paths) :
    paths[firstPlace paths p]? = some p := by
  induction paths generalizing seen with
  | nil => cases h
  | cons q paths ih =>
    have hlater : ∀ {seen s}, p ∈ distinctFrom seen paths → s ∈ seen → q.Same s →
        (q :: paths)[firstPlace (q :: paths) p]? = some p := by
      intro seen s hp hs hsame
      rw [firstPlace_cons_of_not_same (not_same_of_seen hp hs hsame), List.getElem?_cons_succ]
      exact ih hp
    rcases distinctFrom_cons seen q paths with ⟨⟨s, hs, hsame⟩, heq⟩ | ⟨-, heq⟩
    · rw [heq] at h
      exact hlater h hs hsame
    · rw [heq] at h
      rcases List.mem_cons.1 h with rfl | h
      · rw [firstPlace_cons_self, List.getElem?_cons_zero]
      · exact hlater h List.mem_cons_self rfl

theorem distinctFrom_ordered (seen paths : List Path) :
    (distinctFrom seen paths).Pairwise fun p q => firstPlace paths p < firstPlace paths q := by
  induction paths generalizing seen with
  | nil => exact List.Pairwise.nil
  | cons q paths ih =>
    have hlater : ∀ {seen s}, s ∈ seen → q.Same s → (distinctFrom seen paths).Pairwise
        fun p r => firstPlace (q :: paths) p < firstPlace (q :: paths) r := by
      intro seen s hs hsame
      refine (ih seen).imp_of_mem fun hp hr hlt => ?_
      rw [firstPlace_cons_of_not_same (not_same_of_seen hp hs hsame),
        firstPlace_cons_of_not_same (not_same_of_seen hr hs hsame)]
      exact Nat.succ_lt_succ hlt
    rcases distinctFrom_cons seen q paths with ⟨⟨s, hs, hsame⟩, heq⟩ | ⟨-, heq⟩
    · rw [heq]
      exact hlater hs hsame
    · rw [heq]
      refine List.pairwise_cons.2 ⟨fun p hp => ?_, hlater List.mem_cons_self rfl⟩
      rw [firstPlace_cons_self,
        firstPlace_cons_of_not_same (not_same_of_seen hp List.mem_cons_self rfl)]
      exact Nat.succ_pos _

/-- The first spelling of each path of the row, in the order of the first spellings. -/
structure KeepsFirst (paths kept : List Path) : Prop where
  sublist : kept.Sublist paths
  apart : kept.Pairwise fun p q => ¬ p.Same q
  covers : ∀ q ∈ paths, ∃ p ∈ kept, p.Same q
  /-- Each is spelled as where it comes first. -/
  spelled : ∀ p ∈ kept, paths[firstPlace paths p]? = some p
  ordered : kept.Pairwise fun p q => firstPlace paths p < firstPlace paths q

theorem keepsFirst_distinct (paths : List Path) : KeepsFirst paths (distinct paths) where
  sublist := distinctFrom_sublist [] paths
  apart := distinctFrom_apart [] paths
  covers _ hq := distinctFrom_covers [] hq
  spelled _ hp := getElem?_firstPlace hp
  ordered := distinctFrom_ordered [] paths

theorem distinctFrom_of_covered (h : ∀ q ∈ paths, ∃ s ∈ seen, q.Same s) :
    distinctFrom seen paths = [] := by
  induction paths with
  | nil => rfl
  | cons q paths ih =>
    obtain ⟨hq, hpaths⟩ := List.forall_mem_cons.1 h
    rcases distinctFrom_cons seen q paths with ⟨-, heq⟩ | ⟨hnew, -⟩
    · rw [heq]
      exact ih hpaths
    · obtain ⟨s, hs, hsame⟩ := hq
      exact absurd hsame (hnew s hs)

theorem distinctFrom_of_apart {more : List Path} (hapart : paths.Pairwise fun p q => ¬ p.Same q)
    (hnew : ∀ p ∈ paths, ∀ s ∈ seen, ¬ p.Same s)
    (hmore : ∀ q ∈ more, ∃ s ∈ seen ++ paths, q.Same s) :
    distinctFrom seen (paths ++ more) = paths := by
  induction paths generalizing seen with
  | nil => exact distinctFrom_of_covered (by simpa using hmore)
  | cons p paths ih =>
    obtain ⟨hp, hpaths⟩ := List.pairwise_cons.1 hapart
    obtain ⟨hpnew, hrest⟩ := List.forall_mem_cons.1 hnew
    rcases distinctFrom_cons seen p (paths ++ more) with ⟨⟨s, hs, hsame⟩, -⟩ | ⟨-, heq⟩
    · exact absurd hsame (hpnew s hs)
    · rw [List.cons_append, heq]
      refine congrArg (p :: ·) (ih hpaths (fun q hq => ?_) fun q hq => ?_)
      · exact List.forall_mem_cons.2 ⟨fun hsame => hp q hq hsame.symm, hrest q hq⟩
      · obtain ⟨s, hs, hsame⟩ := hmore q hq
        exact ⟨s, List.perm_middle.mem_iff.1 hs, hsame⟩

/-- A list of first spellings is kept as it is, with any of them behind it. -/
theorem KeepsFirst.distinct_append {kept more : List Path} (h : KeepsFirst paths kept)
    (hmore : more ⊆ kept) : distinct (kept ++ more) = kept :=
  distinctFrom_of_apart h.apart (fun _ _ _ hs => absurd hs List.not_mem_nil)
    fun q hq => ⟨q, hmore hq, rfl⟩

end Path

namespace Classpath

/-- Boot and compile roots are merged as one list and source roots as another, so that only what
stands in front of what counts, and not which roots are boot roots. The roots of a class path are
its own class path, also if some of those to be searched are repeated. -/
theorem roots_are_merged (r : Roots) :
    Path.KeepsFirst (r.boot ++ r.compile) r.classpath.search ∧
    Path.KeepsFirst r.source r.classpath.source ∧
    (∀ s : Roots, s.boot ++ s.compile = r.boot ++ r.compile → s.source = r.source →
      s.classpath = r.classpath ∧ s.classpath.fingerprint = r.classpath.fingerprint) ∧
    ∀ repeated : List Path, repeated.Sublist r.classpath.search →
      let again : Roots := ⟨r.classpath.search, r.classpath.source, repeated⟩
      again.classpath = r.classpath ∧ again.classpath.fingerprint = r.classpath.fingerprint := by
  have hsearch := Path.keepsFirst_distinct (r.boot ++ r.compile)
  have hsource := Path.keepsFirst_distinct r.source
  refine ⟨hsearch, hsource, fun s hjoined hs => ?_, fun repeated hrepeated => ?_⟩
  · have heq : s.classpath = r.classpath := by
      rw [Roots.classpath, Roots.classpath, hjoined, hs]
    exact ⟨heq, congrArg fingerprint heq⟩
  · have hkept := hsource.distinct_append (List.nil_subset _)
    rw [List.append_nil] at hkept
    have heq : Roots.classpath ⟨r.classpath.search, r.classpath.source, repeated⟩ = r.classpath :=
      congrArg₂ Classpath.mk (hsearch.distinct_append hrepeated.subset) hkept
    exact ⟨heq, congrArg fingerprint heq⟩

/-- Roots that are repeated in each role and across two of them, never in one spelling. -/
def respelledRoots : Roots where
  boot := [⟨"jdk/rt.jar"⟩, ⟨"lib//a.jar"⟩, ⟨"jdk/./rt.jar"⟩]
  source := [⟨"src/"⟩, ⟨"gen"⟩, ⟨"src"⟩]
  compile := [⟨"lib/a.jar"⟩, ⟨"b.jar"⟩, ⟨"jdk/rt.jar/"⟩]

theorem respelled_roots_are_merged :
    respelledRoots.classpath =
        ⟨[⟨"jdk/rt.jar"⟩, ⟨"lib//a.jar"⟩, ⟨"b.jar"⟩], [⟨"src/"⟩, ⟨"gen"⟩]⟩ ∧
      Roots.classpath ⟨[⟨"jdk/rt.jar"⟩, ⟨"lib//a.jar"⟩],
        respelledRoots.source, ⟨"jdk/./rt.jar"⟩ :: respelledRoots.compile⟩ =
          respelledRoots.classpath ∧
      Roots.classpath ⟨respelledRoots.classpath.search, respelledRoots.classpath.source,
        [⟨"jdk/rt.jar"⟩, ⟨"b.jar"⟩]⟩ = respelledRoots.classpath := by
  have hmerged : respelledRoots.classpath =
      ⟨[⟨"jdk/rt.jar"⟩, ⟨"lib//a.jar"⟩, ⟨"b.jar"⟩], [⟨"src/"⟩, ⟨"gen"⟩]⟩ := by decide
  obtain ⟨-, -, hjoined, hagain⟩ := roots_are_merged respelledRoots
  refine ⟨hmerged, (hjoined _ rfl rfl).1, (hagain [⟨"jdk/rt.jar"⟩, ⟨"b.jar"⟩] ?_).1⟩
  rw [hmerged]
  decide

end Classpath

end ClasspathSymbols
