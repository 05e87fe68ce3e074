import ClasspathSymbols.Proofs.Index.Agreement
import ClasspathSymbols.Proofs.IndexCache.Ownership
import ClasspathSymbols.Proofs.IndexCache.Waiting

/-! # Deprecation in the owner

An owner is found by a task on its index, and whether the symbol is deprecated there is asked in a
second one. The first leaves the pair in which it found the symbol, without a mark unless the model
marks the project itself. So the second gets that very pair, and speaks of the declaration that won
the name in it. -/
namespace ClasspathSymbols

/-- The flag is that of the declaration which won the name, the first in any row of declarations
that the index is made of. A package is declared by no one place, and is never deprecated. -/
def Symbol.Flagged (s : Symbol) (ix : Index) (flag : Bool) : Prop :=
  match s.kind with
  | .type => ∃ d, ix.Wins d s.name ∧ ix.place? s = some d.place ∧ d.deprecated = flag ∧
      ∀ ds, ix = .ofDeclarations ds → ds.find? (fun e => e.sourceName = s.name) = some d
  | .package => (ix.findPackage s.name).isSome ∧ flag = false
  | .element => False

theorem Index.flagged_of_known {ix : Index} {s : Symbol} (h : s.IsKnown ix) :
    s.Flagged ix (ix.isDeprecated s) := by
  obtain ⟨name, kind⟩ := s
  cases kind with
  | element => exact h.elim
  | package =>
    refine ⟨h, ?_⟩
    simp only [isDeprecated, deprecated?]
    split <;> rfl
  | type =>
    obtain ⟨d, hd⟩ := findType_isSome.1 h
    have hwon : ix.types[name]? = some d := hd
    refine ⟨d, hd, ?_, ?_, ?_⟩
    · rw [place?, hwon, Option.map_some]
    · rw [isDeprecated, deprecated?, hwon, Option.map_some, Option.getD_some]
    · rintro ds rfl
      rw [← ofDeclarations_types]
      exact hwon

theorem Index.isDeprecated_of_unknown {ix : Index} {s : Symbol} (h : ¬ s.IsKnown ix) :
    ix.isDeprecated s = false := by
  obtain ⟨name, kind⟩ := s
  cases kind with
  | element => rfl
  | package =>
    simp only [isDeprecated, deprecated?]
    split <;> rfl
  | type =>
    have hnone : ix.types[name]? = none := by
      by_contra hsome
      obtain ⟨d, hd⟩ := Option.ne_none_iff_exists'.1 hsome
      exact h (findType_isSome.2 ⟨d, hd⟩)
    rw [isDeprecated, deprecated?, hnone, Option.map_none, Option.getD_none]

namespace IndexCache

variable {c d : IndexCache} {a : Access} {s : Symbol} {p : String} {ps : List String}

theorem fresh_of_task_ok {ix : Indexed} (h : c.task a p = (.ok ix, d))
    (hquiet : p ∉ a.host.invalidates) : d.slots.get? p = some ⟨some ix, false⟩ := by
  have ho := task_outcome c a p
  rw [h] at ho
  dsimp only at ho
  generalize hr : (Except.ok ix : Except IndexUnavailable Indexed) = r at ho
  cases ho with
  | timeout | failed => cases hr
  | hit _ hs =>
    cases hr
    exact hs
  | built _ _ _ hs =>
    cases hr
    rw [hs, if_pos rfl, decide_eq_false hquiet]

/-- After a task that succeeds, the next one on its project is a hit on the same pair. -/
theorem task_again {ix : Indexed} (h : c.task a p = (.ok ix, d))
    (hquiet : p ∉ a.host.invalidates) : d.task a p = (.ok ix, d.countHit) :=
  task_of_fresh (free_of_task_ok h) (fresh_of_task_ok h hquiet)

theorem declares_of_search {failure : Option IndexUnavailable}
    (h : (search a s c failure ps).1 = .ok (some p)) :
    ∃ before after, ps = before ++ p :: after ∧
      Throughout (Op.PassesOver s) c (tasks a before) ∧
      (c.afterOps (tasks a before)).Declares a s p := by
  induction ps generalizing c failure with
  | nil => cases failure <;> cases h
  | cons q ps ih =>
    by_cases hq : c.Declares a s q
    · rw [search_of_declares hq] at h
      cases h
      exact ⟨[], ps, rfl, trivial, hq⟩
    · rw [search_of_not_declares hq] at h
      obtain ⟨before, after, rfl, hbefore, hp⟩ := ih h
      refine ⟨q :: before, after, rfl, ⟨?_, hbefore⟩, hp⟩
      rintro b r ⟨⟩
      exact hq

theorem ask_eq {α : Type} (c : IndexCache) (a : Access) (p : String) (f : Index → α) :
    c.ask a p f = ((c.task a p).1.map fun ix => f ix.index, (c.task a p).2) := rfl

theorem ask_eq_error {α : Type} {f : Index → α} {e : IndexUnavailable} :
    (c.ask a p f).1 = .error e ↔ (c.task a p).1 = .error e := by
  rw [ask_eq]
  cases (c.task a p).1 with
  | ok ix => constructor <;> (intro h; cases h)
  | error r => exact ⟨fun h => congrArg Except.error (Except.error.inj h),
      fun h => congrArg Except.error (Except.error.inj h)⟩

theorem deprecatedInOwner_eq (c : IndexCache) (a : Access) (s : Symbol) (ps : List String) :
    c.deprecatedInOwner a s ps = match (c.owner a s ps).1 with
      | .error e => (.error e, (c.owner a s ps).2)
      | .ok none => (.ok false, (c.owner a s ps).2)
      | .ok (some p) => (c.owner a s ps).2.ask a p fun ix => ix.isDeprecated s := by
  rw [deprecatedInOwner]
  rcases c.owner a s ps with ⟨e | found, d⟩
  · rfl
  · cases found <;> rfl

/-- The search for the owner `p` ran one task a project, on those of `before` and last on `p`, and
found the symbol in the pair `ix`. The second task takes that pair from the cache. -/
structure AnsweredFrom (c : IndexCache) (a : Access) (s : Symbol) (ps : List String) (p : String)
    (before : List String) (ix : Indexed) : Prop where
  asked : Asked c a (before ++ [p]) (c.owner a s ps).2
  found : (c.afterOps (tasks a before)).task a p = (.ok ix, (c.owner a s ps).2) ∧
    s.IsKnown ix.index
  hit : (c.owner a s ps).2.task a p = (.ok ix, (c.owner a s ps).2.countHit)
  answer : ∃ flag, s.Flagged ix.index flag ∧
    c.deprecatedInOwner a s ps = (.ok flag, (c.owner a s ps).2.countHit)

theorem answeredFrom_of_owner (hps : ∀ q, ps ≠ [q]) (h : (c.owner a s ps).1 = .ok (some p))
    (hquiet : p ∉ a.host.invalidates) : ∃ before ix, AnsweredFrom c a s ps p before ix := by
  have hsearch := owner_of_several hps c a s
  have hfound := h
  rw [hsearch] at hfound
  obtain ⟨before, after, hsplit, hbefore, hdeclares⟩ := declares_of_search hfound
  have hran := search_found hbefore hdeclares none after
  rw [← hsplit, ← hsearch] at hran
  obtain ⟨ix, hix, hknown⟩ := hdeclares
  have hlast : c.afterOps (tasks a (before ++ [p])) =
      ((c.afterOps (tasks a before)).task a p).2 := by
    rw [tasks, List.map_append, afterOps_append]
    rfl
  have hfirst : (c.afterOps (tasks a before)).task a p = (.ok ix, (c.owner a s ps).2) := by
    rw [hran, hlast, ← hix]
  have hhit := task_again hfirst hquiet
  refine ⟨before, ix, ?_, ⟨hfirst, hknown⟩, hhit, ix.index.isDeprecated s,
    Index.flagged_of_known hknown, ?_⟩
  · rw [hran]
    exact asked_tasks c a _
  · simp only [deprecatedInOwner_eq, h, ask_eq, hhit]
    rfl

/-- What follows for several candidates: the owner answers, from the pair in which it was found, or
there is none, and then the answer is no or the first failure of the search. -/
structure OwnerAnswers (c : IndexCache) (a : Access) (s : Symbol) (ps : List String) : Prop where
  owned : ∀ p, (c.owner a s ps).1 = .ok (some p) → p ∉ a.host.invalidates →
    ∃ before ix, AnsweredFrom c a s ps p before ix
  ownerless : (c.owner a s ps).1 = .ok none →
    c.deprecatedInOwner a s ps = (.ok false, (c.owner a s ps).2)
  failed : ∀ e, (c.owner a s ps).1 = .error e →
    c.deprecatedInOwner a s ps = (.error e, (c.owner a s ps).2)
  /-- The second task never fails, so a failure is always one of the search. -/
  failsAlike : (∀ p, (c.owner a s ps).1 = .ok (some p) → p ∉ a.host.invalidates) →
    ∀ e, (c.deprecatedInOwner a s ps).1 = .error e ↔ (c.owner a s ps).1 = .error e

theorem ownerAnswers_of_several (hps : ∀ q, ps ≠ [q]) (c : IndexCache) (a : Access) (s : Symbol) :
    OwnerAnswers c a s ps := by
  have hfailed : ∀ e, (c.owner a s ps).1 = .error e →
      c.deprecatedInOwner a s ps = (.error e, (c.owner a s ps).2) := by
    intro e h
    simp only [deprecatedInOwner_eq, h]
  have hownerless : (c.owner a s ps).1 = .ok none →
      c.deprecatedInOwner a s ps = (.ok false, (c.owner a s ps).2) := by
    intro h
    simp only [deprecatedInOwner_eq, h]
  refine ⟨fun p => answeredFrom_of_owner hps, hownerless, hfailed, fun hquiet e => ?_⟩
  constructor
  · intro h
    cases hr : (c.owner a s ps).1 with
    | error r =>
      rw [hfailed r hr] at h
      exact congrArg Except.error (Except.error.inj h)
    | ok found =>
      cases found with
      | none =>
        rw [hownerless hr] at h
        cases h
      | some p =>
        obtain ⟨before, ix, hanswered⟩ := answeredFrom_of_owner hps hr (hquiet p hr)
        obtain ⟨flag, -, hanswer⟩ := hanswered.answer
        rw [hanswer] at h
        cases h
  · intro h
    rw [hfailed e h]

/-- What follows for a single candidate: its index answers, if it is to be had. -/
structure OnlyAnswers (c : IndexCache) (a : Access) (s : Symbol) (p : String) : Prop where
  known : ∀ ix, (c.task a p).1 = .ok ix → s.IsKnown ix.index →
    ∃ flag, s.Flagged ix.index flag ∧ (c.deprecatedInOwner a s [p]).1 = .ok flag
  unknown : ∀ ix, (c.task a p).1 = .ok ix → ¬ s.IsKnown ix.index →
    (c.deprecatedInOwner a s [p]).1 = .ok false
  failed : ∀ e, (c.deprecatedInOwner a s [p]).1 = .error e ↔ (c.task a p).1 = .error e
  ran : (c.deprecatedInOwner a s [p]).2 = (c.task a p).2

theorem onlyAnswers (c : IndexCache) (a : Access) (s : Symbol) (p : String) :
    OnlyAnswers c a s p := by
  have hask : c.deprecatedInOwner a s [p] = c.ask a p fun ix => ix.isDeprecated s := rfl
  have hok : ∀ ix, (c.task a p).1 = .ok ix →
      (c.deprecatedInOwner a s [p]).1 = .ok (ix.index.isDeprecated s) := by
    intro ix hix
    rw [hask, ask_eq, hix]
    rfl
  refine ⟨fun ix hix hknown => ?_, fun ix hix hunknown => ?_, fun e => ask_eq_error, rfl⟩
  · exact ⟨_, Index.flagged_of_known hknown, hok ix hix⟩
  · rw [hok ix hix, Index.isDeprecated_of_unknown hunknown]

/-- Whether a symbol is deprecated in its owner is what the declaration says that made the project
its owner, unless the model marks that project meanwhile. -/
theorem deprecation_speaks_of_the_winner (c : IndexCache) (a : Access) (s : Symbol)
    (ps : List String) :
    ((∀ q, ps ≠ [q]) → OwnerAnswers c a s ps) ∧ ∀ p, ps = [p] → OnlyAnswers c a s p := by
  constructor
  · intro hps
    exact ownerAnswers_of_several hps c a s
  · rintro p rfl
    exact onlyAnswers c a s p

/-- One project has lost its roots and two declare `A`, the first in a source that says so. -/
def quietAccess : Access where
  host := ⟨((Files.emptyAt []).write ["classes", "A.class"] ⟨#[]⟩).write ["src", "A.java"]
      "@Deprecated class A {}".toUTF8,
    ⟨⟨[⟨"lost", true, ⟨[], [], []⟩⟩, ⟨"app", true, ⟨[⟨"classes"⟩], [⟨"src"⟩], []⟩⟩,
      ⟨"late", true, ⟨[⟨"classes"⟩], [], []⟩⟩]⟩, [("lost", "closed")]⟩, ["lost", "late"]⟩
  held := []
  timeout := 20

theorem the_deprecated_class_won :
    (∀ q, ["lost", "app", "late"] ≠ [q]) ∧
    (owner .empty quietAccess ⟨"A", .type⟩ ["lost", "app", "late"]).1 = .ok (some "app") ∧
    "app" ∉ quietAccess.host.invalidates ∧
    OwnerAnswers .empty quietAccess ⟨"A", .type⟩ ["lost", "app", "late"] ∧
    (deprecatedInOwner .empty quietAccess ⟨"A", .type⟩ ["lost", "app", "late"]).1 = .ok true ∧
    OnlyAnswers .empty quietAccess ⟨"A", .type⟩ "late" := by
  have hseveral : ∀ q, ["lost", "app", "late"] ≠ [q] := by simp
  have howner : (owner .empty quietAccess ⟨"A", .type⟩ ["lost", "app", "late"]).1 =
      .ok (some "app") := eq_ok_of_toOption (by decide +kernel)
  refine ⟨hseveral, howner, by decide,
    (deprecation_speaks_of_the_winner .empty quietAccess ⟨"A", .type⟩ _).1 hseveral, ?_,
    (deprecation_speaks_of_the_winner .empty quietAccess ⟨"A", .type⟩ _).2 "late" rfl⟩
  exact eq_ok_of_toOption (by decide +kernel)

end IndexCache

end ClasspathSymbols
