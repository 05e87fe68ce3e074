import ClasspathSymbols.Proofs.IndexCache.History
import ClasspathSymbols.Proofs.IndexCache.Registration

/-! # Failed builds

A build that fails leaves the pair that was there, marked for the next try, and nothing where there
was none. So every task that gets hold of the project reads the roots again, until one succeeds; and
that one puts the class path and the index in place together. -/
namespace ClasspathSymbols.IndexCache

variable {c : IndexCache} {a : Access} {p : String} {e : IndexUnavailable}

theorem task_failed (hfree : p ∉ a.held) (hfail : (c.task a p).1 = .error e) :
    a.host.index p = .error e ∧
    (∀ q, (c.task a p).2.slots.get? q =
      if q = p then (c.pair? p).map fun ix => ⟨some ix, true⟩
      else (c.slots.get? q).map (·.mark (decide (q ∈ a.host.invalidates)))) ∧
    (c.task a p).2.counts = { c.counts with failedBuilds := c.counts.failedBuilds + 1 } := by
  have ho := task_outcome c a p
  generalize c.task a p = r at ho hfail ⊢
  obtain ⟨answer, d⟩ := r
  dsimp only at ho hfail ⊢
  cases ho with
  | timeout hheld => exact absurd hheld hfree
  | hit | built => cases hfail
  | failed _ _ hx hs hc =>
    cases hfail
    exact ⟨hx, hs, hc⟩

/-- What a task on `p` that failed with `e` leaves of the cache `c`. -/
structure Intact (c : IndexCache) (a : Access) (p : String) (e : IndexUnavailable)
    (d : IndexCache) : Prop where
  named : e.project = p
  cause : (∃ r, e = .roots p r ∧ a.host.model.roots p = .error r) ∨
    ∃ roots b, e = .build p b ∧ a.host.model.roots p = .ok roots ∧
      Index.build a.host.files roots.classpath = .error b
  kept : ∀ ix, c.pair? p = some ix → d.slots.get? p = some ⟨some ix, true⟩
  registered : ∀ q, (d.slots.get? q).isSome = (c.slots.get? q).isSome
  others : ∀ q ≠ p, d.slots.get? q =
    (c.slots.get? q).map (·.mark (decide (q ∈ a.host.invalidates)))
  counts : d.counts = { c.counts with failedBuilds := c.counts.failedBuilds + 1 }

theorem intact_of_failed (h : Registered c) (hfree : p ∉ a.held)
    (hfail : (c.task a p).1 = .error e) : Intact c a p e (c.task a p).2 := by
  obtain ⟨hx, hs, hc⟩ := task_failed hfree hfail
  have hcause := Host.index_eq_error hx
  refine ⟨?_, hcause, fun ix hix => ?_, fun q => ?_, fun q hq => ?_, hc⟩
  · rcases hcause with ⟨r, rfl, -⟩ | ⟨roots, b, rfl, -⟩ <;> rfl
  · rw [hs, if_pos rfl, hix]
    rfl
  · rw [hs]
    split
    -- a slot without a pair would be gone now, but registration leaves none
    · rename_i hq
      rw [hq, Option.isSome_map, pair?_isSome h]
    · rw [Option.isSome_map]
  · rw [hs, if_neg hq]

theorem due_of_failed (hfree : p ∉ a.held) (hfail : (c.task a p).1 = .error e) :
    (c.task a p).2.Due p := by
  intro ix hfresh
  rw [(task_failed hfree hfail).2.1, if_pos rfl] at hfresh
  obtain ⟨old, -, hold⟩ := Option.map_eq_some_iff.1 hfresh
  cases hold

theorem slot_task_missing (hmiss : ∀ ix, (c.task a p).1 ≠ .ok ix) :
    (c.task a p).2.slots.get? p = c.slots.get? p ∨
      p ∉ a.held ∧ ∃ e, (c.task a p).1 = .error e := by
  by_cases hheld : p ∈ a.held
  · rw [task_of_held hheld]
    exact Or.inl rfl
  · cases hr : (c.task a p).1 with
    | ok ix => exact absurd hr (hmiss ix)
    | error e => exact Or.inr ⟨hheld, e, rfl⟩

theorem due_apply (h : c.Due p) {op : Op} (hmiss : op.Misses p c) : (c.apply op).Due p := by
  intro ix hfresh
  cases op with
  | task b q =>
    by_cases hq : q = p
    · subst hq
      rcases slot_task_missing (hmiss b · rfl) with hsame | ⟨hfree, e, hfail⟩
      · exact h ix (hsame ▸ hfresh)
      · exact due_of_failed hfree hfail ix hfresh
    · obtain ⟨raised, hsame⟩ := slot_task_elsewhere c b (Ne.symm hq)
      rw [apply, hsame] at hfresh
      exact h ix (Slot.fresh_of_map_mark hfresh)
  | invalidate q =>
    rw [apply, slots_invalidate] at hfresh
    exact h ix (Slot.fresh_of_map_mark hfresh)
  | remove q =>
    rw [apply, slots_remove] at hfresh
    split at hfresh
    · cases hfresh
    · exact h ix hfresh
  | clear => cases hfresh

theorem due_afterOps (h : c.Due p) {ops : List Op} (hmiss : Throughout (Op.Misses p) c ops) :
    (c.afterOps ops).Due p := by
  induction ops generalizing c with
  | nil => exact h
  | cons op ops ih => exact ih (due_apply h hmiss.1) hmiss.2

theorem map_mark_of_stale {s : Option Slot} {ix : Indexed} (h : s = some ⟨some ix, true⟩)
    (raised : Bool) : s.map (·.mark raised) = some ⟨some ix, true⟩ := by
  rw [h]
  rfl

theorem stale_apply {ix : Indexed} (h : c.slots.get? p = some ⟨some ix, true⟩) {op : Op}
    (hmiss : op.Misses p c) (hkeep : op.Keeps p) :
    (c.apply op).slots.get? p = some ⟨some ix, true⟩ := by
  cases op with
  | task b q =>
    by_cases hq : q = p
    · subst hq
      rcases slot_task_missing (hmiss b · rfl) with hsame | ⟨hfree, e, hfail⟩
      · exact hsame.trans h
      · rw [apply, (task_failed hfree hfail).2.1, if_pos rfl, pair?, h]
        rfl
    · obtain ⟨raised, hsame⟩ := slot_task_elsewhere c b (Ne.symm hq)
      exact hsame.trans (map_mark_of_stale h raised)
  | invalidate q => exact (slots_invalidate c q p).trans (map_mark_of_stale h _)
  | remove q => exact (slots_remove c q p).trans ((if_neg (Ne.symm hkeep)).trans h)
  | clear => exact hkeep.elim

theorem stale_afterOps {ix : Indexed} (h : c.slots.get? p = some ⟨some ix, true⟩) {ops : List Op}
    (hmiss : Throughout (Op.Misses p) c ops) (hkeep : ∀ op ∈ ops, op.Keeps p) :
    (c.afterOps ops).slots.get? p = some ⟨some ix, true⟩ := by
  induction ops generalizing c with
  | nil => exact h
  | cons op ops ih =>
    rw [List.forall_mem_cons] at hkeep
    exact ih (stale_apply h hmiss.1 hkeep.1) hmiss.2 hkeep.2

theorem built_of_due (hdue : c.Due p) {ix : Indexed} (hok : (c.task a p).1 = .ok ix) :
    a.host.index p = .ok ix.content ∧ ix.serial = c.counts.builds ∧
      (c.task a p).2.pair? p = some ix := by
  have hpair := pair_of_task_ok (Prod.ext hok rfl : c.task a p = (.ok ix, (c.task a p).2))
  have ho := task_outcome c a p
  generalize c.task a p = r at ho hok hpair ⊢
  obtain ⟨answer, d⟩ := r
  dsimp only at ho hok hpair ⊢
  cases ho with
  | timeout | failed => cases hok
  | hit _ hs => exact absurd hs (hdue _)
  | built _ _ hx =>
    cases hok
    exact ⟨hx, rfl, hpair⟩

/-- What follows a task on `p` that failed in the cache `c` and left `d`, as long as other tasks on
`p` fail as well. The operations `past` made `d`. -/
structure Retried (c : IndexCache) (p : String) (past : List Op) (d : IndexCache) : Prop where
  /-- The pair from before the first failure is there after the last one, if nobody drops it. -/
  kept : ∀ ix, c.pair? p = some ix → ∀ more, Throughout (Op.Misses p) d more →
    (∀ op ∈ more, op.Keeps p) → (d.afterOps more).slots.get? p = some ⟨some ix, true⟩
  again : ∀ more, Throughout (Op.Misses p) d more → ∀ b : Access, p ∉ b.held →
    (Recorder.after (past ++ more)).cache = d.afterOps more ∧
    (Recorder.after (past ++ more)).ReadsRoots b p
  replaced : ∀ more, Throughout (Op.Misses p) d more → ∀ (b : Access) (ix : Indexed),
    ((d.afterOps more).task b p).1 = .ok ix →
    b.host.index p = .ok ix.content ∧ ix.serial = (d.afterOps more).counts.builds ∧
    ((d.afterOps more).task b p).2.pair? p = some ix

/-- Wherever a run has come to, a task that gets hold of its project and fails changes nothing but
the count of failed builds and the marks, and the roots are read again until a task succeeds. -/
theorem failed_build_is_undone (ops : List Op) (a : Access) {p : String} (hfree : p ∉ a.held)
    {e : IndexUnavailable} (hfail : ((empty.afterOps ops).task a p).1 = .error e) :
    Intact (empty.afterOps ops) a p e ((empty.afterOps ops).task a p).2 ∧
    Retried (empty.afterOps ops) p (ops ++ [.task a p]) ((empty.afterOps ops).task a p).2 := by
  have hintact := intact_of_failed (registered_afterOps registered_empty ops) hfree hfail
  have hdue := due_of_failed hfree hfail
  refine ⟨hintact, ?_, ?_, ?_⟩
  · intro ix hix more hmiss hkeep
    exact stale_afterOps (hintact.kept ix hix) hmiss hkeep
  · intro more hmiss b hb
    have hcache : (Recorder.after (ops ++ [.task a p] ++ more)).cache =
        ((empty.afterOps ops).task a p).2.afterOps more := by
      rw [Recorder.after_cache, afterOps_append, afterOps_append]
      rfl
    refine ⟨hcache, (readsRoots_iff_due hb).2 ?_⟩
    rw [hcache]
    exact due_afterOps hdue hmiss
  · intro more hmiss b ix hok
    exact built_of_due (due_afterOps hdue hmiss) hok

def soundAccess : Access :=
  ⟨⟨.emptyAt [],
    .ofWorkspace ⟨[⟨"app", true, ⟨[], [], []⟩⟩, ⟨"lib", true, ⟨[], [], []⟩⟩]⟩, []⟩, [], 20⟩

def lossyAccess : Access :=
  ⟨⟨.emptyAt [], ⟨⟨[⟨"app", true, ⟨[], [], []⟩⟩]⟩, [("app", "closed")]⟩, ["app", "lib"]⟩,
    ["lib"], 20⟩

def lossyPast : List Op :=
  [.task soundAccess "app", .task soundAccess "lib", .invalidate "app"]

theorem a_pair_outlives_lost_roots :
    "app" ∉ lossyAccess.held ∧
    ((empty.afterOps lossyPast).task lossyAccess "app").1 =
      .error (.roots "app" (.unavailable "app" "closed")) ∧
    ((empty.afterOps lossyPast).pair? "app").isSome ∧
    Intact (empty.afterOps lossyPast) lossyAccess "app" (.roots "app" (.unavailable "app" "closed"))
      ((empty.afterOps lossyPast).task lossyAccess "app").2 ∧
    Retried (empty.afterOps lossyPast) "app" (lossyPast ++ [.task lossyAccess "app"])
      ((empty.afterOps lossyPast).task lossyAccess "app").2 := by
  have hfree : "app" ∉ lossyAccess.held := by decide
  have hfail : ((empty.afterOps lossyPast).task lossyAccess "app").1 =
      .error (.roots "app" (.unavailable "app" "closed")) := rfl
  exact ⟨hfree, hfail, rfl, failed_build_is_undone lossyPast lossyAccess hfree hfail⟩

end ClasspathSymbols.IndexCache
