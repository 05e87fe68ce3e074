import ClasspathSymbols.Proofs.Session.Holding

/-! # Registered projects

Every slot of the cache holds a pair and the counter of indexed projects is the number of slots,
whatever tasks, failures, invalidations and removals came before, at any depth of nesting. So the
answers of an invalidation and of a removal tell whether there is a pair, and the counter is never
lowered below zero. -/
namespace ClasspathSymbols
namespace IndexCache

/-- Every slot holds a pair and is counted. -/
structure Registered (c : IndexCache) : Prop where
  full : ∀ p s, c.slots.get? p = some s → s.current.isSome
  counted : c.counts.indexedProjects = c.slots.size

theorem registered_empty : Registered empty := by
  constructor
  · intro p s h
    cases h
  · rfl

theorem pair?_isSome {c : IndexCache} (h : Registered c) (p : String) :
    (c.pair? p).isSome = (c.slots.get? p).isSome := by
  rw [pair?]
  cases hs : c.slots.get? p with
  | none => rfl
  | some s => exact h.full p s hs

theorem registered_replace {c d : IndexCache} (h : Registered c) {p : String} {new : Option Slot}
    {marks : String → Bool}
    (hs : ∀ q, d.slots.get? q =
      if q = p then new else (c.slots.get? q).map (·.mark (marks q)))
    (hnew : ∀ s ∈ new, s.current.isSome)
    (hc : d.counts.indexedProjects + (if (c.pair? p).isSome then 1 else 0) =
      c.counts.indexedProjects + if new.isSome then 1 else 0) : Registered d := by
  constructor
  · intro q s hq
    rw [hs] at hq
    split at hq
    · exact hnew s hq
    · obtain ⟨old, hold, rfl⟩ := Option.map_eq_some_iff.1 hq
      exact h.full q old hold
  · have hsize := Table.size_of_replaced (t := c.slots) (u := d.slots) (k := p) (v := new) (by
      intro q
      rw [hs]
      split
      · rfl
      · rw [Option.isSome_map])
    rw [pair?_isSome h, h.counted] at hc
    omega

theorem registered_task {c : IndexCache} (h : Registered c) (a : Access) (p : String) :
    Registered (c.task a p).2 := by
  have ho := task_outcome c a p
  generalize c.task a p = r at ho
  obtain ⟨answer, d⟩ := r
  cases ho with
  | timeout => exact h
  | hit => exact ⟨h.full, h.counted⟩
  | built _ _ _ hs hc =>
    refine registered_replace h hs ?_ ?_
    · rintro s ⟨⟩
      rfl
    · rw [hc]
      by_cases hp : (c.pair? p).isSome <;> simp [hp]
  | failed _ _ _ hs hc =>
    refine registered_replace h hs ?_ ?_
    · intro s hs
      obtain ⟨ix, -, rfl⟩ := Option.map_eq_some_iff.1 hs
      rfl
    · rw [hc, Option.isSome_map]

theorem registered_invalidate {c : IndexCache} (h : Registered c) (p : String) :
    Registered (c.invalidate p).2 := by
  have hs : ∀ q, (c.invalidate p).2.slots.get? q = if q = p then (c.slots.get? p).map (·.mark true)
      else (c.slots.get? q).map (·.mark false) := by
    intro q
    rw [slots_invalidate]
    by_cases hq : q = p
    · subst hq
      simp
    · simp [hq]
  refine registered_replace h hs ?_ ?_
  · intro s hs
    obtain ⟨old, hold, rfl⟩ := Option.map_eq_some_iff.1 hs
    exact h.full p old hold
  · rw [counts_invalidate, Option.isSome_map, pair?_isSome h]

theorem counter_pos {c : IndexCache} (h : Registered c) {p : String} {s : Slot}
    (hs : c.slots.get? p = some s) : 0 < c.counts.indexedProjects := by
  have hsize := Table.size_erase c.slots p
  rw [hs, Option.isSome_some, if_pos rfl] at hsize
  rw [h.counted]
  omega

theorem registered_remove {c : IndexCache} (h : Registered c) (p : String) :
    Registered (c.remove p).2 := by
  have hs : ∀ q, (c.remove p).2.slots.get? q =
      if q = p then none else (c.slots.get? q).map (·.mark false) := by
    intro q
    rw [slots_remove, Slot.map_mark_false]
  refine registered_replace h hs ?_ ?_
  · rintro s ⟨⟩
  · rw [counts_remove, pair?_isSome h]
    cases hp : c.slots.get? p with
    | none => simp
    | some s =>
      have hpos := counter_pos h hp
      simp only [Option.isSome_some, Option.isSome_none, if_true]
      exact Nat.sub_add_cancel hpos

theorem current_of_mem {c : IndexCache} (h : Registered c) {e : String × Slot}
    (he : e ∈ c.slots.entries) : e.2.current.isSome :=
  h.full e.1 e.2 (Table.get?_of_mem he)

theorem registered_clear {c : IndexCache} (h : Registered c) : Registered c.clear := by
  constructor
  · intro q s hq
    cases hq
  · have hall : c.slots.entries.countP (fun e => e.2.current.isSome) = c.slots.size :=
      List.countP_eq_length.2 fun e he => current_of_mem h he
    rw [counts_clear]
    simp only [hall, h.counted, Nat.sub_self]
    rfl

theorem registered_apply {c : IndexCache} (h : Registered c) (op : Op) :
    Registered (c.apply op) := by
  cases op with
  | task a p => exact registered_task h a p
  | invalidate p => exact registered_invalidate h p
  | remove p => exact registered_remove h p
  | clear => exact registered_clear h

theorem registered_afterOps {c : IndexCache} (h : Registered c) (ops : List Op) :
    Registered (c.afterOps ops) := by
  induction ops generalizing c with
  | nil => exact h
  | cons op ops ih => exact ih (registered_apply h op)

/-- What registration promises of a cache between two operations. -/
structure Truthful (c : IndexCache) : Prop extends Registered c where
  invalidated : ∀ p, (c.invalidate p).1 = (c.pair? p).isSome
  removed : ∀ p, (c.remove p).1 = (c.pair? p).isSome
  gone : ∀ p, (c.remove p).2.slots.get? p = none
  /-- The counter is not zero where the removal of a project lowers it. -/
  lowered : ∀ p s, c.slots.get? p = some s → 0 < c.counts.indexedProjects
  /-- Nor is it where slots are dropped one by one, in whatever order. -/
  drained : ∀ order, order.Perm c.slots.entries → ∀ done e rest, order = done ++ e :: rest →
    0 < (done.foldl (fun n e => CacheCounts.drop n e.2) c.counts).indexedProjects

theorem drained_pos {c : IndexCache} (h : Registered c) {order : List (String × Slot)}
    (hperm : order.Perm c.slots.entries) {done rest : List (String × Slot)} {e : String × Slot}
    (hsplit : order = done ++ e :: rest) :
    0 < (done.foldl (fun n e => CacheCounts.drop n e.2) c.counts).indexedProjects := by
  have hall : done.countP (fun e => e.2.current.isSome) = done.length := by
    refine List.countP_eq_length.2 fun d hd => current_of_mem h (hperm.mem_iff.1 ?_)
    rw [hsplit]
    exact List.mem_append_left _ hd
  have hlen : done.length + (rest.length + 1) = c.slots.size := by
    rw [← List.length_cons, ← List.length_append, ← hsplit]
    exact hperm.length_eq
  -- so far the counter has gone down by the slots done, and the slot at hand is not among them
  rw [counts_dropAll]
  simp only [hall, h.counted]
  omega

theorem truthful_of_registered {c : IndexCache} (h : Registered c) : Truthful c where
  toRegistered := h
  invalidated := by
    intro p
    rw [pair?_isSome h, invalidate]
    cases c.slots.get? p <;> rfl
  removed := by
    intro p
    rw [pair?, remove]
    cases c.slots.get? p <;> rfl
  gone := by
    intro p
    rw [slots_remove, if_pos rfl]
  lowered := fun _ _ => counter_pos h
  drained := fun _ hperm _ _ _ => drained_pos h hperm

def Op.Misses (p : String) (c : IndexCache) (op : Op) : Prop :=
  ∀ a ix, op = .task a p → (c.task a p).1 ≠ .ok ix

theorem vacant_task {c : IndexCache} {p : String} (h : c.slots.get? p = none) {a : Access}
    {q : String} (hmiss : q = p → ∀ ix, (c.task a p).1 ≠ .ok ix) :
    (c.task a q).2.slots.get? p = none := by
  -- a slot that appears is the task's own, and only an index makes a task leave one
  refine Classical.byContradiction fun hne => ?_
  rcases slot_after_task hne with rfl | hold
  · have ho := task_outcome c a p
    generalize c.task a p = r at ho hmiss hne
    obtain ⟨answer, d⟩ := r
    cases ho with
    | timeout => exact hne h
    | hit | built => exact hmiss rfl _ rfl
    | failed _ _ _ hs =>
      apply hne
      rw [hs, if_pos rfl, pair?, h]
      rfl
  · exact hold h

theorem vacant_apply {c : IndexCache} {p : String} (h : c.slots.get? p = none) {op : Op}
    (hmiss : op.Misses p c) : (c.apply op).slots.get? p = none := by
  cases op with
  | task a q =>
    refine vacant_task h ?_
    rintro rfl ix
    exact hmiss a ix rfl
  | invalidate q =>
    rw [apply, slots_invalidate, h]
    rfl
  | remove q =>
    rw [apply, slots_remove, h, ite_self]
  | clear => rfl

/-- A project that could never be built leaves no slot behind. -/
theorem vacant_afterOps {c : IndexCache} {p : String} (h : c.slots.get? p = none) {ops : List Op}
    (hmiss : Throughout (Op.Misses p) c ops) : (c.afterOps ops).slots.get? p = none := by
  induction ops generalizing c with
  | nil => exact h
  | cons op ops ih => exact ih (vacant_apply h hmiss.1) hmiss.2

end IndexCache

namespace Session

open IndexCache

/-- Whatever a session does, and wherever it is looked at, every slot holds a pair and is counted,
no project that could never be built has one, and no task that waits leaves one behind. -/
theorem registration_is_truthful (fs : Files) (w : Workspace) (timeout : Nat) (steps : List Step)
    {ops : List Op} {m : Moment} (hm : Moment.Reaches ⟨[], start fs w timeout, steps⟩ ops m) :
    Truthful m.session.cache ∧
    (∀ p, Throughout (Op.Misses p) .empty ops → m.session.cache.slots.get? p = none) ∧
    (ProceedsAll [] (start fs w timeout) steps →
      ∀ p, m.session.cache.taskOnSlot m.access p = m.session.cache.task m.access p) := by
  have hcache : m.session.cache = IndexCache.empty.afterOps ops := hm.cache
  refine ⟨?_, ?_, ?_⟩
  · rw [hcache]
    exact truthful_of_registered (registered_afterOps registered_empty ops)
  · intro p hmiss
    rw [hcache]
    exact vacant_afterOps (slots_empty p) hmiss
  · intro hgo p
    have hsteady := hm.steady ⟨nofun, hgo⟩
    exact taskOnSlot_eq (hsteady.paired p)

def registeringSteps : List Step :=
  [.get "web", .nested "app" [.get "lib", .invalidate "lib", .remove "lib"], .clear]

theorem registration_is_truthful_inside :
    ∃ ops m, Moment.Reaches ⟨[], start (.emptyAt []) twoProjects 0, registeringSteps⟩ ops m ∧
      m.held = ["app"] ∧ m.left = [.remove "lib"] ∧
      Truthful m.session.cache ∧
      (∀ p, Throughout (Op.Misses p) .empty ops → m.session.cache.slots.get? p = none) ∧
      (ProceedsAll [] (start (.emptyAt []) twoProjects 0) registeringSteps →
        ∀ p, m.session.cache.taskOnSlot m.access p = m.session.cache.task m.access p) := by
  have hreached : ∃ ops m,
      Moment.Reaches ⟨[], start (.emptyAt []) twoProjects 0, registeringSteps⟩ ops m ∧
      m.held = ["app"] ∧ m.left = [.remove "lib"] :=
    ⟨_, _, .later (.inside rfl (.later (.later (.now _)))), rfl, rfl⟩
  obtain ⟨ops, m, hm, hheld, hleft⟩ := hreached
  exact ⟨ops, m, hm, hheld, hleft, registration_is_truthful _ _ _ _ hm⟩

end Session

end ClasspathSymbols
