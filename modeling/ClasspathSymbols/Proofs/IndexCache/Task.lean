import ClasspathSymbols.IndexCache

/-! # What an index task does

Every operation is described by the slots it leaves and by the counts. An index task on a free
project either takes the pair that is there or ends as a build without a cache ends; `Outcome`
says once what each ending leaves behind. -/
namespace ClasspathSymbols

/-- The class path and the index of a project, made from its roots and the files as they are. -/
def Host.index (h : Host) (project : String) : Except IndexUnavailable (Classpath × Index) :=
  match h.model.roots project with
  | .error e => .error (.roots project e)
  | .ok roots =>
    match Index.build h.files roots.classpath with
    | .error e => .error (.build project e)
    | .ok index => .ok (roots.classpath, index)

theorem Host.index_eq_error {h : Host} {project : String} {e : IndexUnavailable}
    (hx : h.index project = .error e) :
    (∃ r, e = .roots project r ∧ h.model.roots project = .error r) ∨
    ∃ roots b, e = .build project b ∧ h.model.roots project = .ok roots ∧
      Index.build h.files roots.classpath = .error b := by
  rw [index] at hx
  split at hx
  · rename_i r hroots
    exact Or.inl ⟨r, (Except.error.inj hx).symm, hroots⟩
  · rename_i roots hroots
    split at hx
    · rename_i b hbuild
      exact Or.inr ⟨roots, b, (Except.error.inj hx).symm, hroots, hbuild⟩
    · cases hx

theorem Host.index_error {h : Host} {project : String} {e : IndexUnavailable}
    (hx : h.index project = .error e) :
    (∃ r, e = .roots project r) ∨ ∃ b, e = .build project b := by
  rcases Host.index_eq_error hx with ⟨r, he, -⟩ | ⟨roots, b, he, -⟩
  · exact Or.inl ⟨r, he⟩
  · exact Or.inr ⟨b, he⟩

def Indexed.content (ix : Indexed) : Classpath × Index := (ix.classpath, ix.index)

def Slot.mark (s : Slot) (raised : Bool) : Slot := { s with stale := s.stale || raised }

@[simp] theorem Slot.mark_false (s : Slot) : s.mark false = s := by
  simp [Slot.mark]

@[simp] theorem Slot.map_mark_false (s : Option Slot) : s.map (·.mark false) = s := by
  cases s <;> simp

@[simp] theorem Slot.mark_current (s : Slot) (b : Bool) : (s.mark b).current = s.current := rfl

@[simp] theorem Slot.mark_stale (s : Slot) (b : Bool) : (s.mark b).stale = (s.stale || b) := rfl

theorem Slot.current_of_map_mark (s : Option Slot) (b : Bool) :
    (s.map (·.mark b)).bind (·.current) = s.bind (·.current) := by
  cases s <;> rfl

theorem Slot.fresh_of_map_mark {s : Option Slot} {b : Bool} {ix : Indexed}
    (h : s.map (·.mark b) = some ⟨some ix, false⟩) : s = some ⟨some ix, false⟩ := by
  obtain ⟨⟨current, stale⟩, rfl, hm⟩ := Option.map_eq_some_iff.1 h
  simp only [Slot.mark, Slot.mk.injEq, Bool.or_eq_false_iff] at hm
  rw [hm.1, hm.2.1]

namespace IndexCache

def pair? (c : IndexCache) (p : String) : Option Indexed := (c.slots.get? p).bind (·.current)

def Due (c : IndexCache) (p : String) : Prop := ∀ ix, c.slots.get? p ≠ some ⟨some ix, false⟩

theorem slots_empty (p : String) : empty.slots.get? p = none := rfl

theorem slots_putSlot (c : IndexCache) (p q : String) (s : Slot) :
    (c.putSlot p s).slots.get? q = if q = p then some s else c.slots.get? q :=
  Table.get?_insert _ _ _ _

theorem slots_invalidate (c : IndexCache) (p q : String) :
    (c.invalidate p).2.slots.get? q = (c.slots.get? q).map (·.mark (decide (q = p))) := by
  rw [invalidate]
  split
  · rename_i h
    by_cases hq : q = p
    · subst q; simp [h]
    · simp [hq]
  · rename_i s h
    rw [slots_putSlot]
    by_cases hq : q = p
    · subst q; simp [h, Slot.mark]
    · simp [hq]

theorem counts_invalidate (c : IndexCache) (p : String) :
    (c.invalidate p).2.counts = c.counts := by
  rw [invalidate]
  split <;> rfl

theorem slots_invalidateAll (c : IndexCache) (ps : List String) (q : String) :
    (c.invalidateAll ps).slots.get? q = (c.slots.get? q).map (·.mark (decide (q ∈ ps))) := by
  induction ps generalizing c with
  | nil => simp [invalidateAll]
  | cons p ps ih =>
    have h := ih (c.invalidate p).2
    rw [slots_invalidate] at h
    simp only [invalidateAll, List.foldl_cons] at h ⊢
    rw [h]
    cases hs : c.slots.get? q <;> simp [Slot.mark, Bool.or_assoc]

theorem counts_invalidateAll (c : IndexCache) (ps : List String) :
    (c.invalidateAll ps).counts = c.counts := by
  induction ps generalizing c with
  | nil => rfl
  | cons p ps ih => exact (ih _).trans (counts_invalidate c p)

theorem slots_remove (c : IndexCache) (p q : String) :
    (c.remove p).2.slots.get? q = if q = p then none else c.slots.get? q := by
  rw [remove]
  split
  · rename_i h
    by_cases hq : q = p
    · subst q; simp [h]
    · simp [hq]
  · exact Table.get?_erase _ _ _

theorem slots_clear (c : IndexCache) (q : String) : c.clear.slots.get? q = none := rfl

theorem counts_remove (c : IndexCache) (p : String) :
    (c.remove p).2.counts = { c.counts with
      indexedProjects := c.counts.indexedProjects - if (c.pair? p).isSome then 1 else 0 } := by
  rw [remove, pair?]
  cases c.slots.get? p with
  | none => rfl
  | some s =>
    simp only [CacheCounts.drop, Option.bind_some]
    split <;> rfl

theorem counts_dropAll (n : CacheCounts) (entries : List (String × Slot)) :
    entries.foldl (fun n e => CacheCounts.drop n e.2) n = { n with
      indexedProjects := n.indexedProjects - entries.countP fun e => e.2.current.isSome } := by
  induction entries generalizing n with
  | nil => rfl
  | cons e entries ih =>
    rw [List.foldl_cons, ih, List.countP_cons]
    simp only [CacheCounts.drop]
    split
    · simp only [CacheCounts.mk.injEq, and_self, and_true]
      omega
    · rfl

theorem counts_clear (c : IndexCache) :
    c.clear.counts = { c.counts with
      indexedProjects := c.counts.indexedProjects -
        c.slots.entries.countP fun e => e.2.current.isSome } := counts_dropAll _ _

theorem slot_eq (c : IndexCache) (p : String) :
    c.slot p = ⟨c.pair? p, ((c.slots.get? p).map (·.stale)).getD false⟩ := by
  rw [slot, pair?]
  cases c.slots.get? p <;> rfl

theorem slot_fresh_iff {c : IndexCache} {p : String} {ix : Indexed} :
    c.slot p = ⟨some ix, false⟩ ↔ c.slots.get? p = some ⟨some ix, false⟩ := by
  rw [slot]
  cases c.slots.get? p <;> simp

theorem slots_store (c : IndexCache) (p q : String) (ix : Indexed) :
    (c.store p ix).slots.get? q =
      if q = p then some { c.slot p with current := some ix } else c.slots.get? q :=
  Table.get?_insert _ _ _ _

theorem counts_store (c : IndexCache) (p : String) (ix : Indexed) :
    (c.store p ix).counts = { c.counts with
      indexedProjects := c.counts.indexedProjects +
        if (c.slot p).current.isSome then 0 else 1 } := by
  simp only [store]
  split <;> rfl

theorem slots_fail (c : IndexCache) (p q : String) :
    (c.fail p).slots.get? q =
      if q = p then (c.slot p).current.map fun ix => ⟨some ix, true⟩ else c.slots.get? q := by
  simp only [fail]
  cases hcur : (c.slot p).current with
  | none => exact Table.get?_erase _ _ _
  | some ix => exact slots_putSlot _ _ _ _

theorem counts_fail (c : IndexCache) (p : String) :
    (c.fail p).counts = { c.counts with failedBuilds := c.counts.failedBuilds + 1 } := by
  simp only [fail]
  split <;> rfl

def countBuild (c : IndexCache) : IndexCache :=
  { c with counts := { c.counts with builds := c.counts.builds + 1 } }

def nextPair (c : IndexCache) (x : Classpath × Index) : Indexed := ⟨c.counts.builds, x.1, x.2⟩

theorem build_eq (c : IndexCache) (host : Host) (p : String) :
    c.build host p = match host.index p with
      | .error e => (.error e, c.invalidateAll host.invalidates)
      | .ok x => (.ok (c.nextPair x), (c.invalidateAll host.invalidates).countBuild) := by
  rw [build, readRoots, Host.index]
  cases host.model.roots p with
  | error e => rfl
  | ok roots =>
    simp only
    cases Index.build host.files roots.classpath with
    | error e => rfl
    | ok index => simp only [nextPair, countBuild, counts_invalidateAll]

/-- The cache in which a build of `p` runs, once the model has been asked for the roots. -/
def duringBuild (c : IndexCache) (host : Host) (p : String) : IndexCache :=
  (c.putSlot p { c.slot p with stale := false }).invalidateAll host.invalidates

theorem slots_duringBuild (c : IndexCache) (host : Host) (p q : String) :
    (c.duringBuild host p).slots.get? q =
      if q = p then some ⟨c.pair? p, decide (p ∈ host.invalidates)⟩
      else (c.slots.get? q).map (·.mark (decide (q ∈ host.invalidates))) := by
  rw [duringBuild, slots_invalidateAll, slots_putSlot]
  by_cases hq : q = p
  · subst q
    simp [slot_eq, Slot.mark]
  · simp only [hq, if_false]

theorem counts_duringBuild (c : IndexCache) (host : Host) (p : String) :
    (c.duringBuild host p).counts = c.counts := counts_invalidateAll _ _

theorem slot_duringBuild (c : IndexCache) (host : Host) (p : String) :
    (c.duringBuild host p).slot p = ⟨c.pair? p, decide (p ∈ host.invalidates)⟩ := by
  rw [slot, slots_duringBuild, if_pos rfl, Option.getD_some]

theorem rebuild_eq (c : IndexCache) (host : Host) (p : String) :
    c.rebuild host p = match host.index p with
      | .error e => (.error e, (c.duringBuild host p).fail p)
      | .ok x =>
        (.ok (c.nextPair x), (c.duringBuild host p).countBuild.store p (c.nextPair x)) := by
  rw [rebuild]
  rw [build_eq]
  cases host.index p <;> rfl

/-- All that an index task can end in: its answer, the slots it leaves and the counts. -/
inductive Outcome (c : IndexCache) (a : Access) (p : String) :
    Except IndexUnavailable Indexed → IndexCache → Prop where
  | timeout : p ∈ a.held → Outcome c a p (.error (.timeout p a.timeout)) c
  | hit {ix} : p ∉ a.held → c.slots.get? p = some ⟨some ix, false⟩ →
      Outcome c a p (.ok ix) c.countHit
  | built {x d} : p ∉ a.held → c.Due p → a.host.index p = .ok x →
      (∀ q, d.slots.get? q =
        if q = p then some ⟨some (c.nextPair x), decide (p ∈ a.host.invalidates)⟩
        else (c.slots.get? q).map (·.mark (decide (q ∈ a.host.invalidates)))) →
      d.counts = { c.counts with
        builds := c.counts.builds + 1
        indexedProjects := c.counts.indexedProjects + if (c.pair? p).isSome then 0 else 1 } →
      Outcome c a p (.ok (c.nextPair x)) d
  | failed {e d} : p ∉ a.held → c.Due p → a.host.index p = .error e →
      (∀ q, d.slots.get? q =
        if q = p then (c.pair? p).map fun ix => ⟨some ix, true⟩
        else (c.slots.get? q).map (·.mark (decide (q ∈ a.host.invalidates)))) →
      d.counts = { c.counts with failedBuilds := c.counts.failedBuilds + 1 } →
      Outcome c a p (.error e) d

theorem rebuild_outcome {c : IndexCache} {a : Access} {p : String} (hfree : p ∉ a.held)
    (hdue : c.Due p) : Outcome c a p (c.rebuild a.host p).1 (c.rebuild a.host p).2 := by
  rw [rebuild_eq]
  have hs := slots_duringBuild c a.host p
  have hp := slot_duringBuild c a.host p
  have hc := counts_duringBuild c a.host p
  cases hx : a.host.index p with
  | error e =>
    refine .failed hfree hdue hx (fun q => ?_) ?_
    · rw [slots_fail, hp, hs]
      split <;> rfl
    · rw [counts_fail, hc]
  | ok x =>
    have hb : (c.duringBuild a.host p).countBuild.slot p =
        ⟨c.pair? p, decide (p ∈ a.host.invalidates)⟩ := hp
    refine .built hfree hdue hx (fun q => ?_) ?_
    · rw [slots_store, hb]
      split
      · rfl
      · rename_i hq
        exact (hs q).trans (if_neg hq)
    · rw [counts_store, hb, countBuild, hc]

theorem task_outcome (c : IndexCache) (a : Access) (p : String) :
    Outcome c a p (c.task a p).1 (c.task a p).2 := by
  rw [task]
  split
  · rename_i h
    exact .timeout (by simpa using h)
  · rename_i h
    have hfree : p ∉ a.held := by simpa using h
    rw [current]
    split
    · rename_i ix hs
      exact .hit hfree (slot_fresh_iff.1 hs)
    · rename_i hs
      exact rebuild_outcome hfree fun ix h => hs ix (slot_fresh_iff.2 h)

theorem slot_after_task {c : IndexCache} {a : Access} {p q : String}
    (h : (c.task a p).2.slots.get? q ≠ none) : q = p ∨ c.slots.get? q ≠ none := by
  have ho := task_outcome c a p
  generalize c.task a p = r at ho h
  obtain ⟨answer, d⟩ := r
  dsimp only at ho h
  by_cases hq : q = p
  · exact Or.inl hq
  · cases ho with
    | timeout => exact Or.inr h
    | hit => exact Or.inr h
    | built _ _ _ hs => rw [hs, if_neg hq] at h; exact Or.inr (by simpa using h)
    | failed _ _ _ hs => rw [hs, if_neg hq] at h; exact Or.inr (by simpa using h)

/-- A task on another project makes no slot and changes no pair; the model may raise the mark. -/
theorem slot_task_elsewhere (c : IndexCache) (a : Access) {p q : String} (hq : q ≠ p) :
    ∃ raised, (c.task a p).2.slots.get? q = (c.slots.get? q).map (·.mark raised) := by
  have ho := task_outcome c a p
  generalize c.task a p = r at ho ⊢
  obtain ⟨answer, d⟩ := r
  dsimp only at ho ⊢
  cases ho with
  | timeout | hit => exact ⟨false, (Slot.map_mark_false _).symm⟩
  | built _ _ _ hs | failed _ _ _ hs => exact ⟨_, (hs q).trans (if_neg hq)⟩

theorem task_of_fresh {c : IndexCache} {a : Access} {p : String} {ix : Indexed}
    (hfree : p ∉ a.held) (hs : c.slots.get? p = some ⟨some ix, false⟩) :
    c.task a p = (.ok ix, c.countHit) := by
  have hh : a.held.contains p = false := by simpa using hfree
  simp only [task, hh, Bool.false_eq_true, if_false, current, slot_fresh_iff.2 hs]

end IndexCache

end ClasspathSymbols
