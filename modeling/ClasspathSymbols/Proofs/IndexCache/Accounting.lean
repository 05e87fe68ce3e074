import ClasspathSymbols.Proofs.IndexCache.History
import ClasspathSymbols.Proofs.Session.Moments

/-! # Accounting of index tasks

Every index task is charged to one count: a hit or a build if it succeeds, a failed build if the
roots or the index of its own project are not to be had, and none if it times out. Nothing else
changes these counts, so at every moment they add up to the tasks that did not time out. -/
namespace ClasspathSymbols

def CacheCounts.charges (n : CacheCounts) : Nat × Nat × Nat := (n.hits, n.builds, n.failedBuilds)

def CacheCounts.total (n : CacheCounts) : Nat := n.hits + n.builds + n.failedBuilds

theorem CacheCounts.total_of_charges {n m : CacheCounts} (h : m.charges = n.charges) :
    m.total = n.total := by
  simp only [charges, Prod.mk.injEq] at h
  rw [total, total, h.1, h.2.1, h.2.2]

namespace IndexCache

/-- What a task on a project answers, and which count it raises by one. -/
inductive Charged (p : String) (waited : Nat) (n m : CacheCounts) :
    Except IndexUnavailable Indexed → Prop where
  | hit (ix) : m.charges = (n.hits + 1, n.builds, n.failedBuilds) → Charged p waited n m (.ok ix)
  | build (ix) : m.charges = (n.hits, n.builds + 1, n.failedBuilds) → Charged p waited n m (.ok ix)
  | noRoots (e) : m.charges = (n.hits, n.builds, n.failedBuilds + 1) →
      Charged p waited n m (.error (.roots p e))
  | noIndex (e) : m.charges = (n.hits, n.builds, n.failedBuilds + 1) →
      Charged p waited n m (.error (.build p e))
  | timeout : m.charges = n.charges → Charged p waited n m (.error (.timeout p waited))

theorem charged_task (c : IndexCache) (a : Access) (p : String) :
    Charged p a.timeout c.counts (c.task a p).2.counts (c.task a p).1 := by
  have ho := task_outcome c a p
  generalize c.task a p = r at ho
  obtain ⟨answer, d⟩ := r
  cases ho with
  | timeout => exact .timeout rfl
  | hit => exact .hit _ rfl
  | built _ _ _ _ hc => exact .build _ (congrArg CacheCounts.charges hc)
  | failed _ _ hx _ hc =>
    have hd := congrArg CacheCounts.charges hc
    rcases Host.index_error hx with ⟨r, rfl⟩ | ⟨b, rfl⟩
    · exact .noRoots r hd
    · exact .noIndex b hd

def Op.Charged (c : IndexCache) : Op → Prop
  | .task a p => IndexCache.Charged p a.timeout c.counts (c.task a p).2.counts (c.task a p).1
  | op => (c.apply op).counts.charges = c.counts.charges

theorem charged_apply (c : IndexCache) (op : Op) : op.Charged c := by
  cases op with
  | task a p => exact charged_task c a p
  | invalidate p => exact congrArg CacheCounts.charges (counts_invalidate c p)
  | remove p =>
    have h := congrArg CacheCounts.charges (counts_remove c p)
    exact h
  | clear =>
    have h := congrArg CacheCounts.charges (counts_clear c)
    exact h

theorem charges_afterOps {c : IndexCache} {ops : List Op} (h : ∀ a p, .task a p ∉ ops) :
    (c.afterOps ops).counts.charges = c.counts.charges := by
  induction ops generalizing c with
  | nil => rfl
  | cons op ops ih =>
    have hop := charged_apply c op
    have hrest := @ih (c.apply op) fun a p hp => h a p (List.mem_cons_of_mem op hp)
    cases op with
    | task a p => exact absurd List.mem_cons_self (h a p)
    | invalidate | remove | clear => exact hrest.trans hop

def taskAnswers (c : IndexCache) : List Op → List (Except IndexUnavailable Indexed)
  | [] => []
  | .task a p :: ops => (c.task a p).1 :: taskAnswers (c.task a p).2 ops
  | op :: ops => taskAnswers (c.apply op) ops

def inTime : Except IndexUnavailable Indexed → Bool
  | .error (.timeout ..) => false
  | _ => true

theorem Charged.total {p : String} {waited : Nat} {n m : CacheCounts}
    {r : Except IndexUnavailable Indexed} (h : Charged p waited n m r) :
    m.total = n.total + if inTime r then 1 else 0 := by
  cases h with
  | hit _ hm | build _ hm | noRoots _ hm | noIndex _ hm =>
    simp only [CacheCounts.charges, Prod.mk.injEq] at hm
    simp only [CacheCounts.total, inTime, if_true]
    omega
  | timeout hm => exact CacheCounts.total_of_charges hm

theorem total_afterOps (c : IndexCache) (ops : List Op) :
    (c.afterOps ops).counts.total = c.counts.total + (taskAnswers c ops).countP inTime := by
  induction ops generalizing c with
  | nil => rfl
  | cons op ops ih =>
    have hop := charged_apply c op
    rw [afterOps_cons, ih]
    cases op with
    | task a p =>
      have htotal : (c.apply (.task a p)).counts.total = _ := hop.total
      rw [htotal, taskAnswers, List.countP_cons, apply]
      omega
    | invalidate | remove | clear =>
      rw [CacheCounts.total_of_charges hop]
      rfl

def Happening.serial? : Happening → Option Nat
  | .built _ n _ => some n
  | _ => none

def Recorder.made (r : Recorder) : List Nat := r.past.filterMap Happening.serial?

theorem made_append (c : IndexCache) (past more : List Happening) :
    (Recorder.mk c (past ++ more)).made =
      (Recorder.mk c past).made ++ more.filterMap Happening.serial? := List.filterMap_append

theorem serials_invalidated (ps : List String) :
    (ps.map Happening.invalidated).filterMap Happening.serial? = [] := by
  rw [List.filterMap_eq_nil_iff]
  simp [Happening.serial?]

theorem serials_buildRecord (r : Recorder) (host : Host) (p : String) :
    (r.buildRecord host p).filterMap Happening.serial? = match host.index p with
      | .ok _ => [r.cache.counts.builds]
      | .error _ => [] := by
  rw [Recorder.buildRecord, List.cons_append, List.filterMap_cons_none rfl, List.filterMap_append,
    serials_invalidated, List.nil_append]
  cases host.index p <;> rfl

theorem made_task {r : Recorder} (h : r.made = List.range r.cache.counts.builds) (a : Access)
    (p : String) : (r.task a p).2.made = List.range (r.task a p).2.cache.counts.builds := by
  have ho := task_outcome r.cache a p
  rw [Recorder.task_eq]
  generalize r.cache.task a p = x at ho
  obtain ⟨answer, d⟩ := x
  rw [Recorder.made] at h
  rw [made_append, Recorder.made, h]
  dsimp only at ho ⊢
  cases ho with
  | timeout hheld => simp [Recorder.taskRecord, hheld]
  | hit _ hs =>
    rw [Recorder.taskRecord_of_hit hs, List.filterMap_nil, List.append_nil]
    rfl
  | built hfree hdue hx _ hc =>
    rw [Recorder.taskRecord_of_due hfree hdue, serials_buildRecord, hx]
    rw [hc, List.range_succ]
  | failed hfree hdue hx _ hc =>
    rw [Recorder.taskRecord_of_due hfree hdue, serials_buildRecord, hx]
    rw [hc, List.append_nil]

/-- The pairs are numbered in the order in which they are made, and none is left out. -/
theorem made_after (ops : List Op) :
    (Recorder.after ops).made = List.range (Recorder.after ops).cache.counts.builds := by
  induction ops using List.reverseRecOn with
  | nil => rfl
  | append_singleton ops op ih =>
    rw [Recorder.after_snoc]
    cases op with
    | task a p => exact made_task ih a p
    | invalidate p =>
      have hc := counts_invalidate (Recorder.after ops).cache p
      have hsame :=
        made_append (Recorder.after ops).cache (Recorder.after ops).past [.invalidated p]
      rw [List.filterMap_cons_none rfl, List.filterMap_nil, List.append_nil] at hsame
      simp only [Recorder.apply, Recorder.invalidate, hc]
      exact hsame.trans ih
    | remove p =>
      have hc : ((Recorder.after ops).cache.remove p).2.counts.builds = _ :=
        congrArg (·.builds) (counts_remove (Recorder.after ops).cache p)
      simp only [Recorder.apply, hc]
      exact ih
    | clear =>
      have hc : (Recorder.after ops).cache.clear.counts.builds = _ :=
        congrArg (·.builds) (counts_clear (Recorder.after ops).cache)
      simp only [Recorder.apply, hc]
      exact ih

end IndexCache

namespace Session

open IndexCache

/-- The operations so far, and what the counts say of them. -/
structure Balanced (m : Moment) (ops : List Op) : Prop where
  ran : m.session.cache = IndexCache.empty.afterOps ops
  charged : Throughout (fun c op => op.Charged c) .empty ops
  tasks : m.session.cache.counts.total = (taskAnswers .empty ops).countP inTime
  /-- The pairs that were ever made bear the numbers below the count of builds, each once. -/
  pairs : (Recorder.after ops).made = List.range m.session.cache.counts.builds
  others : ∀ t, t.runsTasks = false →
    (run m.held m.session t).2.cache.counts.charges = m.session.cache.counts.charges

/-- Wherever a session is looked at, every operation so far was charged as it should be, the counts
add up to the tasks that did not time out, and the builds are the pairs that were ever made. -/
theorem index_tasks_are_accounted (fs : Files) (w : Workspace) (timeout : Nat) (steps : List Step)
    {ops : List Op} {m : Moment} (hm : Moment.Reaches ⟨[], start fs w timeout, steps⟩ ops m) :
    Balanced m ops := by
  have hcache : m.session.cache = IndexCache.empty.afterOps ops := hm.cache
  constructor
  · exact hcache
  · exact throughout_of_forall charged_apply _ _
  · rw [hcache, total_afterOps]
    exact Nat.zero_add _
  · rw [made_after, Recorder.after_cache, hcache]
  · intro t ht
    rw [cache_run]
    exact charges_afterOps (no_task_of_runsTasks ht m.held m.session)

/-- A project that is unknown at first is set up and held, and two owners are looked for. -/
def accountedSteps : List Step :=
  [.get "app", .setWorkspace ⟨[⟨"app", true, ⟨[], [], []⟩⟩]⟩,
    .nested "app"
      [.get "app", .deprecatedInOwner ⟨"a.B", .type⟩ ["app"], .owner ⟨"a", .package⟩ []]]

theorem index_tasks_are_accounted_inside :
    ∃ ops m, Moment.Reaches ⟨[], start (.emptyAt []) ⟨[]⟩ 20, accountedSteps⟩ ops m ∧
      m.held = ["app"] ∧ m.left = [.owner ⟨"a", .package⟩ []] ∧ Balanced m ops := by
  have hreached : ∃ ops m, Moment.Reaches ⟨[], start (.emptyAt []) ⟨[]⟩ 20, accountedSteps⟩ ops m ∧
      m.held = ["app"] ∧ m.left = [.owner ⟨"a", .package⟩ []] :=
    ⟨_, _, .later (.later (.inside rfl (.later (.later (.now _))))), rfl, rfl⟩
  obtain ⟨ops, m, hm, hheld, hleft⟩ := hreached
  exact ⟨ops, m, hm, hheld, hleft, index_tasks_are_accounted _ _ _ _ hm⟩

end Session

end ClasspathSymbols
