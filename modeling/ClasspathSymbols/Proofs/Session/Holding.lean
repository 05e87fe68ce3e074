import ClasspathSymbols.Proofs.IndexCache.Waiting
import ClasspathSymbols.Proofs.Session.Frame
import ClasspathSymbols.Proofs.Session.Moments

/-! # Held projects

A nested task holds its project while its inner steps run. A project that is held keeps its pair, so
an inner task that asks for it finds its slot, waits in vain and leaves everything as it was. As
long as the inner steps ask for no project that is held, they might as well run after the task. -/
namespace ClasspathSymbols

def Step.project? : Step → Option String
  | .get p | .query p _ | .declares p _ | .nested p _ => some p
  | _ => none

namespace Session

open IndexCache

mutual

/-- The step waits for no lock that is held around it. To remove a project, or all, is to wait for
its lock as long as it takes. -/
def Proceeds (held : List String) (s : Session) : Step → Prop
  | .remove p => p ∉ held
  | .clear => held = []
  | .nested p steps =>
    match s.cache.task (s.access held) p with
    | (.error _, _) => True
    | (.ok _, c) => ProceedsAll (p :: held) (s.withCache c) steps
  | _ => True

def ProceedsAll (held : List String) (s : Session) : List Step → Prop
  | [] => True
  | t :: rest => Proceeds held s t ∧ ProceedsAll held (run held s t).2 rest

end

mutual

theorem operations_keep {held : List String} {s : Session} {t : Step} (h : Proceeds held s t)
    {q : String} (hq : q ∈ held) : ∀ op ∈ operations held s t, op.Keeps q := by
  cases t with
  | write | delete | setWorkspace | breakRoots | fixRoots | onRoots | timeout =>
    exact List.forall_mem_nil _
  | get | query | declares | invalidate =>
    rw [operations, List.forall_mem_singleton]
    trivial
  | remove p =>
    rw [operations, List.forall_mem_singleton]
    rintro rfl
    exact h hq
  | clear =>
    rw [Proceeds] at h
    rw [h] at hq
    cases hq
  | owner sym ps => exact keeps_of_tasks (ownerOps_tasks _ _ _ _) q
  | ownerAmongOpen sym => exact keeps_of_tasks (ownerOps_tasks _ _ _ _) q
  | deprecatedInOwner sym ps => exact keeps_of_tasks (deprecatedInOwnerOps_tasks _ _ _ _) q
  | guestFiles p extensions =>
    rw [operations]
    split
    · simp [Op.Keeps]
    · exact List.forall_mem_nil _
  | nested p steps =>
    rw [operations, List.forall_mem_cons]
    refine ⟨trivial, ?_⟩
    rw [Proceeds] at h
    rcases htask : s.cache.task (s.access held) p with ⟨e | ix, c⟩
    · exact List.forall_mem_nil _
    · rw [htask] at h
      exact operationsAll_keep h (List.mem_cons_of_mem p hq)

theorem operationsAll_keep {held : List String} {s : Session} {steps : List Step}
    (h : ProceedsAll held s steps) {q : String} (hq : q ∈ held) :
    ∀ op ∈ operationsAll held s steps, op.Keeps q := by
  cases steps with
  | nil => exact List.forall_mem_nil _
  | cons t steps =>
    rw [operationsAll, List.forall_mem_append]
    rw [ProceedsAll] at h
    exact ⟨operations_keep h.1 hq, operationsAll_keep h.2 hq⟩

end

theorem paired_run {held : List String} {s : Session} {t : Step} (hpair : s.cache.Paired held)
    (hgo : Proceeds held s t) : (run held s t).2.cache.Paired held := by
  intro q hq
  rw [cache_run]
  exact pair_afterOps (hpair q hq) (operations_keep hgo hq)

theorem proceedsAll_of_task_ok {held : List String} {s : Session} {c : IndexCache} {p : String}
    {ix : Indexed} {steps : List Step} (hgo : Proceeds held s (.nested p steps))
    (h : s.cache.task (s.access held) p = (.ok ix, c)) :
    ProceedsAll (p :: held) (s.withCache c) steps := by
  rw [Proceeds, h] at hgo
  exact hgo

/-- What is held has pairs, and the steps to come wait for none of the locks. -/
structure Moment.Steady (m : Moment) : Prop where
  paired : m.session.cache.Paired m.held
  proceeds : ProceedsAll m.held m.session m.left

theorem Moment.Reaches.steady {m n : Moment} {ops : List Op} (h : Reaches m ops n)
    (hm : m.Steady) : n.Steady := by
  induction h with
  | now => exact hm
  | later _ ih => exact ih ⟨paired_run hm.paired hm.proceeds.1, hm.proceeds.2⟩
  | inside htask _ ih =>
    exact ih ⟨paired_of_task_ok hm.paired htask, proceedsAll_of_task_ok hm.proceeds.1 htask⟩

mutual

theorem guarded_operations {held : List String} {s : Session} {t : Step}
    (hpair : s.cache.Paired held) (hgo : Proceeds held s t) :
    Throughout (Op.Guarded held s.timeout) s.cache (operations held s t) := by
  cases t with
  | write | delete | setWorkspace | breakRoots | fixRoots | onRoots | timeout => trivial
  | get p | query p q | declares p q =>
    exact throughout_guarded (a := s.access held) hpair fun op hop => ⟨p, List.mem_singleton.1 hop⟩
  | invalidate | remove | clear | guestFiles =>
    exact throughout_guarded_of_none (no_task_of_runsTasks rfl held s)
  | owner sym ps => exact throughout_guarded (a := s.access held) hpair (ownerOps_tasks _ _ _ _)
  | ownerAmongOpen sym =>
    exact throughout_guarded (a := s.access held) hpair (ownerOps_tasks _ _ _ _)
  | deprecatedInOwner sym ps =>
    exact throughout_guarded (a := s.access held) hpair (deprecatedInOwnerOps_tasks _ _ _ _)
  | nested p steps =>
    rw [operations]
    constructor
    · rintro a q ⟨⟩
      exact ⟨List.Subset.refl _, rfl, guarded_of_pair (hpair p)⟩
    · rw [apply]
      rcases htask : s.cache.task (s.access held) p with ⟨e | ix, c⟩
      · trivial
      -- the task has just made or found the pair of its project, so all that is held has one
      · have hinner := guarded_operationsAll (s := s.withCache c)
          (paired_of_task_ok hpair htask) (proceedsAll_of_task_ok hgo htask)
        exact throughout_guarded_of_cons hinner

theorem guarded_operationsAll {held : List String} {s : Session} {steps : List Step}
    (hpair : s.cache.Paired held) (hgo : ProceedsAll held s steps) :
    Throughout (Op.Guarded held s.timeout) s.cache (operationsAll held s steps) := by
  cases steps with
  | nil => trivial
  | cons t steps =>
    rw [operationsAll, throughout_append, ← cache_run, ← timeout_run held s t]
    have hrest := guarded_operationsAll (paired_run hpair hgo.1) hgo.2
    rw [timeout_run] at hrest ⊢
    exact ⟨guarded_operations hpair hgo.1, hrest⟩

end

theorem run_of_held {held : List String} {s : Session} {t : Step} {p : String}
    (ht : t.project? = some p) (hheld : p ∈ held) :
    run held s t = (.unavailable (.timeout p s.timeout), s) := by
  have hbusy : s.cache.task (s.access held) p = (.error (.timeout p s.timeout), s.cache) :=
    task_of_held hheld
  cases t with
  | get q =>
    cases ht
    rw [run, hbusy]
    rfl
  | query q x =>
    cases ht
    rw [run, ask, hbusy]
    rfl
  | declares q sym =>
    cases ht
    rw [run, ask, hbusy]
    rfl
  | nested q steps =>
    cases ht
    rw [run, hbusy]
    rfl
  | _ => cases ht

theorem answerOf_ne {α : Type} {encode : α → Answer} {e : IndexUnavailable}
    (hencode : ∀ x, encode x ≠ .unavailable e) {r : Except IndexUnavailable α}
    (hr : r ≠ .error e) : answerOf encode r ≠ .unavailable e := by
  cases r with
  | ok x => exact hencode x
  | error d =>
    rintro ⟨⟩
    exact hr rfl

theorem answer_of_free {held : List String} {s : Session} {t : Step} {p : String}
    (ht : t.project? = some p) (hfree : p ∉ held) (q : String) (n : Nat) :
    (run held s t).1 ≠ .unavailable (.timeout q n) := by
  have hno : (s.cache.task (s.access held) p).1 ≠ .error (.timeout q n) :=
    not_timeout_of_free hfree q n
  have hask : ∀ {α : Type} (f : Index → α),
      (s.cache.ask (s.access held) p f).1 ≠ .error (.timeout q n) :=
    fun f => ask_not_timeout_of_free hfree f q n
  cases t with
  | get r =>
    cases ht
    exact answerOf_ne (by intro x he; cases he) hno
  | query r x =>
    cases ht
    exact answerOf_ne (by intro x he; cases he) (hask _)
  | declares r sym =>
    cases ht
    exact answerOf_ne (by intro x he; cases he) (hask _)
  | nested r steps =>
    cases ht
    intro he
    rw [run] at he
    rcases hr : s.cache.task (s.access held) p with ⟨e | ix, c⟩
    · rw [hr] at he hno
      cases he
      exact hno rfl
    · rw [hr] at he
      cases he
  | _ => cases ht

/-- At this moment the projects `outer` are held, an index task on a project that is held waits in
vain and changes nothing, and none on another project waits, however short the time. -/
structure Moment.Shelters (m : Moment) (outer : List String) (timeout : Nat) : Prop where
  held : outer ⊆ m.held
  busy : ∀ t q, t.project? = some q → q ∈ m.held →
    run m.held m.session t = (.unavailable (.timeout q timeout), m.session)
  free : ∀ t q, t.project? = some q → q ∉ m.held →
    ∀ r n, (run m.held m.session t).1 ≠ .unavailable (.timeout r n)

theorem shelters_inside {m n : Moment} {ops : List Op} (h : m.Reaches ops n) :
    n.Shelters m.held m.session.timeout where
  held := h.held
  busy := by
    intro t q ht hq
    rw [run_of_held ht hq, h.timeout]
  free := fun _ _ => answer_of_free

def entered (held : List String) (s : Session) (p : String) : Session := (run held s (.get p)).2

/-- What a nested task on an available index promises. -/
structure Sheltered (held : List String) (s : Session) (p : String) (ix : Indexed)
    (steps : List Step) : Prop where
  /-- All inner tasks, also those that look for an owner, wait for held projects and no others. -/
  tasks : Throughout (Op.Guarded (p :: held) s.timeout) (entered held s p).cache
    (operationsAll (p :: held) (entered held s p) steps)
  inside : ∀ ops m, Moment.Reaches ⟨p :: held, entered held s p, steps⟩ ops m →
    m.Shelters (p :: held) s.timeout
  /-- Where no inner task is on a held project, the steps may as well run on their own. -/
  flat : Spares (p :: held) (operationsAll (p :: held) (entered held s p) steps) →
    ∃ answers last,
      run held s (.nested p steps) = (.nested answers, last) ∧
      runAll [] s (.get p :: steps) =
        ((.indexed ix, (entered held s p).cache.counts) :: answers, last)
  released : ∀ t, t.project? = some p → ∀ q n,
    (run held (run held s (.nested p steps)).2 t).1 ≠ .unavailable (.timeout q n)

theorem entered_eq {held : List String} {s : Session} {p : String}
    {r : Except IndexUnavailable Indexed} {c : IndexCache}
    (h : s.cache.task (s.access held) p = (r, c)) :
    entered held s p = s.withCache c := by
  rw [entered, run, h]
  rfl

theorem run_nested_of_ok {held : List String} {s : Session} {p : String} {ix : Indexed}
    {c : IndexCache} (h : s.cache.task (s.access held) p = (.ok ix, c)) (steps : List Step) :
    run held s (.nested p steps) =
      (.nested (runAll (p :: held) (entered held s p) steps).1,
        (runAll (p :: held) (entered held s p) steps).2) := by
  rw [entered_eq h, run, h]

theorem flat_of_spares {held : List String} {s : Session} {p : String} {ix : Indexed}
    {c : IndexCache} (h : s.cache.task (s.access held) p = (.ok ix, c)) {steps : List Step}
    (hspares : Spares (p :: held) (operationsAll (p :: held) (entered held s p) steps)) :
    runAll [] s (.get p :: steps) =
      ((.indexed ix, (entered held s p).cache.counts) ::
        (runAll (p :: held) (entered held s p) steps).1,
        (runAll (p :: held) (entered held s p) steps).2) := by
  have hfree : p ∉ held := free_of_task_ok h
  have hget : run [] s (.get p) = (.indexed ix, entered held s p) := by
    have hsame := task_within s.cache (s.access []) hfree
    rw [← access_append, List.nil_append, h] at hsame
    rw [entered_eq h, run, ← hsame]
    rfl
  have hinner := @runAll_within (p :: held) [] _ _ hspares
  rw [List.nil_append] at hinner
  rw [runAll, hget, hinner]

/-- Wherever a session comes to a nested task on an available index, the inner steps wait for the
projects that are held and for no others; if they ask for none of these, they might as well run
after the task; and in the end the project is free. -/
theorem nested_task_is_sheltered {s : Session} {all : List Step} (hgo : ProceedsAll [] s all)
    {ops : List Op} {held : List String} {here : Session} {p : String} {steps rest : List Step}
    (hhere : Moment.Reaches ⟨[], s, all⟩ ops ⟨held, here, .nested p steps :: rest⟩)
    {ix : Indexed} (hok : (here.cache.task (here.access held) p).1 = .ok ix) :
    Sheltered held here p ix steps := by
  -- at the top nothing is held, so the invariant starts without a premise on the cache
  have hsteady := hhere.steady ⟨nofun, hgo⟩
  obtain ⟨c, htask⟩ : ∃ c, here.cache.task (here.access held) p = (.ok ix, c) :=
    ⟨_, Prod.ext hok rfl⟩
  have hpair := paired_of_task_ok hsteady.paired htask
  have hinner := proceedsAll_of_task_ok hsteady.proceeds.1 htask
  have htimeout : (entered held here p).timeout = here.timeout := timeout_run _ _ _
  constructor
  · rw [entered_eq htask]
    exact guarded_operationsAll (s := here.withCache c) hpair hinner
  · intro ops m hm
    rw [← htimeout]
    exact shelters_inside hm
  · intro hspares
    exact ⟨_, _, run_nested_of_ok htask steps, flat_of_spares htask hspares⟩
  · intro t ht
    exact answer_of_free ht (free_of_task_ok htask)

def twoProjects : Workspace := ⟨[⟨"app", true, ⟨[], [], []⟩⟩, ⟨"lib", true, ⟨[], [], []⟩⟩]⟩

/-- One of the projects that these steps ask for is held around them, and one has no index. -/
def tangledSteps : List Step := [.invalidate "app", .get "app", .query "web" (.package "a")]

theorem nested_library_is_sheltered :
    ∃ ops here ix,
      ProceedsAll [] (start (.emptyAt []) twoProjects 0)
        [.nested "app" [.invalidate "lib", .nested "lib" tangledSteps]] ∧
      Moment.Reaches ⟨[], start (.emptyAt []) twoProjects 0,
          [.nested "app" [.invalidate "lib", .nested "lib" tangledSteps]]⟩ ops
        ⟨["app"], here, [.nested "lib" tangledSteps]⟩ ∧
      (here.cache.task (here.access ["app"]) "lib").1 = .ok ix ∧
      Sheltered ["app"] here "lib" ix tangledSteps := by
  have hgo : ProceedsAll [] (start (.emptyAt []) twoProjects 0)
      [.nested "app" [.invalidate "lib", .nested "lib" tangledSteps]] :=
    ⟨⟨trivial, ⟨trivial, trivial, trivial, trivial⟩, trivial⟩, trivial⟩
  refine ⟨_, _, _, hgo, .inside rfl (.later (.now _)), rfl, ?_⟩
  exact nested_task_is_sheltered hgo (.inside rfl (.later (.now _))) rfl

end Session

end ClasspathSymbols
