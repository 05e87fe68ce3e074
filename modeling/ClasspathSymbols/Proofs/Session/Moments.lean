import ClasspathSymbols.Proofs.IndexCache.Run

/-! # Moments of a session

Between any two steps a session can be observed, also between the inner steps of a nested task
while projects are held. A moment is what can be observed there. It is reached by operations on the
cache, and by no others than those. -/
namespace ClasspathSymbols
namespace Session

open IndexCache

structure Moment where
  held : List String
  session : Session
  /-- The steps still to be run, up to the end of the innermost task. -/
  left : List Step

namespace Moment

def access (m : Moment) : IndexCache.Access := m.session.access m.held

/-- The second moment comes after the first one or inside one of its steps, and the operations lie
between them. -/
inductive Reaches : Moment → List Op → Moment → Prop where
  | now (m) : Reaches m [] m
  | later {held s t rest ops m} : Reaches ⟨held, (run held s t).2, rest⟩ ops m →
      Reaches ⟨held, s, t :: rest⟩ (operations held s t ++ ops) m
  | inside {held s p ix c steps rest ops m} : s.cache.task (s.access held) p = (.ok ix, c) →
      Reaches ⟨p :: held, s.withCache c, steps⟩ ops m →
      Reaches ⟨held, s, .nested p steps :: rest⟩ (.task (s.access held) p :: ops) m

theorem Reaches.cache {m n : Moment} {ops : List Op} (h : Reaches m ops n) :
    n.session.cache = m.session.cache.afterOps ops := by
  induction h with
  | now => rfl
  | @later held s t rest ops m _ ih =>
    rw [ih, afterOps_append, ← cache_run]
  | inside htask _ ih =>
    rw [ih, afterOps_cons, apply, htask]
    rfl

theorem Reaches.held {m n : Moment} {ops : List Op} (h : Reaches m ops n) : m.held ⊆ n.held := by
  induction h with
  | now => exact List.Subset.refl _
  | later _ ih => exact ih
  | inside _ _ ih => exact List.Subset.trans (List.subset_cons_self _ _) ih

end Moment

mutual

theorem timeout_run (held : List String) (s : Session) (t : Step) :
    (run held s t).2.timeout = s.timeout := by
  cases t with
  | delete file =>
    simp only [run, delete]
    split <;> rfl
  | guestFiles p extensions =>
    simp only [run, guestFiles]
    split <;> rfl
  | nested p steps =>
    rw [run]
    split
    · rfl
    · exact timeout_runAll (p :: held) _ steps
  | _ => rfl

theorem timeout_runAll (held : List String) (s : Session) (steps : List Step) :
    (runAll held s steps).2.timeout = s.timeout := by
  cases steps with
  | nil => rfl
  | cons t steps =>
    rw [runAll]
    exact (timeout_runAll held (run held s t).2 steps).trans (timeout_run held s t)

end

theorem Moment.Reaches.timeout {m n : Moment} {ops : List Op} (h : Reaches m ops n) :
    n.session.timeout = m.session.timeout := by
  induction h with
  | now => rfl
  | later _ ih => exact ih.trans (timeout_run ..)
  | inside _ _ ih => exact ih

end Session

end ClasspathSymbols
