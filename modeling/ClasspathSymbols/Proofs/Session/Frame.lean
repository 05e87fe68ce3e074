import ClasspathSymbols.Proofs.IndexCache.Run

/-! # Projects held around a run

Which projects are held around a run matters only to the tasks on these projects. A run that has no
such task gives the same answers, and leaves the same session, as where they are free. -/
namespace ClasspathSymbols

namespace IndexCache

def Access.within (a : Access) (outer : List String) : Access := { a with held := a.held ++ outer }

def Spares (outer : List String) (ops : List Op) : Prop := ∀ a p, .task a p ∈ ops → p ∉ outer

theorem Spares.head {outer : List String} {a : Access} {p : String} {ops : List Op}
    (h : Spares outer (.task a p :: ops)) : p ∉ outer := h a p List.mem_cons_self

theorem Spares.tail {outer : List String} {op : Op} {ops : List Op}
    (h : Spares outer (op :: ops)) : Spares outer ops :=
  fun a p hp => h a p (List.mem_cons_of_mem op hp)

theorem Spares.left {outer : List String} {ops more : List Op} (h : Spares outer (ops ++ more)) :
    Spares outer ops := fun a p hp => h a p (List.mem_append_left more hp)

theorem Spares.right {outer : List String} {ops more : List Op} (h : Spares outer (ops ++ more)) :
    Spares outer more := fun a p hp => h a p (List.mem_append_right ops hp)

variable {outer : List String}

theorem task_within (c : IndexCache) (a : Access) {p : String} (hp : p ∉ outer) :
    c.task (a.within outer) p = c.task a p := by
  have hheld : (a.within outer).held.contains p = a.held.contains p := by
    simp [Access.within, hp]
  rw [task, task, hheld]
  rfl

theorem ask_within {α : Type} (c : IndexCache) (a : Access) {p : String} (f : Index → α)
    (hp : p ∉ outer) : c.ask (a.within outer) p f = c.ask a p f := by
  rw [ask, ask, task_within c a hp]

theorem search_within {a : Access} {s : Symbol} {c : IndexCache} {ps : List String}
    (failure : Option IndexUnavailable) (h : Spares outer (searchOps (a.within outer) s c ps)) :
    search (a.within outer) s c failure ps = search a s c failure ps := by
  induction ps generalizing c failure with
  | nil => rfl
  | cons p ps ih =>
    rw [searchOps] at h
    have hrest := h.tail
    rw [ask_within c a _ h.head] at hrest
    rw [search, search, ask_within c a _ h.head]
    rcases hask : c.ask a p fun ix => ix.declares s with ⟨e | found, d⟩
    · rw [hask] at hrest
      exact ih _ hrest
    · rw [hask] at hrest
      cases found with
      | true => rfl
      | false => exact ih _ hrest

theorem owner_within {a : Access} {s : Symbol} {c : IndexCache} {ps : List String}
    (h : Spares outer (c.ownerOps (a.within outer) s ps)) :
    c.owner (a.within outer) s ps = c.owner a s ps := by
  cases ps with
  | nil => rfl
  | cons p ps =>
    cases ps with
    | nil => rfl
    | cons q ps => exact search_within none h

theorem deprecatedInOwner_within {a : Access} {s : Symbol} {c : IndexCache} {ps : List String}
    (h : Spares outer (c.deprecatedInOwnerOps (a.within outer) s ps)) :
    c.deprecatedInOwner (a.within outer) s ps = c.deprecatedInOwner a s ps := by
  rw [deprecatedInOwnerOps] at h
  have hlast := h.right
  rw [owner_within h.left] at hlast
  rw [deprecatedInOwner, deprecatedInOwner, owner_within h.left]
  rcases howner : c.owner a s ps with ⟨e | found, d⟩
  · rfl
  · rw [howner] at hlast
    cases found with
    | none => rfl
    | some p => exact ask_within d a _ hlast.head

end IndexCache

namespace Session

open IndexCache

variable {outer : List String}

theorem access_append (s : Session) (inner outer : List String) :
    s.access (inner ++ outer) = (s.access inner).within outer := rfl

mutual

theorem run_within {inner : List String} {s : Session} {t : Step}
    (h : Spares outer (operations (inner ++ outer) s t)) :
    run (inner ++ outer) s t = run inner s t := by
  cases t with
  | get p => rw [run, run, access_append, task_within _ _ h.head]
  | query p q => rw [run, run, access_append, ask_within _ _ _ h.head]
  | declares p sym => rw [run, run, access_append, ask_within _ _ _ h.head]
  | owner sym ps => rw [run, run, access_append, owner_within h]
  | ownerAmongOpen sym => rw [run, run, access_append, owner_within h]
  | deprecatedInOwner sym ps => rw [run, run, access_append, deprecatedInOwner_within h]
  | nested p steps =>
    rw [operations] at h
    have hinner := h.tail
    rw [access_append, task_within _ _ h.head] at hinner
    rw [run, run, access_append, task_within _ _ h.head]
    rcases htask : s.cache.task (s.access inner) p with ⟨e | ix, c⟩
    · rfl
    · rw [htask] at hinner
      -- the project of the task joins what is held inside, which is why `inner` is general
      have hsame := @runAll_within (p :: inner) _ _ hinner
      rw [List.cons_append] at hsame
      simp only [hsame]
  | _ => rfl

theorem runAll_within {inner : List String} {s : Session} {steps : List Step}
    (h : Spares outer (operationsAll (inner ++ outer) s steps)) :
    runAll (inner ++ outer) s steps = runAll inner s steps := by
  cases steps with
  | nil => rfl
  | cons t steps =>
    rw [operationsAll] at h
    have hrest := h.right
    rw [run_within h.left] at hrest
    rw [runAll, runAll, run_within h.left]
    simp only [runAll_within hrest]

end

end Session

end ClasspathSymbols
