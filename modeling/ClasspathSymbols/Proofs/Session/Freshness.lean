import ClasspathSymbols.Proofs.IndexCache.Task
import ClasspathSymbols.Proofs.Session.Run
import Mathlib.Data.List.Induction

/-! # The cache is transparent

A session without nested tasks answers every index task as if the index had been made on the spot,
provided that each change to the files, the workspace or the broken roots is followed by a step
that makes the cache forget or distrust the project. Marks that the model raises do no harm. -/
namespace ClasspathSymbols

/-- What a task answers on an index without a cache. The build that made it has number zero. -/
def Host.freshAnswer (h : Host) : Step → Option Answer
  | .get p => some (Session.answerOf .indexed ((h.index p).map fun x => ⟨0, x.1, x.2⟩))
  | .query p q => some (Session.answerOf .query ((h.index p).map fun x => x.2.answer q))
  | .declares p s => some (Session.answerOf .flag ((h.index p).map fun x => x.2.declares s))
  | _ => none

/-- An answer that does not tell builds apart. -/
def Answer.anonymous : Answer → Answer
  | .indexed ix => .indexed { ix with serial := 0 }
  | a => a

namespace Step

def isChange : Step → Bool
  | .write .. | .delete _ | .setWorkspace _ | .breakRoots .. | .fixRoots _ => true
  | _ => false

def asks (p : String) : Step → Bool
  | .get q | .query q _ | .declares q _ => q = p
  | _ => false

def refreshes (p : String) : Step → Bool
  | .clear => true
  | .invalidate q | .remove q => q = p
  | _ => false

/-- A step that runs at most one index task and holds nothing meanwhile. -/
def isPlain : Step → Bool
  | .owner .. | .ownerAmongOpen _ | .deprecatedInOwner .. | .nested .. => false
  | _ => true

end Step

/-- Every change comes before the first task on the project or is followed by a refreshing step. -/
def Settled (p : String) (steps : List Step) : Prop :=
  ∀ i (h : i < steps.length), steps[i].isChange →
    (∀ t ∈ steps.take i, t.asks p = false) ∨ ∃ t ∈ steps.drop i, t.refreshes p

instance (p : String) (steps : List Step) : Decidable (Settled p steps) :=
  inferInstanceAs (Decidable (∀ i (h : i < steps.length), steps[i].isChange →
    (∀ t ∈ steps.take i, t.asks p = false) ∨ ∃ t ∈ steps.drop i, t.refreshes p))

theorem settled_of_snoc {p : String} {steps : List Step} {t : Step}
    (h : Settled p (steps ++ [t])) (ht : t.refreshes p = false) : Settled p steps := by
  intro i hi hc
  have hi' : i < (steps ++ [t]).length := by rw [List.length_append]; omega
  have hget : (steps ++ [t])[i] = steps[i] := List.getElem_append_left hi
  rcases h i hi' (hget ▸ hc) with hn | ⟨u, hu, hr⟩
  · rw [List.take_append_of_le_length (Nat.le_of_lt hi)] at hn
    exact Or.inl hn
  · rw [List.drop_append_of_le_length (Nat.le_of_lt hi), List.mem_append, List.mem_singleton] at hu
    rcases hu with hu | rfl
    · exact Or.inr ⟨u, hu, hr⟩
    · rw [ht] at hr; cases hr

theorem not_asked_of_settled_change {p : String} {steps : List Step} {t : Step}
    (h : Settled p (steps ++ [t])) (hc : t.isChange) : ∀ u ∈ steps, u.asks p = false := by
  have hi : steps.length < (steps ++ [t]).length := by simp
  have hget : (steps ++ [t])[steps.length] = t := List.getElem_concat_length rfl hi
  rcases h _ hi (hget.symm ▸ hc) with hn | ⟨u, hu, hr⟩
  · simpa using hn
  · have hut : u = t := by simpa using hu
    subst u
    cases t <;> simp [Step.isChange, Step.refreshes] at hc hr

namespace IndexCache

/-- A task on a free project ends as a build without a cache, if what is cached would too. -/
theorem task_content {c : IndexCache} {a : Access} {p : String} (hfree : p ∉ a.held)
    (hfresh : ∀ ix, c.slots.get? p = some ⟨some ix, false⟩ → a.host.index p = .ok ix.content) :
    (c.task a p).1.map Indexed.content = a.host.index p := by
  have ho := task_outcome c a p
  generalize c.task a p = r at ho
  obtain ⟨answer, d⟩ := r
  cases ho with
  | timeout held => exact absurd held hfree
  | hit _ hs => exact (hfresh _ hs).symm
  | built _ _ hx => exact hx.symm
  | failed _ _ hx => exact hx.symm

theorem fresh_after_task {c : IndexCache} {a : Access} {p q : String} {ix : Indexed}
    (h : (c.task a p).2.slots.get? q = some ⟨some ix, false⟩) :
    c.slots.get? q = some ⟨some ix, false⟩ ∨ q = p ∧ a.host.index p = .ok ix.content := by
  have ho := task_outcome c a p
  generalize c.task a p = r at ho h
  obtain ⟨answer, d⟩ := r
  dsimp only at ho h
  cases ho with
  | timeout => exact Or.inl h
  | hit => exact Or.inl h
  | built _ _ hx hs =>
    rw [hs] at h
    by_cases hq : q = p
    · rw [if_pos hq] at h
      simp only [Option.some.injEq, Slot.mk.injEq] at h
      rw [← h.1]
      exact Or.inr ⟨hq, hx⟩
    · rw [if_neg hq] at h
      exact Or.inl (Slot.fresh_of_map_mark h)
  | failed _ _ _ hs =>
    rw [hs] at h
    by_cases hq : q = p
    · rw [if_pos hq] at h
      obtain ⟨ix, -, hix⟩ := Option.map_eq_some_iff.1 h
      cases hix
    · rw [if_neg hq] at h
      exact Or.inl (Slot.fresh_of_map_mark h)

end IndexCache

namespace Session

/-- What a session keeps up while it runs plain steps. -/
structure Transparent (s : Session) (steps : List Step) : Prop where
  asked : ∀ p, s.cache.slots.get? p ≠ none → ∃ t ∈ steps, t.asks p
  fresh : ∀ p ix, s.cache.slots.get? p = some ⟨some ix, false⟩ → Settled p steps →
    s.host.index p = .ok ix.content

theorem transparent_start (fs : Files) (w : Workspace) (timeout : Nat) :
    Transparent (start fs w timeout) [] := by
  constructor
  · intro p h; exact absurd (IndexCache.slots_empty p) h
  · intro p ix h; cases h

theorem transparent_change {s u : Session} {steps : List Step} {t : Step}
    (h : Transparent s steps) (ht : t.isChange) (hc : u.cache = s.cache) :
    Transparent u (steps ++ [t]) := by
  constructor
  · intro p hp
    obtain ⟨v, hv, ha⟩ := h.asked p (hc ▸ hp)
    exact ⟨v, List.mem_append_left _ hv, ha⟩
  · intro p ix hp hs
    obtain ⟨v, hv, ha⟩ := h.asked p (by rw [← hc, hp]; simp)
    rw [not_asked_of_settled_change hs ht v hv] at ha
    cases ha

theorem transparent_mark {s u : Session} {steps : List Step} {t : Step}
    (h : Transparent s steps) (hh : ∀ p, u.host.index p = s.host.index p)
    (hn : ∀ p, u.cache.slots.get? p ≠ none → s.cache.slots.get? p ≠ none)
    (hf : ∀ p ix, u.cache.slots.get? p = some ⟨some ix, false⟩ →
      t.refreshes p = false ∧ s.cache.slots.get? p = some ⟨some ix, false⟩) :
    Transparent u (steps ++ [t]) := by
  constructor
  · intro p hp
    obtain ⟨v, hv, ha⟩ := h.asked p (hn p hp)
    exact ⟨v, List.mem_append_left _ hv, ha⟩
  · intro p ix hp hs
    obtain ⟨hr, hp⟩ := hf p ix hp
    exact (hh p).trans (h.fresh p ix hp (settled_of_snoc hs hr))

theorem transparent_marked {s u : Session} {steps : List Step} {t : Step} {ps : List String}
    (h : Transparent s steps) (hh : ∀ p, u.host.index p = s.host.index p)
    (hc : ∀ q, u.cache.slots.get? q =
      (s.cache.slots.get? q).map (·.mark (decide (q ∈ ps))))
    (ht : ∀ q, t.refreshes q → q ∈ ps) : Transparent u (steps ++ [t]) := by
  apply transparent_mark h hh
  · intro q hq
    rw [hc] at hq
    simpa using hq
  · intro q ix hq
    rw [hc] at hq
    have hs := Slot.fresh_of_map_mark hq
    refine ⟨?_, hs⟩
    by_cases hr : t.refreshes q
    · simp [hs, Slot.mark, ht q hr] at hq
    · exact Bool.eq_false_iff.2 hr

theorem transparent_invalidate {s : Session} {steps : List Step} (h : Transparent s steps)
    (p : String) : Transparent (run [] s (.invalidate p)).2 (steps ++ [.invalidate p]) := by
  apply @transparent_marked s _ steps _ [p] h
  · exact fun _ => rfl
  · intro q
    have hc := IndexCache.slots_invalidate s.cache p q
    simpa [run, withCache] using hc
  · intro q hq
    rw [of_decide_eq_true hq]
    exact List.mem_singleton_self q

theorem transparent_remove {s : Session} {steps : List Step} (h : Transparent s steps)
    (p : String) : Transparent (run [] s (.remove p)).2 (steps ++ [.remove p]) := by
  have hc : ∀ q, (run [] s (.remove p)).2.cache.slots.get? q =
      if q = p then none else s.cache.slots.get? q := IndexCache.slots_remove s.cache p
  apply transparent_mark h
  · exact fun _ => rfl
  · intro q hq
    rw [hc] at hq
    by_cases hqp : q = p
    · rw [if_pos hqp] at hq
      exact absurd rfl hq
    · rwa [if_neg hqp] at hq
  · intro q ix hq
    rw [hc] at hq
    by_cases hqp : q = p
    · rw [if_pos hqp] at hq
      cases hq
    · rw [if_neg hqp] at hq
      exact ⟨decide_eq_false (Ne.symm hqp), hq⟩

theorem transparent_clear {s : Session} {steps : List Step} (h : Transparent s steps) :
    Transparent (run [] s .clear).2 (steps ++ [.clear]) := by
  have hc : ∀ q, (run [] s .clear).2.cache.slots.get? q = none := IndexCache.slots_clear s.cache
  apply transparent_mark h
  · exact fun _ => rfl
  · intro q hq
    exact absurd (hc q) hq
  · intro q ix hq
    rw [hc] at hq
    cases hq

theorem transparent_guestFiles {s : Session} {steps : List Step} (h : Transparent s steps)
    (p : String) (extensions : List String) :
    Transparent (run [] s (.guestFiles p extensions)).2 (steps ++ [.guestFiles p extensions]) := by
  have hno : ∀ (ps : List String) (q : String),
      (Step.guestFiles p extensions).refreshes q → q ∈ ps := by
    intro ps q hq
    cases hq
  simp only [run, guestFiles]
  split
  · exact transparent_marked h (fun _ => rfl)
      (IndexCache.slots_invalidateAll s.cache s.host.invalidates) (hno _)
  · exact @transparent_marked s _ steps _ [] h (fun _ => rfl) (fun q => by simp) (hno [])

theorem transparent_task {s : Session} {steps : List Step} {t : Step} {p : String}
    (h : Transparent s steps) (ht : t.asks p) :
    Transparent (s.withCache (s.cache.task (s.access []) p).2) (steps ++ [t]) := by
  constructor
  · intro q hq
    rcases IndexCache.slot_after_task hq with rfl | hq
    · exact ⟨t, by simp, ht⟩
    · obtain ⟨v, hv, ha⟩ := h.asked q hq
      exact ⟨v, List.mem_append_left _ hv, ha⟩
  · intro q ix hq hs
    rcases IndexCache.fresh_after_task hq with hq | ⟨rfl, hx⟩
    · refine h.fresh q ix hq (settled_of_snoc hs ?_)
      cases t <;> simp_all [Step.asks, Step.refreshes]
    · exact hx

theorem transparent_step {s : Session} {steps : List Step} {t : Step}
    (h : Transparent s steps) (ht : t.isPlain) : Transparent (run [] s t).2 (steps ++ [t]) := by
  cases t with
  | write file content => exact transparent_change h rfl rfl
  | delete file =>
    refine transparent_change h rfl ?_
    simp only [run, delete]
    split <;> rfl
  | setWorkspace w => exact transparent_change h rfl rfl
  | breakRoots p reason => exact transparent_change h rfl rfl
  | fixRoots p => exact transparent_change h rfl rfl
  | onRoots ps => exact transparent_mark h (fun _ => rfl) (fun _ hp => hp) fun _ _ hp => ⟨rfl, hp⟩
  | timeout => exact transparent_mark h (fun _ => rfl) (fun _ hp => hp) fun _ _ hp => ⟨rfl, hp⟩
  | get p => exact transparent_task h (decide_eq_true rfl)
  | query p q => exact transparent_task h (decide_eq_true rfl)
  | declares p sym => exact transparent_task h (decide_eq_true rfl)
  | invalidate p => exact transparent_invalidate h p
  | remove p => exact transparent_remove h p
  | clear => exact transparent_clear h
  | guestFiles p extensions => exact transparent_guestFiles h p extensions
  | owner | ownerAmongOpen | deprecatedInOwner | nested => cases ht

theorem transparent_after (fs : Files) (w : Workspace) (timeout : Nat) {steps : List Step}
    (h : ∀ t ∈ steps, t.isPlain) : Transparent ((start fs w timeout).after steps) steps := by
  induction steps using List.reverseRecOn with
  | nil => exact transparent_start fs w timeout
  | append_singleton steps t ih =>
    rw [after_snoc]
    exact transparent_step (ih fun u hu => h u (List.mem_append_left _ hu)) (h t (by simp))

theorem run_eq_fresh {s : Session} {t : Step} {p : String} (ht : t.asks p)
    (hfresh : ∀ ix, s.cache.slots.get? p = some ⟨some ix, false⟩ →
      s.host.index p = .ok ix.content) :
    s.host.freshAnswer t = some (run [] s t).1.anonymous := by
  have hc : (s.cache.task (s.access []) p).1.map Indexed.content = s.host.index p :=
    IndexCache.task_content List.not_mem_nil hfresh
  cases t with
  | get q =>
    obtain rfl : q = p := of_decide_eq_true ht
    simp only [Host.freshAnswer, ← hc, run, onCache]
    cases (s.cache.task (s.access []) q).1 <;> rfl
  | query q x =>
    obtain rfl : q = p := of_decide_eq_true ht
    simp only [Host.freshAnswer, ← hc, run, onCache, IndexCache.ask]
    cases (s.cache.task (s.access []) q).1 <;> rfl
  | declares q sym =>
    obtain rfl : q = p := of_decide_eq_true ht
    simp only [Host.freshAnswer, ← hc, run, onCache, IndexCache.ask]
    cases (s.cache.task (s.access []) q).1 <;> rfl
  | _ => cases ht

/-- Every index task on a project gets the answer that an index made on the spot gives, with the
same errors, whatever failed, was removed or was never there before. -/
theorem cached_answers_are_fresh (fs : Files) (w : Workspace) (timeout : Nat)
    {before : List Step} {t : Step} {p : String} (rest : List Step)
    (hplain : ∀ u ∈ before, u.isPlain) (hsettled : Settled p before) (ht : t.asks p) :
    ∃ answer counts,
      (runAll [] (start fs w timeout) (before ++ t :: rest)).1[before.length]? =
        some (answer, counts) ∧
      ((start fs w timeout).after before).host.freshAnswer t = some answer.anonymous := by
  refine ⟨_, _, answer_at _ _ _ _, run_eq_fresh ht fun ix hix => ?_⟩
  exact (transparent_after fs w timeout hplain).fresh p ix hix hsettled

def repairedSteps : List Step :=
  [.get "app", .setWorkspace ⟨[⟨"app", true, ⟨[], [], []⟩⟩]⟩, .invalidate "app", .get "app",
    .breakRoots "app" "moved", .get "lib", .remove "app"]

theorem cached_answers_are_fresh_when_repaired :
    (∀ u ∈ repairedSteps, u.isPlain) ∧ Settled "app" repairedSteps ∧
    (Step.query "app" (.type "a.B")).asks "app" ∧
    ∃ answer counts,
      (runAll [] (start (.emptyAt []) ⟨[]⟩ 20)
        (repairedSteps ++ [.query "app" (.type "a.B")])).1[repairedSteps.length]? =
        some (answer, counts) ∧
      ((start (.emptyAt []) ⟨[]⟩ 20).after repairedSteps).host.freshAnswer
        (.query "app" (.type "a.B")) = some answer.anonymous :=
  have hplain : ∀ u ∈ repairedSteps, u.isPlain := by decide
  have hsettled : Settled "app" repairedSteps := by decide
  have ht : (Step.query "app" (.type "a.B")).asks "app" := by decide
  ⟨hplain, hsettled, ht, cached_answers_are_fresh _ _ _ [] hplain hsettled ht⟩

end Session

end ClasspathSymbols
