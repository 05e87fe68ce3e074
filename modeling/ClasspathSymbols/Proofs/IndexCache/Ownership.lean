import ClasspathSymbols.Proofs.Index.Precedence
import ClasspathSymbols.Proofs.IndexCache.Accounting
import ClasspathSymbols.Proofs.IndexCache.Candidates

/-! # The owner of a symbol

The candidates are asked one after the other, each in the cache that those before it leave. The
first whose index knows the symbol is the owner, however many failed before it, and nobody is asked
after it. Without an owner all are asked, and the first failure is the answer, if there is one. -/
namespace ClasspathSymbols

/-- Packages and types are known by their names; no index knows other symbols. -/
def Symbol.IsKnown (s : Symbol) (ix : Index) : Prop :=
  match s.kind with
  | .package => (ix.findPackage s.name).isSome
  | .type => (ix.findType s.name).isSome
  | .element => False

theorem Index.declares_iff {ix : Index} {s : Symbol} : ix.declares s ↔ s.IsKnown ix := by
  obtain ⟨name, kind⟩ := s
  cases kind with
  | package => exact Iff.rfl
  | element => exact iff_of_false (by simp [declares, place?]) id
  | type =>
    simp only [declares, place?, Symbol.IsKnown, findType, Option.isSome_map]
    rw [Std.TreeMap.isSome_getElem?_eq_contains]
    cases ix.types.contains name <;> simp

namespace IndexCache

theorem candidates_eq_filter (keep : String → Bool) (seen ps : List String) :
    candidates keep seen ps = ((ps.filter fun p => !seen.contains p).eraseDups).filter keep := by
  induction ps generalizing seen with
  | nil => rfl
  | cons p ps ih =>
    rw [candidates]
    by_cases hseen : seen.contains p
    · rw [if_pos hseen, List.filter_cons_of_neg (by simpa using hseen), ih]
    · have hrest : (ps.filter fun q => !seen.contains q).filter (fun q => !q == p) =
          ps.filter fun q => !(p :: seen).contains q := by
        rw [List.filter_filter]
        apply List.filter_congr
        intro q _
        rw [List.contains_cons, Bool.not_or]
      rw [if_neg hseen, List.filter_cons_of_pos (by simpa using hseen), List.eraseDups_cons, hrest,
        ih, List.filter_cons]

theorem nodup_eraseDups (ps : List String) : ps.eraseDups.Nodup := by
  induction hn : ps.length using Nat.strongRecOn generalizing ps with
  | ind n ih =>
    cases ps with
    | nil => exact List.nodup_nil
    | cons p ps =>
      have hshort : (ps.filter fun q => !q == p).length < n := by
        have hle := List.length_filter_le (fun q => !q == p) ps
        rw [List.length_cons] at hn
        omega
      rw [List.eraseDups_cons, List.nodup_cons, List.mem_eraseDups]
      exact ⟨by simp, ih _ hshort _ rfl⟩

def Declares (c : IndexCache) (a : Access) (s : Symbol) (p : String) : Prop :=
  ∃ ix, (c.task a p).1 = .ok ix ∧ s.IsKnown ix.index

def Op.PassesOver (s : Symbol) (c : IndexCache) (op : Op) : Prop :=
  ∀ a p, op = .task a p → ¬ c.Declares a s p

def tasks (a : Access) (ps : List String) : List Op := ps.map (.task a)

def failure? {α : Type} : Except IndexUnavailable α → Option IndexUnavailable
  | .error e => some e
  | .ok _ => none

def noOwner : Option IndexUnavailable → Except IndexUnavailable (Option String)
  | some e => .error e
  | none => .ok none

variable {a : Access} {s : Symbol}

theorem search_of_declares {c : IndexCache} {p : String} (h : c.Declares a s p)
    (failure : Option IndexUnavailable) (rest : List String) :
    search a s c failure (p :: rest) = (.ok (some p), (c.task a p).2) := by
  obtain ⟨ix, hix, hknown⟩ := h
  rw [← Index.declares_iff] at hknown
  rw [search, ask]
  rcases htask : c.task a p with ⟨e | jx, d⟩
  · rw [htask] at hix
    cases hix
  · rw [htask] at hix
    cases hix
    simp only [Except.map, hknown]

theorem search_of_not_declares {c : IndexCache} {p : String} (h : ¬ c.Declares a s p)
    (failure : Option IndexUnavailable) (rest : List String) :
    search a s c failure (p :: rest) =
      search a s (c.task a p).2 (failure.or (failure? (c.task a p).1)) rest := by
  rw [search, ask]
  rcases htask : c.task a p with ⟨e | ix, d⟩
  · rfl
  · have hno : ix.index.declares s = false := by
      rw [Bool.eq_false_iff, ne_eq, Index.declares_iff]
      intro hknown
      exact h ⟨ix, by rw [htask], hknown⟩
    simp only [Except.map, hno, failure?, Option.or_none]

theorem search_found {c : IndexCache} {before : List String} {p : String}
    (hbefore : Throughout (Op.PassesOver s) c (tasks a before))
    (hp : (c.afterOps (tasks a before)).Declares a s p) (failure : Option IndexUnavailable)
    (after : List String) :
    search a s c failure (before ++ p :: after) =
      (.ok (some p), c.afterOps (tasks a (before ++ [p]))) := by
  induction before generalizing c failure with
  | nil => exact search_of_declares hp failure after
  | cons q before ih =>
    obtain ⟨hq, hrest⟩ := hbefore
    rw [List.cons_append, search_of_not_declares (hq a q rfl)]
    exact ih hrest hp _

theorem search_missed {c : IndexCache} {ps : List String}
    (h : Throughout (Op.PassesOver s) c (tasks a ps)) (failure : Option IndexUnavailable) :
    search a s c failure ps =
      (noOwner (failure.or ((taskAnswers c (tasks a ps)).findSome? failure?)),
        c.afterOps (tasks a ps)) := by
  induction ps generalizing c failure with
  | nil => cases failure <;> rfl
  | cons q ps ih =>
    obtain ⟨hq, hrest⟩ := h
    have hnext := ih hrest (failure.or (failure? (c.task a q).1))
    rw [apply] at hnext
    rw [search_of_not_declares (hq a q rfl), hnext, Option.or_assoc]
    have hcons : (taskAnswers c (tasks a (q :: ps))).findSome? failure? =
        (failure? (c.task a q).1).or
          ((taskAnswers (c.task a q).2 (tasks a ps)).findSome? failure?) := by
      rw [tasks, List.map_cons, taskAnswers, List.findSome?_cons]
      cases failure? (c.task a q).1 <;> rfl
    rw [hcons]
    rfl

theorem slot_tasks_elsewhere (c : IndexCache) {ps : List String} {q : String} (hq : q ∉ ps) :
    ∃ raised, (c.afterOps (tasks a ps)).slots.get? q = (c.slots.get? q).map (·.mark raised) := by
  induction ps generalizing c with
  | nil => exact ⟨false, (Slot.map_mark_false _).symm⟩
  | cons p ps ih =>
    obtain ⟨hp, hps⟩ := not_or.1 (mt List.mem_cons.2 hq)
    obtain ⟨first, hfirst⟩ := slot_task_elsewhere c a hp
    obtain ⟨later, hlater⟩ := ih (c.task a p).2 hps
    refine ⟨first || later, hlater.trans ?_⟩
    rw [hfirst, Option.map_map]
    cases c.slots.get? q <;> simp [Slot.mark, Bool.or_assoc]

theorem asked_of_taskRecord {r : Recorder} {p q : String}
    (h : .asked q ∈ r.taskRecord a p) : q = p := by
  rw [Recorder.taskRecord] at h
  split at h
  · cases h
  · split at h
    · cases h
    · rw [Recorder.buildRecord] at h
      cases hx : a.host.index p <;> simpa [hx] using h

/-- Tasks ask the model for the roots of their own projects and of no others. -/
theorem asked_by_tasks (r : Recorder) (ps : List String) :
    ∃ more, ((tasks a ps).foldl Recorder.apply r).past = r.past ++ more ∧
      ∀ q, .asked q ∈ more → q ∈ ps := by
  induction ps generalizing r with
  | nil => exact ⟨[], (List.append_nil _).symm, fun q hq => by cases hq⟩
  | cons p ps ih =>
    obtain ⟨more, hpast, hmore⟩ := ih (r.task a p).2
    refine ⟨r.taskRecord a p ++ more, ?_, fun q hq => ?_⟩
    · rw [tasks, List.map_cons, List.foldl_cons, ← tasks, Recorder.apply, hpast, Recorder.task_eq,
        List.append_assoc]
    · rcases List.mem_append.1 hq with hq | hq
      · rw [asked_of_taskRecord hq]
        exact List.mem_cons_self
      · exact List.mem_cons_of_mem p (hmore q hq)

theorem cache_foldl_apply (r : Recorder) (ops : List Op) :
    (ops.foldl Recorder.apply r).cache = r.cache.afterOps ops := by
  induction ops generalizing r with
  | nil => rfl
  | cons op ops ih => rw [List.foldl_cons, ih, Recorder.apply_cache, afterOps_cons]

/-- The cache has become `d` by one index task on each of the projects `asked`, in order. -/
structure Asked (c : IndexCache) (a : Access) (asked : List String) (d : IndexCache) : Prop where
  ran : d = c.afterOps (tasks a asked)
  counted : d.counts.total = c.counts.total + (taskAnswers c (tasks a asked)).countP inTime
  /-- No other project has its roots read, whatever had happened before. -/
  unread : ∀ r : Recorder, r.cache = c →
    ∃ more, ((tasks a asked).foldl Recorder.apply r).past = r.past ++ more ∧
      ((tasks a asked).foldl Recorder.apply r).cache = d ∧ ∀ q ∉ asked, .asked q ∉ more
  spared : ∀ q ∉ asked, ∃ raised, d.slots.get? q = (c.slots.get? q).map (·.mark raised)

theorem asked_tasks (c : IndexCache) (a : Access) (ps : List String) :
    Asked c a ps (c.afterOps (tasks a ps)) where
  ran := rfl
  counted := total_afterOps c _
  unread := by
    rintro r rfl
    obtain ⟨more, hpast, hmore⟩ := asked_by_tasks (a := a) r ps
    exact ⟨more, hpast, cache_foldl_apply r _, fun q hq hm => hq (hmore q hm)⟩
  spared := fun _ => slot_tasks_elsewhere c

/-- What a search among the candidates `ps`, all different, ends in. -/
structure Resolved (c : IndexCache) (a : Access) (s : Symbol) (ps : List String)
    (r : Except IndexUnavailable (Option String) × IndexCache) : Prop where
  nodup : ps.Nodup
  /-- The first who declares the symbol at its turn is the owner and the last to be asked. -/
  found : ∀ before p after, ps = before ++ p :: after →
    Throughout (Op.PassesOver s) c (tasks a before) →
    (c.afterOps (tasks a before)).Declares a s p →
    r.1 = .ok (some p) ∧ Asked c a (before ++ [p]) r.2
  /-- If nobody does, all are asked, and the first failure is the answer, if there is one. -/
  missed : Throughout (Op.PassesOver s) c (tasks a ps) →
    r.1 = noOwner ((taskAnswers c (tasks a ps)).findSome? failure?) ∧ Asked c a ps r.2

theorem owner_of_several {ps : List String} (h : ∀ p, ps ≠ [p]) (c : IndexCache) (a : Access)
    (s : Symbol) :
    c.owner a s ps = search a s c none (ps.eraseDups.filter a.host.model.hasGuest) := by
  have hall : (ps.filter fun p => !([] : List String).contains p) = ps :=
    List.filter_eq_self.2 fun _ _ => rfl
  rw [owner, candidates_eq_filter, hall]
  exact h

/-- A single candidate is the owner without a look. Among others, each counted once and those
without the guest language not at all, the owner is the first whose index knows the symbol. -/
theorem owner_is_first_to_declare (c : IndexCache) (a : Access) (s : Symbol) (ps : List String) :
    (∀ p, ps = [p] → c.owner a s ps = (.ok (some p), c)) ∧
    ((∀ p, ps ≠ [p]) →
      Resolved c a s (ps.eraseDups.filter a.host.model.hasGuest) (c.owner a s ps)) := by
  constructor
  · rintro p rfl
    rfl
  · intro h
    rw [owner_of_several h]
    refine ⟨(nodup_eraseDups ps).sublist List.filter_sublist, ?_, ?_⟩
    · intro before p after hps hbefore hp
      rw [hps, search_found hbefore hp]
      exact ⟨rfl, asked_tasks c a _⟩
    · intro hnone
      rw [search_missed hnone]
      exact ⟨rfl, asked_tasks c a _⟩

/-- The roots of one project are lost, one project is held, and one lacks the guest language. -/
def troubledAccess : Access where
  host := ⟨Index.shadowedFiles, ⟨⟨[⟨"lost", true, ⟨[], [], []⟩⟩, ⟨"plain", false, ⟨[], [], []⟩⟩,
    ⟨"busy", true, ⟨[], [], []⟩⟩, ⟨"bare", true, ⟨[], [], []⟩⟩,
    ⟨"app", true, ⟨[⟨"classes"⟩], [], []⟩⟩,
    ⟨"late", true, ⟨[⟨"classes"⟩], [], []⟩⟩]⟩, [("lost", "closed")]⟩, ["app"]⟩
  held := ["busy"]
  timeout := 20

def troubledCandidates : List String := ["lost", "plain", "lost", "busy", "bare", "app", "late"]

theorem the_owner_is_found_behind_failures :
    (∀ p, troubledCandidates ≠ [p]) ∧
    Resolved .empty troubledAccess ⟨"A", .type⟩
      (troubledCandidates.eraseDups.filter troubledAccess.host.model.hasGuest)
      (owner .empty troubledAccess ⟨"A", .type⟩ troubledCandidates) ∧
    troubledCandidates.eraseDups.filter troubledAccess.host.model.hasGuest =
      ["lost", "busy", "bare"] ++ "app" :: ["late"] ∧
    (owner .empty troubledAccess ⟨"A", .type⟩ troubledCandidates).1 = .ok (some "app") := by
  have hseveral : ∀ p, troubledCandidates ≠ [p] :=
    fun p h => absurd (congrArg List.length h) (by simp [troubledCandidates])
  have hresolved := (owner_is_first_to_declare .empty troubledAccess ⟨"A", .type⟩ _).2 hseveral
  refine ⟨hseveral, hresolved, by decide, eq_ok_of_toOption ?_⟩
  decide +kernel

end IndexCache

end ClasspathSymbols
