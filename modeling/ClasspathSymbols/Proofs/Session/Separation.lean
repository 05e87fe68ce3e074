import ClasspathSymbols.Proofs.IndexCache.Separation
import ClasspathSymbols.Proofs.Session.Moments

/-! # Projects do not interfere

All slots lie in one table, and still what is done to other projects does not show in the answers
about a project. A session from which the steps on other projects are deleted gives the same
answers, only that its builds are numbered otherwise. Where an owner is looked for among the
project and others this holds of every single task of the search. -/
namespace ClasspathSymbols

namespace Step

/-- The step asks for, marks or removes other projects than `p` and no more. -/
def isElsewhere (p : String) : Step → Bool
  | .get q | .query q _ | .declares q _ | .invalidate q | .remove q => q ≠ p
  | .owner _ projects | .deprecatedInOwner _ projects => !projects.contains p
  | _ => false

/-- The step holds nothing and makes the model raise no marks. -/
def isFlat : Step → Bool
  | .onRoots projects => projects.isEmpty
  | .nested .. => false
  | _ => true

/-- The step looks for no owner among `p` and other projects together: there the answers about the
others decide whether `p` is asked at all. -/
def isUnmixed (p : String) : Step → Bool
  | .owner _ projects | .deprecatedInOwner _ projects =>
    !projects.contains p || projects.all (· = p)
  | .ownerAmongOpen _ => false
  | _ => true

theorem all_eq_of_unmixed {p : String} {projects : List String}
    (hu : (!projects.contains p || projects.all (· = p)) = true)
    (hk : (!projects.contains p) = false) : ∀ q ∈ projects, q = p := by
  rw [hk, Bool.false_or, List.all_eq_true] at hu
  exact fun q hq => of_decide_eq_true (hu q hq)

end Step

namespace Session

open IndexCache

/-- The sessions are in one place with the same files and projects, and as far as `p` goes their
caches are one. -/
structure Alike (p : String) (f : Nat → Nat) (s t : Session) : Prop where
  host : s.host = t.host
  timeout : s.timeout = t.timeout
  quiet : t.host.invalidates = []
  cache : s.cache.Mirrors p f t.cache

theorem alike_start (p : String) (fs : Files) (w : Workspace) (timeout : Nat) :
    Alike p id (start fs w timeout) (start fs w timeout) where
  host := rfl
  timeout := rfl
  quiet := rfl
  cache := mirrors_empty p

theorem quiet_run {t : Step} (ht : t.isFlat) {s : Session} (h : s.host.invalidates = []) :
    (run [] s t).2.host.invalidates = [] := by
  cases t with
  | onRoots ps => exact List.isEmpty_iff.1 ht
  | delete file =>
    simp only [run, delete]
    split <;> exact h
  | guestFiles q extensions =>
    simp only [run, guestFiles]
    split <;> exact h
  | nested => cases ht
  | _ => exact h

theorem alone_operations {t : Step} (ht : t.isFlat) {s : Session} (h : s.host.invalidates = []) :
    ∀ op ∈ operations [] s t, op.IsAlone := by
  have hcandidates : ∀ {ops : List Op} {ps : List String},
      (∀ op ∈ ops, ∃ q ∈ ps, op = .task (s.access []) q) → ∀ op ∈ ops, op.IsAlone := by
    intro ops ps hops op hop
    obtain ⟨q, -, rfl⟩ := hops op hop
    exact ⟨rfl, h⟩
  cases t with
  | get | query | declares =>
    rw [operations, List.forall_mem_singleton]
    exact ⟨rfl, h⟩
  | invalidate | remove | clear =>
    rw [operations, List.forall_mem_singleton]
    trivial
  | owner sym ps => exact hcandidates (ownerOps_on_candidates _ _ _ _)
  | ownerAmongOpen sym => exact hcandidates (ownerOps_on_candidates _ _ _ _)
  | deprecatedInOwner sym ps => exact hcandidates (deprecatedInOwnerOps_on_candidates _ _ _ _)
  | guestFiles q extensions => simp [operations, h]
  | nested => cases ht
  | _ => exact List.forall_mem_nil _

theorem alone_operationsAll {steps : List Step} (hsteps : ∀ u ∈ steps, u.isFlat) {s : Session}
    (h : s.host.invalidates = []) : ∀ op ∈ operationsAll [] s steps, op.IsAlone := by
  induction steps generalizing s with
  | nil => exact List.forall_mem_nil _
  | cons u steps ih =>
    obtain ⟨hu, hrest⟩ := List.forall_mem_cons.1 hsteps
    rw [operationsAll, List.forall_mem_append]
    exact ⟨alone_operations hu h, ih hrest (quiet_run hu h)⟩

theorem flat_of_elsewhere {p : String} {t : Step} (ht : t.isElsewhere p) : t.isFlat := by
  cases t with
  | onRoots | nested => cases ht
  | _ => rfl

theorem operations_elsewhere {p : String} {t : Step} (ht : t.isElsewhere p) (s : Session) :
    ∀ op ∈ operations [] s t, op.isElsewhere p := by
  have hcandidates : ∀ {ops : List Op} {ps : List String}, (!ps.contains p) = true →
      (∀ op ∈ ops, ∃ q ∈ ps, op = .task (s.access []) q) → ∀ op ∈ ops, op.isElsewhere p := by
    intro ops ps hp hops op hop
    obtain ⟨q, hq, rfl⟩ := hops op hop
    refine decide_eq_true ?_
    rintro rfl
    simp [hq] at hp
  cases t with
  | get | query | declares | invalidate | remove =>
    rw [operations, List.forall_mem_singleton]
    exact ht
  | owner sym ps => exact hcandidates ht (ownerOps_on_candidates _ _ _ _)
  | deprecatedInOwner sym ps => exact hcandidates ht (deprecatedInOwnerOps_on_candidates _ _ _ _)
  | _ => cases ht

theorem host_run_elsewhere {p : String} {t : Step} (ht : t.isElsewhere p) (s : Session) :
    (run [] s t).2.host = s.host := by
  cases t with
  | get | query | declares | invalidate | remove | owner | deprecatedInOwner => rfl
  | _ => cases ht

/-- What is done to other projects in the first session does not show. -/
theorem alike_elsewhere {p : String} {f : Nat → Nat} {s t : Session} (h : Alike p f s t)
    {u : Step} (hu : u.isElsewhere p) :
    ∃ g, Alike p g (run [] s u).2 t ∧ ∀ n < t.cache.counts.builds, g n = f n := by
  have hquiet : s.host.invalidates = [] := by rw [h.host, h.quiet]
  obtain ⟨g, hg, hsame⟩ := mirrors_elsewhere h.cache (operations_elsewhere hu s)
    (alone_operations (flat_of_elsewhere hu) hquiet)
  refine ⟨g, ⟨?_, ?_, h.quiet, ?_⟩, hsame⟩
  · rw [host_run_elsewhere hu, h.host]
  · rw [timeout_run, h.timeout]
  · rwa [cache_run]

structure EndAlike (p : String) (f : Nat → Nat) (x y : Answer × Session) : Prop where
  answer : x.1 = y.1.renumber f
  below : y.1.IsBelow y.2.cache.counts.builds
  alike : Alike p f x.2 y.2

theorem endAlike_onCache {α : Type} {p : String} {f : Nat → Nat} {s t : Session}
    (h : Alike p f s t) (encode : α → Answer) (hplain : ∀ v, (encode v).renumber f = encode v)
    (hbelow : ∀ v n, (encode v).IsBelow n) {x y : Except IndexUnavailable α × IndexCache}
    (hanswer : x.1 = y.1) (hcache : x.2.Mirrors p f y.2) :
    EndAlike p f (s.onCache encode x) (t.onCache encode y) := by
  refine ⟨?_, ?_, h.host, h.timeout, h.quiet, hcache⟩
  · simp only [onCache, hanswer]
    cases y.1 with
    | ok v => exact (hplain v).symm
    | error e => rfl
  · simp only [onCache]
    cases y.1 with
    | ok v => exact hbelow v _
    | error e => trivial

theorem endAlike_op {p : String} {f : Nat → Nat} {s t : Session} (h : Alike p f s t) {op : Op}
    (ha : op.IsAlone) (hp : op.isElsewhere p = false) :
    EndAlike p f (s.cache.answer op, s.withCache (s.cache.apply op))
      (t.cache.answer op, t.withCache (t.cache.apply op)) := by
  have hend := agreed_apply h.cache ha hp
  exact ⟨hend.answer, hend.below, h.host, h.timeout, h.quiet, hend.mirrors⟩

theorem endAlike_run {p : String} {f : Nat → Nat} {s t : Session} (h : Alike p f s t) {u : Step}
    (hflat : u.isFlat) (hu : u.isUnmixed p) (hk : u.isElsewhere p = false) :
    EndAlike p f (run [] s u) (run [] t u) := by
  have hfree : p ∉ (t.access []).held := List.not_mem_nil
  obtain ⟨host, c, timeout⟩ := s
  obtain ⟨host', d, timeout'⟩ := t
  obtain rfl : host = host' := h.host
  obtain rfl : timeout = timeout' := h.timeout
  have hquiet : host.invalidates = [] := h.quiet
  have hcaches : c.Mirrors p f d := h.cache
  cases u with
  | write | setWorkspace | breakRoots | fixRoots | timeout =>
    exact ⟨rfl, trivial, rfl, rfl, hquiet, hcaches⟩
  | delete file =>
    simp only [run, delete]
    split <;> exact ⟨rfl, trivial, rfl, rfl, hquiet, hcaches⟩
  | onRoots projects =>
    exact ⟨rfl, trivial, rfl, rfl, List.isEmpty_iff.1 hflat, hcaches⟩
  | guestFiles q extensions =>
    have hnone : ∀ e : IndexCache, (e.readRoots host q).2 = e := by
      intro e
      rw [readRoots, hquiet]
      rfl
    simp only [run, guestFiles, hnone]
    cases host.model.guestFiles host.files q extensions <;> split <;>
      exact ⟨rfl, trivial, rfl, rfl, hquiet, hcaches⟩
  | get q => exact @endAlike_op _ _ _ _ h (.task ⟨host, [], timeout⟩ q) ⟨rfl, hquiet⟩ hk
  | invalidate q => exact @endAlike_op _ _ _ _ h (.invalidate q) trivial hk
  | remove q => exact @endAlike_op _ _ _ _ h (.remove q) trivial hk
  | clear => exact @endAlike_op _ _ _ _ h .clear trivial rfl
  | query q x =>
    obtain rfl : q = p := by simpa [Step.isElsewhere] using hk
    obtain ⟨hanswer, hcache⟩ := mirrors_ask hcaches hfree hquiet (·.answer x)
    exact endAlike_onCache h .query (fun _ => rfl) (fun _ _ => trivial) hanswer hcache
  | declares q sym =>
    obtain rfl : q = p := by simpa [Step.isElsewhere] using hk
    obtain ⟨hanswer, hcache⟩ := mirrors_ask hcaches hfree hquiet (·.declares sym)
    exact endAlike_onCache h .flag (fun _ => rfl) (fun _ _ => trivial) hanswer hcache
  | owner sym ps =>
    have hps := Step.all_eq_of_unmixed hu hk
    obtain ⟨hanswer, hcache⟩ := mirrors_owner hcaches hfree hquiet sym hps
    exact endAlike_onCache h .owner (fun _ => rfl) (fun _ _ => trivial) hanswer hcache
  | deprecatedInOwner sym ps =>
    have hps := Step.all_eq_of_unmixed hu hk
    obtain ⟨hanswer, hcache⟩ := mirrors_deprecatedInOwner hcaches hfree hquiet sym hps
    exact endAlike_onCache h .flag (fun _ => rfl) (fun _ _ => trivial) hanswer hcache
  | ownerAmongOpen => cases hu
  | nested => cases hflat

def answersFor (p : String) (s : Session) (steps : List Step) : List Answer :=
  ((steps.zip (runAll [] s steps).1).filter fun x => !x.1.isElsewhere p).map (·.2.1)

def stepsFor (p : String) (steps : List Step) : List Step :=
  steps.filter fun u => !u.isElsewhere p

theorem answersFor_cons (p : String) (s : Session) (u : Step) (steps : List Step) :
    answersFor p s (u :: steps) =
      if u.isElsewhere p then answersFor p (run [] s u).2 steps
      else (run [] s u).1 :: answersFor p (run [] s u).2 steps := by
  rw [answersFor, runAll, List.zip_cons_cons, List.filter_cons]
  cases u.isElsewhere p <;> rfl

theorem stepsFor_cons (p : String) (u : Step) (steps : List Step) :
    stepsFor p (u :: steps) =
      if u.isElsewhere p then stepsFor p steps else u :: stepsFor p steps := by
  rw [stepsFor, List.filter_cons]
  cases u.isElsewhere p <;> rfl

/-- The numbers that the second session has given out so far are the same in the end. -/
theorem answersFor_alike {p : String} {f : Nat → Nat} {s t : Session} (h : Alike p f s t)
    {steps : List Step} (hflat : ∀ u ∈ steps, u.isFlat) (hsteps : ∀ u ∈ steps, u.isUnmixed p) :
    ∃ g, StrictMono g ∧ (∀ n < t.cache.counts.builds, g n = f n) ∧
      answersFor p s steps = (runAll [] t (stepsFor p steps)).1.map fun a => a.1.renumber g := by
  induction steps generalizing s t f with
  | nil => exact ⟨f, h.cache.rising, fun _ _ => rfl, rfl⟩
  | cons u steps ih =>
    obtain ⟨hflatu, hflatrest⟩ := List.forall_mem_cons.1 hflat
    obtain ⟨hstep, hrest⟩ := List.forall_mem_cons.1 hsteps
    rw [answersFor_cons, stepsFor_cons]
    cases hu : u.isElsewhere p with
    | true =>
      obtain ⟨e, he, hef⟩ := alike_elsewhere h hu
      obtain ⟨g, hg, hge, hanswers⟩ := ih he hflatrest hrest
      exact ⟨g, hg, fun n hn => (hge n hn).trans (hef n hn), hanswers⟩
    | false =>
      have hend := endAlike_run h hflatu hstep hu
      obtain ⟨g, hg, hgf, hanswers⟩ := ih hend.alike hflatrest hrest
      have hgrown : t.cache.counts.builds ≤ (run [] t u).2.cache.counts.builds := by
        rw [cache_run]
        exact builds_le_afterOps _ _
      refine ⟨g, hg, fun n hn => hgf n (Nat.lt_of_lt_of_le hn hgrown), ?_⟩
      have hanswer : (run [] s u).1 = (run [] t u).1.renumber g := by
        rw [hend.answer, Answer.renumber_congr hgf hend.below]
      simp only [Bool.false_eq_true, if_false, runAll, List.map_cons, hanswer, hanswers]

/-- Take a session without nested tasks in which the model raises no marks. Deleting what it does to
other projects changes no answer about `p`: the values, the errors and the flags are the same, and
two tasks get one pair exactly if they get one pair in the run that is left, as the renumbering
keeps builds apart and in order. This holds of the operations on the cache, into which a search for
an owner falls too, and of the steps, unless one looks for an owner among `p` and others. -/
theorem others_do_not_interfere (fs : Files) (w : Workspace) (timeout : Nat) (p : String)
    {steps : List Step} (h : ∀ u ∈ steps, u.isFlat) :
    (∃ f : Nat → Nat, StrictMono f ∧
      IndexCache.empty.answersFor p (operationsAll [] (start fs w timeout) steps) =
        (IndexCache.empty.answers (opsFor p (operationsAll [] (start fs w timeout) steps))).map
          fun a => a.renumber f) ∧
    ((∀ u ∈ steps, u.isUnmixed p) → ∃ f : Nat → Nat, StrictMono f ∧
      answersFor p (start fs w timeout) steps =
        (runAll [] (start fs w timeout) (stepsFor p steps)).1.map fun a => a.1.renumber f) := by
  constructor
  · have halone := alone_operationsAll h (s := start fs w timeout) rfl
    obtain ⟨f, hf, -, hanswers⟩ := answersFor_mirrors (mirrors_empty p) halone
    exact ⟨f, hf, hanswers⟩
  · intro hunmixed
    obtain ⟨f, hf, -, hanswers⟩ := answersFor_alike (alike_start p fs w timeout) h hunmixed
    exact ⟨f, hf, hanswers⟩

def tangledProjects : List Step :=
  [.get "app", .setWorkspace ⟨[⟨"app", true, ⟨[], [], []⟩⟩, ⟨"lib", true, ⟨[], [], []⟩⟩]⟩,
    .get "lib", .get "app", .invalidate "lib", .breakRoots "lib" "moved", .get "lib", .get "app",
    .invalidate "app", .owner ⟨"a.B", .type⟩ ["lib", "web"], .get "app", .remove "lib", .clear,
    .get "app", .remove "app"]

theorem the_library_does_not_interfere :
    (∀ u ∈ tangledProjects, u.isFlat) ∧ (∀ u ∈ tangledProjects, u.isUnmixed "app") ∧
    ∃ f : Nat → Nat, StrictMono f ∧
      answersFor "app" (start (.emptyAt []) ⟨[]⟩ 20) tangledProjects =
        (runAll [] (start (.emptyAt []) ⟨[]⟩ 20) (stepsFor "app" tangledProjects)).1.map
          fun a => a.1.renumber f :=
  have h : ∀ u ∈ tangledProjects, u.isFlat := by decide
  have hunmixed : ∀ u ∈ tangledProjects, u.isUnmixed "app" := by decide
  ⟨h, hunmixed, (others_do_not_interfere _ _ _ "app" h).2 hunmixed⟩

end Session

end ClasspathSymbols
