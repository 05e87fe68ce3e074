import ClasspathSymbols.Proofs.IndexCache.Run
import Mathlib.Data.List.Induction

/-! # The history of the index cache

A recorder runs the cache and writes down when the model is asked for roots, when a project is
invalidated and when a pair is made. Without its record a recorder is the cache. The record shows
that a pair is stale exactly when its project has been invalidated since its roots were asked for,
so no invalidation is lost and none takes effect that did not happen. -/
namespace ClasspathSymbols
namespace IndexCache

inductive Happening where
  | asked (project : String)
  | invalidated (project : String)
  /-- The pair's number, and how much had happened when its roots were asked for. -/
  | built (project : String) (serial began : Nat)
  deriving DecidableEq, Repr

/-- A cache with all that has happened to it, in order of time. -/
structure Recorder where
  cache : IndexCache
  past : List Happening

namespace Recorder

def empty : Recorder := ⟨.empty, []⟩

def note (r : Recorder) (h : Happening) : Recorder := { r with past := r.past ++ [h] }

def invalidate (r : Recorder) (p : String) : Bool × Recorder :=
  let (b, c) := r.cache.invalidate p
  (b, ⟨c, r.past ++ [.invalidated p]⟩)

def invalidateAll (r : Recorder) (ps : List String) : Recorder :=
  ps.foldl (fun r p => (r.invalidate p).2) r

def readRoots (r : Recorder) (host : Host) (p : String) : Except RootsError Roots × Recorder :=
  (host.model.roots p, (r.note (.asked p)).invalidateAll host.invalidates)

def build (r : Recorder) (host : Host) (p : String) :
    Except IndexUnavailable Indexed × Recorder :=
  match r.readRoots host p with
  | (.error e, d) => (.error (.roots p e), d)
  | (.ok roots, d) =>
    match Index.build host.files roots.classpath with
    | .error e => (.error (.build p e), d)
    | .ok index =>
      let serial := d.cache.counts.builds
      (.ok ⟨serial, roots.classpath, index⟩,
        ⟨d.cache.countBuild, d.past ++ [.built p serial r.past.length]⟩)

def rebuild (r : Recorder) (host : Host) (p : String) :
    Except IndexUnavailable Indexed × Recorder :=
  let unmarked := r.cache.putSlot p { r.cache.slot p with stale := false }
  match (Recorder.mk unmarked r.past).build host p with
  | (.ok ix, d) => (.ok ix, ⟨d.cache.store p ix, d.past⟩)
  | (.error e, d) => (.error e, ⟨d.cache.fail p, d.past⟩)

def task (r : Recorder) (a : Access) (p : String) : Except IndexUnavailable Indexed × Recorder :=
  if a.held.contains p then (.error (.timeout p a.timeout), r)
  else
    match r.cache.slot p with
    | ⟨some ix, false⟩ => (.ok ix, ⟨r.cache.countHit, r.past⟩)
    | _ => r.rebuild a.host p

def apply (r : Recorder) : Op → Recorder
  | .task a p => (r.task a p).2
  | .invalidate p => (r.invalidate p).2
  | .remove p => { r with cache := (r.cache.remove p).2 }
  | .clear => { r with cache := r.cache.clear }

def after (ops : List Op) : Recorder := ops.foldl apply empty

theorem after_snoc (ops : List Op) (op : Op) : after (ops ++ [op]) = (after ops).apply op := by
  simp [after]

theorem invalidateAll_eq (r : Recorder) (ps : List String) :
    r.invalidateAll ps =
      ⟨r.cache.invalidateAll ps, r.past ++ ps.map .invalidated⟩ := by
  induction ps generalizing r with
  | nil => simp [invalidateAll, IndexCache.invalidateAll]
  | cons p ps ih =>
    have h := ih (r.invalidate p).2
    simp only [invalidateAll, IndexCache.invalidateAll, List.foldl_cons] at h ⊢
    rw [h]
    simp [invalidate]

def buildRecord (r : Recorder) (host : Host) (p : String) : List Happening :=
  .asked p :: host.invalidates.map .invalidated ++ match host.index p with
    | .ok _ => [.built p r.cache.counts.builds r.past.length]
    | .error _ => []

theorem build_eq (r : Recorder) (host : Host) (p : String) :
    r.build host p = ((r.cache.build host p).1,
      ⟨(r.cache.build host p).2, r.past ++ r.buildRecord host p⟩) := by
  rw [IndexCache.build_eq]
  rw [build, readRoots, buildRecord, Host.index]
  rw [invalidateAll_eq]
  cases host.model.roots p with
  | error e => simp [note]
  | ok roots =>
    simp only
    cases Index.build host.files roots.classpath with
    | error e => simp [note]
    | ok index => simp [note, nextPair, countBuild, counts_invalidateAll]

theorem rebuild_eq (r : Recorder) (host : Host) (p : String) :
    r.rebuild host p = ((r.cache.rebuild host p).1,
      ⟨(r.cache.rebuild host p).2, r.past ++ r.buildRecord host p⟩) := by
  rw [rebuild, IndexCache.rebuild]
  simp only [build_eq]
  cases (r.cache.putSlot p { r.cache.slot p with stale := false }).build host p with
  | mk answer d => cases answer <;> rfl

def taskRecord (r : Recorder) (a : Access) (p : String) : List Happening :=
  if a.held.contains p then []
  else match r.cache.slot p with
    | ⟨some _, false⟩ => []
    | _ => r.buildRecord a.host p

theorem task_eq (r : Recorder) (a : Access) (p : String) :
    r.task a p = ((r.cache.task a p).1,
      ⟨(r.cache.task a p).2, r.past ++ r.taskRecord a p⟩) := by
  unfold task IndexCache.task taskRecord
  split
  · simp
  · have hr := rebuild_eq r a.host p
    rw [current]
    cases hs : r.cache.slot p with
    | mk pair stale =>
      cases pair with
      | none => simpa using hr
      | some ix =>
        cases stale with
        | true => simpa using hr
        | false => simp

theorem apply_cache (r : Recorder) (op : Op) : (r.apply op).cache = r.cache.apply op := by
  cases op with
  | task a p => simp only [apply, IndexCache.apply, task_eq]
  | invalidate | remove | clear => rfl

theorem after_cache (ops : List Op) : (after ops).cache = IndexCache.empty.afterOps ops := by
  induction ops using List.reverseRecOn with
  | nil => rfl
  | append_singleton ops op ih =>
    rw [after_snoc, apply_cache, ih, afterOps_append]
    rfl

theorem taskRecord_of_hit {r : Recorder} {a : Access} {p : String} {ix : Indexed}
    (h : r.cache.slots.get? p = some ⟨some ix, false⟩) : r.taskRecord a p = [] := by
  simp [taskRecord, slot_fresh_iff.2 h]

theorem taskRecord_of_due {r : Recorder} {a : Access} {p : String} (hfree : p ∉ a.held)
    (hdue : r.cache.Due p) : r.taskRecord a p = r.buildRecord a.host p := by
  have hh : a.held.contains p = false := by simpa using hfree
  simp only [taskRecord, hh, Bool.false_eq_true, if_false]
  split
  · rename_i ix hs
    exact absurd (slot_fresh_iff.1 hs) (hdue ix)
  · rfl

theorem invalidated_mem_buildRecord {r : Recorder} {host : Host} {p q : String} :
    .invalidated q ∈ r.buildRecord host p ↔ q ∈ host.invalidates := by
  rw [buildRecord]
  cases host.index p <;> simp

end Recorder

/-- Numbers tell pairs apart, and each pair dates from a request for its project's roots. -/
structure Chronicle (past : List Happening) (builds : Nat) : Prop where
  numbered : ∀ p n t, .built p n t ∈ past → n < builds
  dated : ∀ p n t, .built p n t ∈ past → past[t]? = some (.asked p)
  single : ∀ p q n t u, .built p n t ∈ past → .built q n u ∈ past → t = u

theorem Chronicle.quiet {past more : List Happening} {builds : Nat} (h : Chronicle past builds)
    (hm : ∀ p n t, .built p n t ∉ more) : Chronicle (past ++ more) builds := by
  have old : ∀ p n t, .built p n t ∈ past ++ more → .built p n t ∈ past := by
    intro p n t hb
    exact (List.mem_append.1 hb).resolve_right (hm p n t)
  constructor
  · intro p n t hb
    exact h.numbered p n t (old p n t hb)
  · intro p n t hb
    have ht := h.dated p n t (old p n t hb)
    obtain ⟨hlt, -⟩ := List.getElem?_eq_some_iff.1 ht
    rwa [List.getElem?_append_left hlt]
  · intro p q n t u hb hc
    exact h.single p q n t u (old p n t hb) (old q n u hc)

theorem Chronicle.build {past : List Happening} {builds : Nat} (h : Chronicle past builds)
    (p : String) (marks : List String) :
    Chronicle (past ++ (.asked p :: marks.map .invalidated ++ [.built p builds past.length]))
      (builds + 1) := by
  have old : ∀ q n t,
      .built q n t ∈ past ++ (.asked p :: marks.map .invalidated ++ [.built p builds past.length]) →
      .built q n t ∈ past ∨ q = p ∧ n = builds ∧ t = past.length := by
    intro q n t hb
    simpa using hb
  constructor
  · intro q n t hb
    rcases old q n t hb with hb | ⟨-, rfl, -⟩
    · exact Nat.lt_succ_of_lt (h.numbered q n t hb)
    · exact Nat.lt_succ_self n
  · intro q n t hb
    rcases old q n t hb with hb | ⟨rfl, -, rfl⟩
    · have ht := h.dated q n t hb
      obtain ⟨hlt, -⟩ := List.getElem?_eq_some_iff.1 ht
      rwa [List.getElem?_append_left hlt]
    · simp
  · intro q v n t u hb hc
    rcases old q n t hb with hb | ⟨-, hn, ht⟩ <;> rcases old v n u hc with hc | ⟨-, hm, hu⟩
    · exact h.single q v n t u hb hc
    · exact absurd (h.numbered q n t hb) (by omega)
    · exact absurd (h.numbered v n u hc) (by omega)
    · rw [ht, hu]

/-- The slot holds a recorded pair and is stale exactly if the project was invalidated since the
pair's roots were asked for. -/
def Accounted (past : List Happening) (p : String) (s : Slot) : Prop :=
  ∃ ix t, s.current = some ix ∧ .built p ix.serial t ∈ past ∧
    (s.stale = true ↔ .invalidated p ∈ past.drop t)

theorem Accounted.append {past : List Happening} {builds : Nat} {p : String} {s : Slot}
    (h : Accounted past p s) (hc : Chronicle past builds) (more : List Happening) :
    Accounted (past ++ more) p (s.mark (decide (.invalidated p ∈ more))) := by
  obtain ⟨ix, t, hix, hb, hs⟩ := h
  obtain ⟨ht, -⟩ := List.getElem?_eq_some_iff.1 (hc.dated p _ t hb)
  refine ⟨ix, t, hix, List.mem_append_left _ hb, ?_⟩
  rw [List.drop_append_of_le_length (Nat.le_of_lt ht), List.mem_append, ← hs]
  simp

/-- What the cache and its record keep up. -/
structure Faithful (r : Recorder) : Prop where
  chronicle : Chronicle r.past r.cache.counts.builds
  accounted : ∀ p s, r.cache.slots.get? p = some s → Accounted r.past p s

theorem faithful_empty : Faithful .empty := by
  constructor
  · constructor <;> simp [Recorder.empty]
  · intro p s h
    exact absurd h (by simp [Recorder.empty, slots_empty])

theorem stale_of_due {r : Recorder} (h : Faithful r) {p : String} {s : Slot}
    (hs : r.cache.slots.get? p = some s) (hdue : r.cache.Due p) : s.stale = true := by
  obtain ⟨ix, t, hix, -, -⟩ := h.accounted p s hs
  obtain ⟨current, stale⟩ := s
  cases stale with
  | true => rfl
  | false =>
    dsimp only at hix
    subst hix
    exact absurd hs (hdue ix)

theorem accounted_other {r : Recorder} (h : Faithful r) {host : Host} {p q : String} {s : Slot}
    (hs : (r.cache.slots.get? q).map (·.mark (decide (q ∈ host.invalidates))) = some s) :
    Accounted (r.past ++ r.buildRecord host p) q s := by
  obtain ⟨old, hold, rfl⟩ := Option.map_eq_some_iff.1 hs
  have ha := (h.accounted q old hold).append h.chronicle (r.buildRecord host p)
  simpa only [Recorder.invalidated_mem_buildRecord] using ha

theorem faithful_built {r : Recorder} (h : Faithful r) {host : Host} {p : String} {d : IndexCache}
    {x : Classpath × Index} (hx : host.index p = .ok x)
    (hs : ∀ q, d.slots.get? q =
      if q = p then some ⟨some (r.cache.nextPair x), decide (p ∈ host.invalidates)⟩
      else (r.cache.slots.get? q).map (·.mark (decide (q ∈ host.invalidates))))
    (hc : d.counts.builds = r.cache.counts.builds + 1) :
    Faithful ⟨d, r.past ++ r.buildRecord host p⟩ := by
  have hrec : r.buildRecord host p =
      .asked p :: host.invalidates.map .invalidated ++
        [.built p r.cache.counts.builds r.past.length] := by
    simp only [Recorder.buildRecord, hx]
  constructor
  · simp only [hc, hrec]
    exact h.chronicle.build p host.invalidates
  · intro q s hq
    dsimp only at hq
    rw [hs] at hq
    by_cases hqp : q = p
    · subst q
      obtain rfl : _ = s := by simpa using hq
      refine ⟨r.cache.nextPair x, r.past.length, rfl, ?_, ?_⟩
      · rw [hrec]; simp [nextPair]
      · simp [Recorder.invalidated_mem_buildRecord]
    · rw [if_neg hqp] at hq
      exact accounted_other h hq

theorem faithful_failed {r : Recorder} (h : Faithful r) {host : Host} {p : String} {d : IndexCache}
    {e : IndexUnavailable} (hdue : r.cache.Due p) (hx : host.index p = .error e)
    (hs : ∀ q, d.slots.get? q =
      if q = p then (r.cache.pair? p).map fun ix => ⟨some ix, true⟩
      else (r.cache.slots.get? q).map (·.mark (decide (q ∈ host.invalidates))))
    (hc : d.counts.builds = r.cache.counts.builds) :
    Faithful ⟨d, r.past ++ r.buildRecord host p⟩ := by
  constructor
  · simp only [hc]
    apply h.chronicle.quiet
    intro q n t
    simp [Recorder.buildRecord, hx]
  · intro q s hq
    dsimp only at hq
    rw [hs] at hq
    by_cases hqp : q = p
    · subst q
      rw [if_pos rfl] at hq
      obtain ⟨ix, hix, rfl⟩ := Option.map_eq_some_iff.1 hq
      obtain ⟨old, hold, hcur⟩ := Option.bind_eq_some_iff.1 hix
      have hst := stale_of_due h hold hdue
      have ha := (h.accounted p old hold).append h.chronicle (r.buildRecord host p)
      rwa [Slot.mark, hst, hcur, Bool.true_or] at ha
    · rw [if_neg hqp] at hq
      exact accounted_other h hq

theorem faithful_task {r : Recorder} (h : Faithful r) (a : Access) (p : String) :
    Faithful (r.task a p).2 := by
  have ho := task_outcome r.cache a p
  rw [Recorder.task_eq]
  generalize r.cache.task a p = x at ho ⊢
  obtain ⟨answer, d⟩ := x
  dsimp only at ho ⊢
  cases ho with
  | timeout held => simpa [Recorder.taskRecord, held] using h
  | hit _ hs =>
    rw [Recorder.taskRecord_of_hit hs, List.append_nil]
    exact ⟨h.chronicle, h.accounted⟩
  | built hfree hdue hx hs hc =>
    rw [Recorder.taskRecord_of_due hfree hdue]
    exact faithful_built h hx hs (by rw [hc])
  | failed hfree hdue hx hs hc =>
    rw [Recorder.taskRecord_of_due hfree hdue]
    exact faithful_failed h hdue hx hs (by rw [hc])

theorem faithful_invalidate {r : Recorder} (h : Faithful r) (p : String) :
    Faithful (r.invalidate p).2 := by
  constructor
  · have hc := counts_invalidate r.cache p
    simp only [Recorder.invalidate, hc]
    exact h.chronicle.quiet (by simp)
  · intro q s hq
    simp only [Recorder.invalidate, slots_invalidate] at hq
    obtain ⟨old, hold, rfl⟩ := Option.map_eq_some_iff.1 hq
    have ha := (h.accounted q old hold).append h.chronicle [.invalidated p]
    simpa [Recorder.invalidate] using ha

theorem faithful_apply {r : Recorder} (h : Faithful r) (op : Op) : Faithful (r.apply op) := by
  cases op with
  | task a p => exact faithful_task h a p
  | invalidate p => exact faithful_invalidate h p
  | remove p =>
    constructor
    · have hc : (r.cache.remove p).2.counts.builds = r.cache.counts.builds := by
        rw [counts_remove]
      simp only [Recorder.apply, hc]
      exact h.chronicle
    · intro q s hq
      simp only [Recorder.apply, slots_remove] at hq
      by_cases hqp : q = p
      · simp [hqp] at hq
      · rw [if_neg hqp] at hq
        exact h.accounted q s hq
  | clear =>
    constructor
    · have hc : r.cache.clear.counts.builds = r.cache.counts.builds := by rw [counts_clear]
      simp only [Recorder.apply, hc]
      exact h.chronicle
    · intro q s hq
      exact absurd ((slots_clear r.cache q).symm.trans hq) (by simp)

theorem faithful_after (ops : List Op) : Faithful (Recorder.after ops) := by
  induction ops using List.reverseRecOn with
  | nil => exact faithful_empty
  | append_singleton ops op ih =>
    rw [Recorder.after_snoc]
    exact faithful_apply ih op

/-- The project was invalidated after the roots of the pair with this number were asked for. -/
def InvalidatedSince (past : List Happening) (p : String) (serial : Nat) : Prop :=
  ∃ t, .built p serial t ∈ past ∧ .invalidated p ∈ past.drop t

theorem pair_accounted {r : Recorder} (h : Faithful r) {p : String} {ix : Indexed}
    (hp : r.cache.pair? p = some ix) :
    ∃ t, (∀ u, .built p ix.serial u ∈ r.past ↔ u = t) ∧
      ∃ stale, r.cache.slots.get? p = some ⟨some ix, stale⟩ ∧
        (stale = true ↔ .invalidated p ∈ r.past.drop t) := by
  obtain ⟨⟨current, stale⟩, hs, hcur⟩ := Option.bind_eq_some_iff.1 hp
  obtain ⟨jx, t, hjx, hb, hst⟩ := h.accounted p _ hs
  dsimp only at hcur hjx hst
  subst hcur
  obtain rfl := Option.some.inj hjx
  refine ⟨t, fun u => ⟨fun hu => ?_, fun hu => hu ▸ hb⟩, stale, hs, hst⟩
  exact h.chronicle.single p p _ u t hu hb

theorem due_iff {r : Recorder} (h : Faithful r) (p : String) :
    r.cache.Due p ↔ r.cache.pair? p = none ∨
      ∃ ix, r.cache.pair? p = some ix ∧ InvalidatedSince r.past p ix.serial := by
  cases hp : r.cache.pair? p with
  | none =>
    refine ⟨fun _ => Or.inl rfl, fun _ ix hs => ?_⟩
    rw [pair?, hs] at hp
    cases hp
  | some ix =>
    obtain ⟨t, hb, stale, hs, hst⟩ := pair_accounted h hp
    constructor
    · intro hdue
      have hstale := stale_of_due h hs hdue
      exact Or.inr ⟨ix, rfl, t, (hb t).2 rfl, hst.1 hstale⟩
    · rintro (hn | ⟨jx, hjx, u, hu, hi⟩) kx hk
      · cases hn
      · obtain rfl := Option.some.inj hjx
        obtain rfl := (hb u).1 hu
        rw [hs] at hk
        have hstale := hst.2 hi
        simp [hstale] at hk

def Recorder.ReadsRoots (r : Recorder) (a : Access) (p : String) : Prop :=
  .asked p ∈ (r.task a p).2.past.drop r.past.length

theorem readsRoots_iff_due {r : Recorder} {a : Access} {p : String} (hfree : p ∉ a.held) :
    r.ReadsRoots a p ↔ r.cache.Due p := by
  rw [Recorder.ReadsRoots, Recorder.task_eq]
  simp only [List.drop_left]
  constructor
  · intro hm ix hs
    rw [Recorder.taskRecord_of_hit hs] at hm
    cases hm
  · intro hdue
    rw [Recorder.taskRecord_of_due hfree hdue]
    exact List.mem_cons_self

theorem handed_out_is_current {r : Recorder} (h : Faithful r) {a : Access} {p : String}
    {ix : Indexed} (hok : (r.cache.task a p).1 = .ok ix) :
    ∃ t, (∀ u, .built p ix.serial u ∈ (r.task a p).2.past ↔ u = t) ∧
      .invalidated p ∉ r.past.drop t := by
  have hnext := faithful_task h a p
  have ho := task_outcome r.cache a p
  rw [Recorder.task_eq] at hnext ⊢
  generalize r.cache.task a p = x at ho hok hnext
  obtain ⟨answer, d⟩ := x
  dsimp only at ho hok hnext ⊢
  cases ho with
  | timeout | failed => cases hok
  | hit _ hs =>
    cases hok
    have hpair : r.cache.pair? p = some ix := by simp [pair?, hs]
    obtain ⟨t, hb, stale, hslot, hst⟩ := pair_accounted h hpair
    rw [Recorder.taskRecord_of_hit hs, List.append_nil]
    refine ⟨t, hb, fun hi => ?_⟩
    have hstale := hst.2 hi
    rw [hs] at hslot
    simp [hstale] at hslot
  | @built x _ hfree hdue hx hs hc =>
    cases hok
    have hpair : d.pair? p = some (r.cache.nextPair x) := by simp [pair?, hs]
    obtain ⟨t, hb, -⟩ := pair_accounted hnext hpair
    have ht : r.past.length = t := by
      apply (hb _).1
      simp [Recorder.taskRecord_of_due hfree hdue, Recorder.buildRecord, hx, nextPair]
    exact ⟨t, hb, by simp [← ht]⟩

/-- A task on a project neither misses an invalidation nor acts on one that did not happen. -/
structure Punctual (c : IndexCache) (r : Recorder) (a : Access) (p : String) : Prop where
  recorded : r.cache = c ∧ (r.task a p).1 = (c.task a p).1 ∧ (r.task a p).2.cache = (c.task a p).2
  /-- One request for roots, begun at time `t`, led to the cached pair. -/
  dated : ∀ ix, c.pair? p = some ix → ∃ t, r.past[t]? = some (.asked p) ∧
    ∀ u, .built p ix.serial u ∈ r.past ↔ u = t
  reads : r.ReadsRoots a p ↔ c.pair? p = none ∨
    ∃ ix, c.pair? p = some ix ∧ InvalidatedSince r.past p ix.serial
  /-- What is handed out dates from after every invalidation before the task. -/
  current : ∀ ix, (c.task a p).1 = .ok ix → ∃ t,
    (∀ u, .built p ix.serial u ∈ (r.task a p).2.past ↔ u = t) ∧ .invalidated p ∉ r.past.drop t
  /-- A pair that was not invalidated is handed out itself, and stays. -/
  same : ∀ ix, c.pair? p = some ix → ¬ InvalidatedSince r.past p ix.serial →
    c.task a p = (.ok ix, c.countHit)

/-- However a run went, a task on a project that nobody holds asks for the project's roots exactly
if there is no pair or the project has been invalidated since the roots of the pair were asked
for, be it by the model itself while it was asked, and however many builds failed since. -/
theorem roots_are_read_exactly_when_due (ops : List Op) (a : Access) {p : String}
    (hfree : p ∉ a.held) :
    Punctual (IndexCache.empty.afterOps ops) (Recorder.after ops) a p := by
  have h : Faithful (Recorder.after ops) := faithful_after ops
  rw [← Recorder.after_cache]
  constructor
  · rw [Recorder.task_eq]
    exact ⟨rfl, rfl, rfl⟩
  · intro ix hix
    obtain ⟨t, hb, -⟩ := pair_accounted h hix
    exact ⟨t, h.chronicle.dated p _ t ((hb t).2 rfl), hb⟩
  · exact (readsRoots_iff_due hfree).trans (due_iff h p)
  · intro ix hok
    exact handed_out_is_current h hok
  · intro ix hix hn
    have hnd : ¬ (Recorder.after ops).cache.Due p := by
      rw [due_iff h p, hix]
      rintro (hnone | ⟨jx, hjx, hi⟩)
      · cases hnone
      · cases hjx
        exact hn hi
    obtain ⟨jx, hjx⟩ := not_forall_not.1 hnd
    obtain rfl : jx = ix := by simpa [pair?, hjx] using hix
    exact task_of_fresh hfree hjx

def restlessAccess : Access :=
  ⟨⟨.emptyAt [], .ofWorkspace ⟨[⟨"app", true, ⟨[], [], []⟩⟩]⟩, ["app", "lib"]⟩, ["lib"], 20⟩

theorem roots_are_read_when_the_model_marks :
    "app" ∉ restlessAccess.held ∧
    Punctual
      (IndexCache.empty.afterOps [.task restlessAccess "app", .task restlessAccess "gone",
        .invalidate "app", .remove "lib"])
      (Recorder.after [.task restlessAccess "app", .task restlessAccess "gone",
        .invalidate "app", .remove "lib"]) restlessAccess "app" :=
  have hfree : "app" ∉ restlessAccess.held := by decide
  ⟨hfree, roots_are_read_exactly_when_due _ _ hfree⟩

end IndexCache

end ClasspathSymbols
