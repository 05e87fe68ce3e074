import ClasspathSymbols.Proofs.ParsedFiles.Coherence
import ClasspathSymbols.Proofs.ParsedFiles.Slots

/-! # Parsed files are accounted for

Each operation may come with a parser and a content of its own. A tree that is got or parsed adds
one to the hits or to the parses and a failure adds to neither, so that the two together count the
successes of a run. The files that are kept are counted wherever a tree is put in or taken out. -/
namespace ClasspathSymbols

section Transcript

variable {σ ρ ω α : Type}

/-- The answers of a row of operations, and what the row leaves. -/
def transcript (step : σ → ω → α × σ) (s : σ) : List ω → List α × σ
  | [] => ([], s)
  | op :: ops =>
    ((step s op).1 :: (transcript step (step s op).2 ops).1,
      (transcript step (step s op).2 ops).2)

theorem transcript_append (step : σ → ω → α × σ) (s : σ) (ops more : List ω) :
    (transcript step s (ops ++ more)).2 =
      (transcript step (transcript step s ops).2 more).2 := by
  induction ops generalizing s with
  | nil => rfl
  | cons op ops ih => exact ih (step s op).2

theorem transcript_keeps {step : σ → ω → α × σ} {P : σ → Prop}
    (hstep : ∀ s op, P s → P (step s op).2) {s : σ} (h : P s) (ops : List ω) :
    P (transcript step s ops).2 := by
  induction ops generalizing s with
  | nil => exact h
  | cons op ops ih => exact ih (hstep s op h)

/-- Where each step answers the same and keeps a relation, a row does. -/
theorem transcript_simulates {step : σ → ω → α × σ} {step' : ρ → ω → α × ρ} {R : σ → ρ → Prop}
    (hstep : ∀ s r op, R s r → (step s op).1 = (step' r op).1 ∧ R (step s op).2 (step' r op).2)
    {s : σ} {r : ρ} (h : R s r) (ops : List ω) :
    (transcript step s ops).1 = (transcript step' r ops).1 ∧
      R (transcript step s ops).2 (transcript step' r ops).2 := by
  induction ops generalizing s r with
  | nil => exact ⟨rfl, h⟩
  | cons op ops ih =>
    obtain ⟨hanswer, hrel⟩ := hstep s r op h
    obtain ⟨hanswers, hrels⟩ := ih hrel
    exact ⟨congrArg₂ List.cons hanswer hanswers, hrels⟩

theorem transcript_measure {step : σ → ω → α × σ} {measure : σ → Nat} {raises : α → Bool}
    (hstep : ∀ s op, measure (step s op).2 =
      measure s + if raises (step s op).1 then 1 else 0) (s : σ) (ops : List ω) :
    measure (transcript step s ops).2 =
      measure s + (transcript step s ops).1.countP raises := by
  induction ops generalizing s with
  | nil => rfl
  | cons op ops ih =>
    rw [transcript, ih, hstep, List.countP_cons]
    omega

end Transcript

namespace ParsedFiles

inductive Op (γ τ : Type) where
  | get (parser : GuestParser τ) (content : γ) (f : GuestFile)
  | cached (f : GuestFile)
  | parse (parser : GuestParser τ) (f : GuestFile) (text : String)
  | parseDetached (parser : GuestParser τ) (text : String)
  | evict (f : GuestFile)
  | clear

inductive Answer (τ : Type) where
  | got (r : Except SourceError (ParsedTree τ))
  | kept (t : Option (ParsedTree τ))
  | parsed (r : Except ParseError (ParsedTree τ))
  | evicted (was : Bool)
  | cleared

def Answer.succeeded {τ : Type} : Answer τ → Bool
  | .got r => r.isOk
  | .parsed r => r.isOk
  | .kept _ | .evicted _ | .cleared => false

variable {γ τ : Type} [ContentProvider γ]

def step (c : ParsedFiles τ) : Op γ τ → Answer τ × ParsedFiles τ
  | .get parser content f => (.got (c.get parser content f).1, (c.get parser content f).2)
  | .cached f => (.kept (c.cached f), c)
  | .parse parser f text => (.parsed (c.parse parser f text).1, (c.parse parser f text).2)
  | .parseDetached parser text =>
    (.parsed (c.parseDetached parser text).1, (c.parseDetached parser text).2)
  | .evict f => (.evicted (c.evict f).1, (c.evict f).2)
  | .clear => (.cleared, c.clear)

end ParsedFiles

namespace SlottedFiles

open ParsedFiles

variable {γ τ : Type} [ContentProvider γ]

def step (s : SlottedFiles τ) : Op γ τ → Answer τ × SlottedFiles τ
  | .get parser content f => (.got (s.get parser content f).1, (s.get parser content f).2)
  | .cached f => (.kept (s.cached f), s)
  | .parse parser f text =>
    (.parsed (s.parseSource parser (.of (some f) text)).1,
      (s.parseSource parser (.of (some f) text)).2)
  | .parseDetached parser text =>
    (.parsed (s.parseSource parser (.of none text)).1, (s.parseSource parser (.of none text)).2)
  | .evict f => (.evicted (s.evict f).1, (s.evict f).2)
  | .clear => (.cleared, s.clear)

theorem holds_step (s : SlottedFiles τ) (c : ParsedFiles τ) (op : Op γ τ) (h : Holds s c) :
    (s.step op).1 = (c.step op).1 ∧ Holds (s.step op).2 (c.step op).2 := by
  cases op with
  | get parser content f =>
    obtain ⟨hanswer, hholds⟩ := holds_get h parser content f
    exact ⟨congrArg Answer.got hanswer, hholds⟩
  | cached f => exact ⟨congrArg Answer.kept (h.cached f), h⟩
  | parse parser f text =>
    obtain ⟨hanswer, hholds⟩ := holds_parseSource h parser (.of (some f) text)
    exact ⟨congrArg Answer.parsed hanswer, hholds⟩
  | parseDetached parser text =>
    obtain ⟨hanswer, hholds⟩ := holds_parseSource h parser (.of none text)
    exact ⟨congrArg Answer.parsed hanswer, hholds⟩
  | evict f =>
    obtain ⟨hanswer, hholds⟩ := holds_evict h f
    exact ⟨congrArg Answer.evicted hanswer, hholds⟩
  | clear => exact ⟨rfl, holds_clear h⟩

end SlottedFiles

namespace ParsedFiles

variable {γ τ : Type} [ContentProvider γ]

def Counted (c : ParsedFiles τ) : Prop := c.counts.cachedFiles = c.slots.size

theorem counted_empty : Counted (empty : ParsedFiles τ) := rfl

theorem counted_parseSource {c : ParsedFiles τ} (h : Counted c) (parser : GuestParser τ)
    (source : SourceText) : Counted (c.parseSource parser source).2 := by
  rw [parseSource_eq]
  cases parser source <;> exact h

theorem counted_store {c : ParsedFiles τ} (h : Counted c) (f : GuestFile) (t : ParsedTree τ) :
    Counted (c.store f t) := by
  have hsize : (c.store f t).slots.size = c.slots.size + if (c.cached f).isSome then 0 else 1 :=
    Table.size_insert _ _ _
  rw [Counted, counts_store, hsize, h]

theorem counted_update {c : ParsedFiles τ} (h : Counted c) (parser : GuestParser τ)
    (f : GuestFile) (text : String) : Counted (c.update parser f text).2 := by
  rw [update]
  cases (c.cached f).filter fun t => t.source.text = text with
  | some t => exact h
  | none =>
    have hparsed := counted_parseSource h parser (.of (some f) text)
    rw [← parse] at hparsed
    generalize c.parse parser f text = r at hparsed
    obtain ⟨answer, d⟩ := r
    cases answer with
    | error e => exact hparsed
    | ok t => exact counted_store hparsed f t

theorem counted_get {c : ParsedFiles τ} (h : Counted c) (parser : GuestParser τ) (content : γ)
    (f : GuestFile) : Counted (c.get parser content f).2 := by
  cases hread : ContentProvider.readText content f with
  | error e =>
    rw [get_of_error hread]
    exact h
  | ok raw =>
    rw [get_of_ok hread]
    exact counted_update h parser f _

theorem counted_evict {c : ParsedFiles τ} (h : Counted c) (f : GuestFile) :
    Counted (c.evict f).2 := by
  cases hf : c.cached f with
  | none =>
    rw [evict, hf]
    exact h
  | some t =>
    have hsize := Table.size_erase c.slots f.key
    rw [← cached, hf, Option.isSome_some, if_pos rfl] at hsize
    rw [evict, hf]
    dsimp only [Counted] at h ⊢
    omega

theorem counted_step (c : ParsedFiles τ) (op : Op γ τ) (h : Counted c) :
    Counted (c.step op).2 := by
  cases op with
  | get parser content f => exact counted_get h parser content f
  | cached f => exact h
  | parse parser f text => exact counted_parseSource h parser _
  | parseDetached parser text => exact counted_parseSource h parser _
  | evict f => exact counted_evict h f
  | clear => exact Nat.sub_eq_zero_of_le (Nat.le_of_eq h)

def handedOut (c : ParsedFiles τ) : Nat := c.counts.hits + c.counts.parses

/-- One of the hits and the parses is raised by one, and the other is not. -/
def OneMore (before after : ParseCounts) : Prop :=
  after.hits = before.hits + 1 ∧ after.parses = before.parses ∨
    after.hits = before.hits ∧ after.parses = before.parses + 1

/-- What a failure to get the tree of a file comes from. -/
def Refused (parser : GuestParser τ) (content : γ) (f : GuestFile) : SourceError → Prop
  | .content e => ContentProvider.readText content f = .error e
  | .parse e => ∃ raw, ContentProvider.readText content f = .ok raw ∧
      parser (f.source raw) = .error e

theorem get_failed {c : ParsedFiles τ} {parser : GuestParser τ} {content : γ} {f : GuestFile}
    {e : SourceError} (h : (c.get parser content f).1 = .error e) :
    Refused parser content f e ∧ (c.get parser content f).2.slots = c.slots ∧
      (c.get parser content f).2.counts = c.counts := by
  have ho := c.get_outcome parser content f
  generalize c.get parser content f = r at ho h ⊢
  obtain ⟨answer, d⟩ := r
  dsimp only at ho h ⊢
  cases ho with
  | hit | parsed => cases h
  | unreadable hread =>
    cases h
    exact ⟨hread, rfl, rfl⟩
  | rejected hread _ hparse =>
    cases h
    exact ⟨⟨_, hread, hparse⟩, rfl, rfl⟩

theorem oneMore_of_got {c : ParsedFiles τ} {parser : GuestParser τ} {content : γ} {f : GuestFile}
    {t : ParsedTree τ} (h : (c.get parser content f).1 = .ok t) :
    OneMore c.counts (c.get parser content f).2.counts := by
  have ho := c.get_outcome parser content f
  generalize c.get parser content f = r at ho h ⊢
  obtain ⟨answer, d⟩ := r
  dsimp only at ho h ⊢
  cases ho with
  | unreadable | rejected => cases h
  | hit => exact .inl ⟨rfl, rfl⟩
  | parsed _ _ _ _ _ hcounts =>
    rw [hcounts]
    exact .inr ⟨rfl, rfl⟩

theorem handedOut_get (c : ParsedFiles τ) (parser : GuestParser τ) (content : γ) (f : GuestFile) :
    (c.get parser content f).2.handedOut =
      c.handedOut + if (c.get parser content f).1.isOk then 1 else 0 := by
  cases h : (c.get parser content f).1 with
  | error e =>
    rw [handedOut, (get_failed h).2.2]
    rfl
  | ok t =>
    have hmore := oneMore_of_got h
    change _ = c.handedOut + 1
    dsimp only [OneMore, handedOut] at hmore ⊢
    omega

theorem handedOut_parseSource (c : ParsedFiles τ) (parser : GuestParser τ) (source : SourceText) :
    (c.parseSource parser source).2.handedOut =
      c.handedOut + if (c.parseSource parser source).1.isOk then 1 else 0 := by
  rw [parseSource_eq]
  cases parser source <;> rfl

theorem handedOut_evict (c : ParsedFiles τ) (f : GuestFile) :
    (c.evict f).2.handedOut = c.handedOut := by
  rw [evict]
  split <;> rfl

theorem handedOut_step (c : ParsedFiles τ) (op : Op γ τ) :
    (c.step op).2.handedOut = c.handedOut + if (c.step op).1.succeeded then 1 else 0 := by
  cases op with
  | get parser content f => exact handedOut_get c parser content f
  | parse parser f text => exact handedOut_parseSource c parser _
  | parseDetached parser text => exact handedOut_parseSource c parser _
  | evict f => exact handedOut_evict c f
  | cached | clear => rfl

/-- The slots `s`, and what is kept without them in `c`, after operations with these answers. -/
structure Accounted (γ : Type) [ContentProvider γ] (answers : List (Answer τ))
    (s : SlottedFiles τ) (c : ParsedFiles τ) : Prop extends s.Holds c where
  /-- What is done next is answered alike, with slots and without. -/
  follows : ∀ op : Op γ τ, (s.step op).1 = (c.step op).1 ∧ (s.step op).2.Holds (c.step op).2
  full : ∀ k slot, s.slots.get? k = some slot → slot.isSome
  registered : s.slots.size = c.slots.size
  counted : c.counts.cachedFiles = c.slots.size
  /-- The counter is not zero where an eviction lowers it. -/
  lowered : ∀ k t, s.slots.get? k = some (some t) → 0 < s.counts.cachedFiles
  /-- Nor is it where slots are dropped one by one, in whatever order. -/
  drained : ∀ order, order.Perm s.slots.entries → ∀ done e rest, order = done ++ e :: rest →
    0 < (done.foldl (fun n e => ParseCounts.drop n e.2) s.counts).cachedFiles
  balanced : c.counts.hits + c.counts.parses = answers.countP Answer.succeeded
  /-- A failure leaves no trace, on whatever content and with whatever parser. -/
  failing : ∀ (parser : GuestParser τ) (content : γ) f e,
    (c.get parser content f).1 = .error e → Refused parser content f e ∧
      (c.get parser content f).2.slots = c.slots ∧
      (c.get parser content f).2.counts = c.counts ∧
      ∀ k, (s.get parser content f).2.slots.get? k = s.slots.get? k
  succeeding : ∀ (parser : GuestParser τ) (content : γ) f t,
    (c.get parser content f).1 = .ok t →
      OneMore c.counts (c.get parser content f).2.counts ∧
      (c.get parser content f).2.cached f = some t

theorem holds_counted {s : SlottedFiles τ} {c : ParsedFiles τ} (h : s.Holds c)
    (hcounted : Counted c) : s.counts.cachedFiles = s.slots.size := by
  rw [h.counts, h.size]
  exact hcounted

theorem counter_pos {s : SlottedFiles τ} (h : s.counts.cachedFiles = s.slots.size)
    {k : GuestFile.Key} {slot : Option (ParsedTree τ)} (hk : s.slots.get? k = some slot) :
    0 < s.counts.cachedFiles := by
  have hsize := Table.size_erase s.slots k
  rw [hk, Option.isSome_some, if_pos rfl] at hsize
  omega

theorem drained_pos {s : SlottedFiles τ} {c : ParsedFiles τ} (h : s.Holds c)
    (hcounted : s.counts.cachedFiles = s.slots.size)
    {order done rest : List (GuestFile.Key × Option (ParsedTree τ))}
    {e : GuestFile.Key × Option (ParsedTree τ)} (hperm : order.Perm s.slots.entries)
    (hsplit : order = done ++ e :: rest) :
    0 < (done.foldl (fun n e => ParseCounts.drop n e.2) s.counts).cachedFiles := by
  have hfull : ∀ d ∈ done, d.2.isSome := by
    intro d hd
    refine h.full_entries d (hperm.mem_iff.1 ?_)
    rw [hsplit]
    exact List.mem_append_left _ hd
  have hlen : done.length + (rest.length + 1) = s.slots.size := by
    rw [← List.length_cons, ← List.length_append, ← hsplit]
    exact hperm.length_eq
  rw [SlottedFiles.foldl_drop hfull]
  dsimp only
  omega

theorem slots_get_failed {s : SlottedFiles τ} {c : ParsedFiles τ} (h : s.Holds c)
    {parser : GuestParser τ} {content : γ} {f : GuestFile} {e : SourceError}
    (hfailed : (c.get parser content f).1 = .error e) (k : GuestFile.Key) :
    (s.get parser content f).2.slots.get? k = s.slots.get? k := by
  have hleft := (SlottedFiles.holds_get h parser content f).2
  rw [hleft.slots, (get_failed hfailed).2.1, h.slots]

theorem accounted_of_holds {answers : List (Answer τ)} {s : SlottedFiles τ} {c : ParsedFiles τ}
    (h : s.Holds c) (hcounted : Counted c)
    (hbalanced : c.handedOut = answers.countP Answer.succeeded) : Accounted γ answers s c where
  toHolds := h
  follows := fun op => SlottedFiles.holds_step s c op h
  full := fun _ _ => h.full
  registered := h.size
  counted := hcounted
  lowered := fun _ _ => counter_pos (holds_counted h hcounted)
  drained := fun _ hperm _ _ _ => drained_pos h (holds_counted h hcounted) hperm
  balanced := hbalanced
  failing := by
    intro parser content f e hfailed
    obtain ⟨hrefused, hslots, hcounts⟩ := get_failed hfailed
    exact ⟨hrefused, hslots, hcounts, slots_get_failed h hfailed⟩
  succeeding := fun _ _ _ _ hgot => ⟨oneMore_of_got hgot, cached_of_get hgot⟩

/-- Whatever is done, files that are kept in slots answer as files that are kept without, no slot
is empty, the counters tell what is kept and what was handed out, and failures leave no trace. -/
theorem failures_leave_no_trace (ops : List (Op γ τ)) :
    (transcript SlottedFiles.step .empty ops).1 = (transcript step .empty ops).1 ∧
      Accounted γ (transcript step .empty ops).1 (transcript SlottedFiles.step .empty ops).2
        (transcript step .empty ops).2 := by
  obtain ⟨hanswers, hholds⟩ :=
    transcript_simulates SlottedFiles.holds_step SlottedFiles.holds_empty ops
  refine ⟨hanswers, accounted_of_holds hholds ?_ ?_⟩
  · exact transcript_keeps counted_step counted_empty ops
  · have hmeasure := transcript_measure handedOut_step empty ops
    have hnone : handedOut (empty : ParsedFiles τ) = 0 := rfl
    rwa [hnone, Nat.zero_add] at hmeasure

end ParsedFiles

namespace Editor

open ParsedFiles

variable {β τ : Type} [ContentProvider β] {parser : GuestParser τ}

def operations (parser : GuestParser τ) (e : Editor β τ) : Action β → List (Op (Overlay β) τ)
  | .setBuffer _ _ | .closeBuffer _ | .change _ => []
  | .get f => [.get parser e.overlay f]
  | .cached f => [.cached f]
  | .parse f text => [.parse parser f text]
  | .parseDetached text => [.parseDetached parser text]
  | .evict f => [.evict f]
  | .clear => [.clear]

theorem parsed_act (e : Editor β τ) (a : Action β) :
    (e.act parser a).parsed = (transcript step e.parsed (e.operations parser a)).2 := by
  cases a <;> rfl

theorem parsed_after (e : Editor β τ) (actions : List (Action β)) :
    ∃ ops : List (Op (Overlay β) τ),
      (e.after parser actions).parsed = (transcript step e.parsed ops).2 := by
  induction actions generalizing e with
  | nil => exact ⟨[], rfl⟩
  | cons a actions ih =>
    obtain ⟨ops, hops⟩ := ih (e.act parser a)
    refine ⟨e.operations parser a ++ ops, ?_⟩
    rw [transcript_append, ← parsed_act]
    exact hops

end Editor

theorem ParseSession.parsed_run (fs : Files) (steps : List ParseStep) :
    ∀ x ∈ (start fs).run steps, ∃ ops : List (ParsedFiles.Op (Overlay Files) (List String)),
      x.2.parsed = (transcript ParsedFiles.step .empty ops).2 := by
  intro x hx
  obtain ⟨done, hdone⟩ := editor_run (start fs) steps x hx
  obtain ⟨ops, hops⟩ := Editor.parsed_after (start fs).editor done
  rw [← hdone] at hops
  exact ⟨ops, hops⟩

end ClasspathSymbols
