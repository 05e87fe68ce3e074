import ClasspathSymbols.Proofs.ParsedFiles.Get

/-! # Slots of parsed files

The tree of a file is kept in a slot, which is made before the content of the file is read and is
dropped again after a failure if it is still empty. Between two operations every slot holds a tree,
so that parsed files without slots answer and keep the same. -/
namespace ClasspathSymbols

structure SlottedFiles (τ : Type) where
  slots : Table GuestFile.Key (Option (ParsedTree τ))
  counts : ParseCounts
  calls : Nat

def ParseCounts.drop {τ : Type} (n : ParseCounts) (slot : Option (ParsedTree τ)) : ParseCounts :=
  if slot.isSome then { n with cachedFiles := n.cachedFiles - 1 } else n

namespace SlottedFiles

variable {γ τ : Type} [ContentProvider γ]

def empty : SlottedFiles τ := ⟨.empty, ⟨0, 0, 0⟩, 0⟩

def cached (s : SlottedFiles τ) (f : GuestFile) : Option (ParsedTree τ) := (s.slots.get? f.key).join

def reserve (s : SlottedFiles τ) (f : GuestFile) : SlottedFiles τ :=
  match s.slots.get? f.key with
  | some _ => s
  | none => { s with slots := s.slots.insert f.key none }

def release (s : SlottedFiles τ) (f : GuestFile) : SlottedFiles τ :=
  match s.slots.get? f.key with
  | some none => { s with slots := s.slots.erase f.key }
  | _ => s

def parseSource (s : SlottedFiles τ) (parser : GuestParser τ) (source : SourceText) :
    Except ParseError (ParsedTree τ) × SlottedFiles τ :=
  let s := { s with calls := s.calls + 1 }
  match parser source with
  | .error e => (.error e, s)
  | .ok tree =>
    (.ok ⟨s.counts.parses, source, tree⟩,
      { s with counts := { s.counts with parses := s.counts.parses + 1 } })

def fill (s : SlottedFiles τ) (f : GuestFile) (t : ParsedTree τ) : SlottedFiles τ :=
  let cachedFiles := if (s.cached f).isSome then s.counts.cachedFiles
    else s.counts.cachedFiles + 1
  { s with slots := s.slots.insert f.key (some t), counts := { s.counts with cachedFiles } }

def countHit (s : SlottedFiles τ) : SlottedFiles τ :=
  { s with counts := { s.counts with hits := s.counts.hits + 1 } }

def update (s : SlottedFiles τ) (parser : GuestParser τ) (f : GuestFile) (text : String) :
    Except ParseError (ParsedTree τ) × SlottedFiles τ :=
  match (s.cached f).filter fun t => t.source.text = text with
  | some t => (.ok t, s.countHit)
  | none =>
    match s.parseSource parser (.of (some f) text) with
    | (.error e, s) => (.error e, s)
    | (.ok t, s) => (.ok t, s.fill f t)

def refresh (s : SlottedFiles τ) (parser : GuestParser τ) (content : γ) (f : GuestFile) :
    Except SourceError (ParsedTree τ) × SlottedFiles τ :=
  match ContentProvider.readText content f with
  | .error e => (.error (.content e), s)
  | .ok raw =>
    let (r, s) := s.update parser f (Text.normalizeText raw).text
    (r.mapError .parse, s)

def get (s : SlottedFiles τ) (parser : GuestParser τ) (content : γ) (f : GuestFile) :
    Except SourceError (ParsedTree τ) × SlottedFiles τ :=
  match (s.reserve f).refresh parser content f with
  | (.error e, s) => (.error e, s.release f)
  | (.ok t, s) => (.ok t, s)

def evict (s : SlottedFiles τ) (f : GuestFile) : Bool × SlottedFiles τ :=
  match s.slots.get? f.key with
  | none => (false, s)
  | some slot =>
    (slot.isSome, { s with slots := s.slots.erase f.key, counts := s.counts.drop slot })

def clear (s : SlottedFiles τ) : SlottedFiles τ :=
  { s with
    slots := .empty
    counts := s.slots.entries.foldl (fun n e => n.drop e.2) s.counts }

/-- The slots hold what is kept without them, and no slot is empty. -/
structure Holds (s : SlottedFiles τ) (c : ParsedFiles τ) : Prop where
  slots : ∀ k, s.slots.get? k = (c.slots.get? k).map some
  counts : s.counts = c.counts
  calls : s.calls = c.calls

/-- As `Holds`, where the slot of a file is there and may be empty. -/
structure Opened (f : GuestFile) (s : SlottedFiles τ) (c : ParsedFiles τ) : Prop where
  own : s.slots.get? f.key = some (c.cached f)
  others : ∀ k, k ≠ f.key → s.slots.get? k = (c.slots.get? k).map some
  counts : s.counts = c.counts
  calls : s.calls = c.calls

variable {s : SlottedFiles τ} {c d : ParsedFiles τ} {f : GuestFile}

theorem holds_empty : Holds (empty : SlottedFiles τ) .empty := ⟨fun _ => rfl, rfl, rfl⟩

theorem Holds.cached (h : Holds s c) (f : GuestFile) : s.cached f = c.cached f := by
  rw [SlottedFiles.cached, h.slots, ParsedFiles.cached]
  cases c.slots.get? f.key <;> rfl

theorem Opened.cached (h : Opened f s c) : s.cached f = c.cached f := by
  rw [SlottedFiles.cached, h.own]
  rfl

theorem Holds.full (h : Holds s c) {k : GuestFile.Key} {slot : Option (ParsedTree τ)}
    (hk : s.slots.get? k = some slot) : slot.isSome := by
  rw [h.slots] at hk
  obtain ⟨t, -, rfl⟩ := Option.map_eq_some_iff.1 hk
  rfl

theorem Holds.size (h : Holds s c) : s.slots.size = c.slots.size := by
  apply Table.size_eq_of_keys
  intro k
  rw [h.slots, Option.isSome_map]

theorem opened_reserve (h : Holds s c) (f : GuestFile) : Opened f (s.reserve f) c := by
  have hown := h.slots f.key
  rw [reserve]
  split
  · rename_i slot hslot
    obtain ⟨t, ht, rfl⟩ := Option.map_eq_some_iff.1 (hown.symm.trans hslot)
    refine ⟨?_, fun k _ => h.slots k, h.counts, h.calls⟩
    rw [hslot, ParsedFiles.cached, ht]
  · rename_i hnone
    refine ⟨?_, ?_, h.counts, h.calls⟩
    · have hc : c.cached f = none := Option.map_eq_none_iff.1 (hown.symm.trans hnone)
      rw [Table.get?_insert, if_pos rfl, hc]
    · intro k hk
      rw [Table.get?_insert, if_neg hk, h.slots]

theorem Opened.holds (h : Opened f s c) (hkept : (c.cached f).isSome) : Holds s c := by
  obtain ⟨t, ht⟩ := Option.isSome_iff_exists.1 hkept
  refine ⟨fun k => ?_, h.counts, h.calls⟩
  by_cases hk : k = f.key
  · have hc : c.slots.get? f.key = some t := ht
    rw [hk, h.own, ht, hc]
    rfl
  · exact h.others k hk

theorem holds_release (h : Opened f s c) : Holds (s.release f) c := by
  cases hc : c.cached f with
  | some t =>
    have hown := h.own
    rw [hc] at hown
    rw [release, hown]
    apply h.holds
    rw [hc]
    rfl
  | none =>
    have hown := h.own
    rw [hc] at hown
    rw [release, hown]
    refine ⟨fun k => ?_, h.counts, h.calls⟩
    rw [Table.get?_erase]
    by_cases hk : k = f.key
    · rw [if_pos hk, hk]
      exact (Option.map_eq_none_iff.2 hc).symm
    · rw [if_neg hk]
      exact h.others k hk

theorem parseSource_of_error {parser : GuestParser τ} {source : SourceText} {e : ParseError}
    (h : parser source = .error e) (s : SlottedFiles τ) :
    s.parseSource parser source = (.error e, { s with calls := s.calls + 1 }) := by
  rw [parseSource, h]

theorem parseSource_of_ok {parser : GuestParser τ} {source : SourceText} {tree : τ}
    (h : parser source = .ok tree) (s : SlottedFiles τ) :
    s.parseSource parser source = (.ok ⟨s.counts.parses, source, tree⟩, { s with
      calls := s.calls + 1
      counts := { s.counts with parses := s.counts.parses + 1 } }) := by
  rw [parseSource, h]

theorem parseSource_same (s : SlottedFiles τ) (c : ParsedFiles τ) (hcounts : s.counts = c.counts)
    (hcalls : s.calls = c.calls) (parser : GuestParser τ) (source : SourceText) :
    (s.parseSource parser source).1 = (c.parseSource parser source).1 ∧
      (s.parseSource parser source).2 = ⟨s.slots, (c.parseSource parser source).2.counts,
        (c.parseSource parser source).2.calls⟩ := by
  rw [ParsedFiles.parseSource_eq]
  cases hparse : parser source with
  | error e =>
    rw [parseSource_of_error hparse, hcounts, hcalls]
    exact ⟨rfl, rfl⟩
  | ok tree =>
    rw [parseSource_of_ok hparse, hcounts, hcalls]
    exact ⟨rfl, rfl⟩

theorem holds_parseSource (h : Holds s c) (parser : GuestParser τ) (source : SourceText) :
    (s.parseSource parser source).1 = (c.parseSource parser source).1 ∧
      Holds (s.parseSource parser source).2 (c.parseSource parser source).2 := by
  obtain ⟨hanswer, hleft⟩ := parseSource_same s c h.counts h.calls parser source
  refine ⟨hanswer, ?_⟩
  rw [hleft]
  refine ⟨fun k => ?_, rfl, rfl⟩
  rw [ParsedFiles.slots_parseSource]
  exact h.slots k

theorem opened_parseSource (h : Opened f s c) (parser : GuestParser τ) (source : SourceText) :
    (s.parseSource parser source).1 = (c.parseSource parser source).1 ∧
      Opened f (s.parseSource parser source).2 (c.parseSource parser source).2 := by
  obtain ⟨hanswer, hleft⟩ := parseSource_same s c h.counts h.calls parser source
  refine ⟨hanswer, ?_⟩
  rw [hleft]
  refine ⟨?_, fun k hk => ?_, rfl, rfl⟩
  · rw [ParsedFiles.cached, ParsedFiles.slots_parseSource]
    exact h.own
  · rw [ParsedFiles.slots_parseSource]
    exact h.others k hk

theorem opened_fill (h : Opened f s c) (t : ParsedTree τ) :
    Opened f (s.fill f t) (c.store f t) := by
  refine ⟨?_, ?_, ?_, h.calls⟩
  · rw [ParsedFiles.cached_store, if_pos rfl]
    exact (Table.get?_insert _ _ _ _).trans (if_pos rfl)
  · intro k hk
    have hs := Table.get?_insert s.slots f.key k (some t)
    have hc := Table.get?_insert c.slots f.key k t
    rw [if_neg hk] at hs hc
    rw [fill, ParsedFiles.store, hs, hc]
    exact h.others k hk
  · simp only [fill, ParsedFiles.store, h.cached, h.counts]

theorem opened_update (h : Opened f s c) (parser : GuestParser τ) (text : String) :
    (s.update parser f text).1 = (c.update parser f text).1 ∧
      Opened f (s.update parser f text).2 (c.update parser f text).2 := by
  rw [update, ParsedFiles.update, h.cached]
  cases (c.cached f).filter fun t => t.source.text = text with
  | some t =>
    refine ⟨rfl, h.own, h.others, ?_, h.calls⟩
    dsimp only [countHit, ParsedFiles.countHit]
    rw [h.counts]
  | none =>
    obtain ⟨hanswer, hopened⟩ := opened_parseSource h parser (.of (some f) text)
    rw [ParsedFiles.parse]
    generalize s.parseSource parser (.of (some f) text) = r at hanswer hopened ⊢
    generalize c.parseSource parser (.of (some f) text) = q at hanswer hopened ⊢
    obtain ⟨answer, u⟩ := r
    obtain ⟨_, d⟩ := q
    obtain rfl : answer = _ := hanswer
    cases answer with
    | error e => exact ⟨rfl, hopened⟩
    | ok t => exact ⟨rfl, opened_fill hopened t⟩

theorem opened_refresh (h : Opened f s c) (parser : GuestParser τ) (content : γ) :
    (s.refresh parser content f).1 = (c.get parser content f).1 ∧
      Opened f (s.refresh parser content f).2 (c.get parser content f).2 := by
  rw [refresh, ParsedFiles.get]
  cases ContentProvider.readText content f with
  | error e => exact ⟨rfl, h⟩
  | ok raw =>
    obtain ⟨hanswer, hopened⟩ := opened_update h parser (Text.normalizeText raw).text
    exact ⟨congrArg (Except.mapError SourceError.parse) hanswer, hopened⟩

theorem holds_get (h : Holds s c) (parser : GuestParser τ) (content : γ) (f : GuestFile) :
    (s.get parser content f).1 = (c.get parser content f).1 ∧
      Holds (s.get parser content f).2 (c.get parser content f).2 := by
  obtain ⟨hanswer, hopened⟩ := opened_refresh (opened_reserve h f) parser content
  rw [get]
  split
  · rename_i e _ hr
    rw [hr] at hanswer hopened
    exact ⟨hanswer, holds_release hopened⟩
  · rename_i t _ hr
    rw [hr] at hanswer hopened
    refine ⟨hanswer, hopened.holds ?_⟩
    rw [ParsedFiles.cached_of_get hanswer.symm]
    rfl

theorem holds_evict (h : Holds s c) (f : GuestFile) :
    (s.evict f).1 = (c.evict f).1 ∧ Holds (s.evict f).2 (c.evict f).2 := by
  have hslot := h.slots f.key
  cases hc : c.slots.get? f.key with
  | none =>
    rw [hc] at hslot
    rw [evict, hslot, ParsedFiles.evict, ParsedFiles.cached, hc]
    exact ⟨rfl, h⟩
  | some t =>
    rw [hc] at hslot
    rw [evict, hslot, ParsedFiles.evict, ParsedFiles.cached, hc]
    refine ⟨rfl, fun k => ?_, ?_, h.calls⟩
    · dsimp only [Option.map_some]
      rw [Table.get?_erase, Table.get?_erase]
      split
      · rfl
      · exact h.slots k
    · rw [← h.counts]
      rfl

theorem foldl_drop {slots : List (GuestFile.Key × Option (ParsedTree τ))}
    (hfull : ∀ e ∈ slots, e.2.isSome) (n : ParseCounts) :
    slots.foldl (fun n e => n.drop e.2) n =
      { n with cachedFiles := n.cachedFiles - slots.length } := by
  induction slots generalizing n with
  | nil => rfl
  | cons e slots ih =>
    obtain ⟨he, hrest⟩ := List.forall_mem_cons.1 hfull
    rw [List.foldl_cons, ih hrest, ParseCounts.drop, if_pos he, List.length_cons]
    simp only [Nat.sub_sub, Nat.add_comm]

theorem Holds.full_entries (h : Holds s c) : ∀ e ∈ s.slots.entries, e.2.isSome :=
  fun _ he => h.full (Table.get?_of_mem he)

theorem holds_clear (h : Holds s c) : Holds s.clear c.clear := by
  refine ⟨fun _ => rfl, ?_, h.calls⟩
  have hlen : s.slots.entries.length = c.slots.size := h.size
  rw [clear, ParsedFiles.clear, foldl_drop h.full_entries, h.counts, hlen]

end SlottedFiles

end ClasspathSymbols
