import ClasspathSymbols.ParsedFiles
import ClasspathSymbols.Proofs.Text.LineEnding

/-! # What asking for a tree does

The tree of a file is the one that is kept if its text is the text read, and is parsed anew
otherwise. `Outcome` says once what each ending answers and leaves behind. -/
namespace ClasspathSymbols

def GuestFile.source (f : GuestFile) (raw : String) : SourceText :=
  ⟨some f, (Text.normalizeText raw).text⟩

theorem SourceText.of_normalized (f : GuestFile) (raw : String) :
    SourceText.of (some f) (Text.normalizeText raw).text = f.source raw := by
  rw [SourceText.of, Text.normalizeText_normalizeText, GuestFile.source]

namespace ParsedFiles

variable {γ τ : Type} [ContentProvider γ]

theorem cached_congr (c : ParsedFiles τ) {f g : GuestFile} (h : g.key = f.key) :
    c.cached g = c.cached f := by
  rw [cached, cached, h]

theorem cached_store (c : ParsedFiles τ) (f g : GuestFile) (t : ParsedTree τ) :
    (c.store f t).cached g = if g.key = f.key then some t else c.cached g :=
  Table.get?_insert _ _ _ _

theorem cached_evict (c : ParsedFiles τ) (f g : GuestFile) :
    (c.evict f).2.cached g = if g.key = f.key then none else c.cached g := by
  rw [evict]
  split
  · rename_i h
    by_cases hg : g.key = f.key
    · rw [if_pos hg, c.cached_congr hg, h]
    · rw [if_neg hg]
  · exact Table.get?_erase _ _ _

theorem parses_evict (c : ParsedFiles τ) (f : GuestFile) :
    (c.evict f).2.counts.parses = c.counts.parses := by
  rw [evict]
  split <;> rfl

def countCall (c : ParsedFiles τ) : ParsedFiles τ := { c with calls := c.calls + 1 }

def countParse (c : ParsedFiles τ) : ParsedFiles τ :=
  { c with counts := { c.counts with parses := c.counts.parses + 1 } }

theorem parseSource_eq (c : ParsedFiles τ) (parser : GuestParser τ) (source : SourceText) :
    c.parseSource parser source = match parser source with
      | .error e => (.error e, c.countCall)
      | .ok tree => (.ok ⟨c.counts.parses, source, tree⟩, c.countCall.countParse) := by
  rw [parseSource]
  cases parser source <;> rfl

theorem slots_parseSource (c : ParsedFiles τ) (parser : GuestParser τ) (source : SourceText) :
    (c.parseSource parser source).2.slots = c.slots := by
  rw [parseSource_eq]
  cases parser source <;> rfl

theorem parses_parseSource (c : ParsedFiles τ) (parser : GuestParser τ) (source : SourceText) :
    c.counts.parses ≤ (c.parseSource parser source).2.counts.parses := by
  rw [parseSource_eq]
  cases parser source with
  | error e => exact Nat.le_refl _
  | ok tree => exact Nat.le_succ _

/-- What is kept for the file, if anything, has another text. -/
def Due (c : ParsedFiles τ) (f : GuestFile) (raw : String) : Prop :=
  ∀ t, c.cached f = some t → t.source.text ≠ (Text.normalizeText raw).text

/-- All that asking for the tree of a file can end in: its answer, what is kept and the counts. -/
inductive Outcome (c : ParsedFiles τ) (parser : GuestParser τ) (content : γ) (f : GuestFile) :
    Except SourceError (ParsedTree τ) → ParsedFiles τ → Prop where
  | unreadable {e} : ContentProvider.readText content f = .error e →
      Outcome c parser content f (.error (.content e)) c
  | hit {raw t} : ContentProvider.readText content f = .ok raw → c.cached f = some t →
      t.source.text = (Text.normalizeText raw).text → Outcome c parser content f (.ok t) c.countHit
  | rejected {raw e} : ContentProvider.readText content f = .ok raw → c.Due f raw →
      parser (f.source raw) = .error e → Outcome c parser content f (.error (.parse e)) c.countCall
  | parsed {raw tree d} : ContentProvider.readText content f = .ok raw → c.Due f raw →
      parser (f.source raw) = .ok tree →
      (∀ g, d.cached g =
        if g.key = f.key then some ⟨c.counts.parses, f.source raw, tree⟩ else c.cached g) →
      d.calls = c.calls + 1 →
      d.counts = { c.counts with
        parses := c.counts.parses + 1
        cachedFiles := c.counts.cachedFiles + if (c.cached f).isSome then 0 else 1 } →
      Outcome c parser content f (.ok ⟨c.counts.parses, f.source raw, tree⟩) d

theorem counts_store (c : ParsedFiles τ) (f : GuestFile) (t : ParsedTree τ) :
    (c.store f t).counts = { c.counts with
      cachedFiles := c.counts.cachedFiles + if (c.cached f).isSome then 0 else 1 } := by
  simp only [store]
  split <;> rfl

theorem get_of_error {c : ParsedFiles τ} {parser : GuestParser τ} {content : γ} {f : GuestFile}
    {e : ContentError} (h : ContentProvider.readText content f = .error e) :
    c.get parser content f = (.error (.content e), c) := by
  rw [get, h]

theorem get_of_ok {c : ParsedFiles τ} {parser : GuestParser τ} {content : γ} {f : GuestFile}
    {raw : String} (h : ContentProvider.readText content f = .ok raw) :
    c.get parser content f = ((c.update parser f (Text.normalizeText raw).text).1.mapError .parse,
      (c.update parser f (Text.normalizeText raw).text).2) := by
  rw [get, h]

theorem get_outcome (c : ParsedFiles τ) (parser : GuestParser τ) (content : γ) (f : GuestFile) :
    Outcome c parser content f (c.get parser content f).1 (c.get parser content f).2 := by
  cases hread : ContentProvider.readText content f with
  | error e =>
    rw [get_of_error hread]
    exact .unreadable hread
  | ok raw =>
    rw [get_of_ok hread, update]
    split
    · rename_i t hkept
      obtain ⟨hcached, htext⟩ := Option.filter_eq_some_iff.1 hkept
      exact .hit hread hcached (of_decide_eq_true htext)
    · rename_i hnone
      have hdue : c.Due f raw := by
        intro t ht htext
        rw [ht] at hnone
        simp [htext] at hnone
      rw [parse, SourceText.of_normalized, parseSource_eq]
      cases hparse : parser (f.source raw) with
      | error e => exact .rejected hread hdue hparse
      | ok tree =>
        exact .parsed hread hdue hparse (cached_store _ f · _) rfl (counts_store _ _ _)

theorem cached_of_get {c : ParsedFiles τ} {parser : GuestParser τ} {content : γ} {f : GuestFile}
    {t : ParsedTree τ} (h : (c.get parser content f).1 = .ok t) :
    (c.get parser content f).2.cached f = some t := by
  have ho := c.get_outcome parser content f
  generalize c.get parser content f = r at ho h ⊢
  obtain ⟨answer, d⟩ := r
  dsimp only at ho h ⊢
  cases ho with
  | unreadable | rejected => cases h
  | hit _ hkept =>
    cases h
    exact hkept
  | parsed _ _ _ hs =>
    cases h
    rw [hs, if_pos rfl]

end ParsedFiles

end ClasspathSymbols
