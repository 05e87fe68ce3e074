import ClasspathSymbols.ParsedFiles.Session
import ClasspathSymbols.Proofs.ParsedFiles.Get
import Mathlib.Data.List.Induction

/-! # Parsed files are coherent

An editor changes buffers, and what is below them, and asks for trees. What it did and got is its
past. The past alone tells which text is read for a file and which tree is kept for it: those of
the last thing that happened to the file. -/
namespace ClasspathSymbols

/-- Buffers over what is below them, and the trees of what they show. -/
structure Editor (β τ : Type) where
  overlay : Overlay β
  parsed : ParsedFiles τ

namespace Editor

inductive Action (β : Type) where
  | setBuffer (f : GuestFile) (text : String)
  | closeBuffer (f : GuestFile)
  | change (base : β)
  | get (f : GuestFile)
  | cached (f : GuestFile)
  | parse (f : GuestFile) (text : String)
  | parseDetached (text : String)
  | evict (f : GuestFile)
  | clear

structure Event (β τ : Type) where
  action : Action β
  got : Option (ParsedTree τ)

variable {β τ : Type} [ContentProvider β] {parser : GuestParser τ}

def start (base : β) : Editor β τ := ⟨⟨base, .empty⟩, .empty⟩

def ask (e : Editor β τ) (parser : GuestParser τ) (f : GuestFile) :
    Except SourceError (ParsedTree τ) × ParsedFiles τ := e.parsed.get parser e.overlay f

def act (parser : GuestParser τ) (e : Editor β τ) : Action β → Editor β τ
  | .setBuffer f text => { e with overlay := e.overlay.setBuffer f text }
  | .closeBuffer f => { e with overlay := (e.overlay.closeBuffer f).2 }
  | .change base => { e with overlay := { e.overlay with base } }
  | .get f => { e with parsed := (e.ask parser f).2 }
  | .cached _ => e
  | .parse f text => { e with parsed := (e.parsed.parse parser f text).2 }
  | .parseDetached text => { e with parsed := (e.parsed.parseDetached parser text).2 }
  | .evict f => { e with parsed := (e.parsed.evict f).2 }
  | .clear => { e with parsed := e.parsed.clear }

def event (parser : GuestParser τ) (e : Editor β τ) (a : Action β) : Event β τ where
  action := a
  got := match a with
    | .get f => (e.ask parser f).1.toOption
    | _ => none

def after (parser : GuestParser τ) (e : Editor β τ) (actions : List (Action β)) : Editor β τ :=
  actions.foldl (act parser) e

def past (parser : GuestParser τ) (e : Editor β τ) : List (Action β) → List (Event β τ)
  | [] => []
  | a :: rest => e.event parser a :: past parser (e.act parser a) rest

theorem after_snoc (e : Editor β τ) (actions : List (Action β)) (a : Action β) :
    e.after parser (actions ++ [a]) = (e.after parser actions).act parser a := by
  simp [after]

theorem past_snoc (e : Editor β τ) (actions : List (Action β)) (a : Action β) :
    e.past parser (actions ++ [a]) =
      e.past parser actions ++ [(e.after parser actions).event parser a] := by
  induction actions generalizing e with
  | nil => rfl
  | cons b actions ih =>
    rw [List.cons_append, past, ih, past, List.cons_append]
    rfl

/-- The last value in the past, where some events give a value and some take it away. -/
def lastOf {α : Type} (effect : Event β τ → Option (Option α)) (past : List (Event β τ)) :
    Option α := (past.filterMap effect).getLast?.join

omit [ContentProvider β] in
theorem lastOf_snoc {α : Type} (effect : Event β τ → Option (Option α)) (past : List (Event β τ))
    (x : Event β τ) : lastOf effect (past ++ [x]) = (effect x).getD (lastOf effect past) := by
  rw [lastOf, List.filterMap_append]
  cases h : effect x with
  | none => simp [lastOf, h]
  | some v => simp [h]

/-- What the past made of something is what a run shows, if each action does as its event says. -/
theorem lastOf_after {α : Type} {effect : Event β τ → Option (Option α)}
    {shown : Editor β τ → Option α} {base : β} (hstart : shown (start base) = none)
    (hact : ∀ e a, shown (e.act parser a) = (effect (e.event parser a)).getD (shown e))
    (actions : List (Action β)) :
    shown ((start base).after parser actions) =
      lastOf effect ((start base).past parser actions) := by
  induction actions using List.reverseRecOn with
  | nil => exact hstart
  | append_singleton actions a ih => rw [after_snoc, past_snoc, lastOf_snoc, hact, ih]

/-- A buffer of the file was opened with a text, or closed. -/
def Event.bufferOf (f : GuestFile) (x : Event β τ) : Option (Option String) :=
  match x.action with
  | .setBuffer g text => if f.key = g.key then some (some text) else none
  | .closeBuffer g => if f.key = g.key then some none else none
  | _ => none

/-- A tree was got for the file, or the file was evicted, alone or with all others. -/
def Event.treeOf (f : GuestFile) (x : Event β τ) : Option (Option (ParsedTree τ)) :=
  match x.action with
  | .get g => if f.key = g.key then x.got.map some else none
  | .evict g => if f.key = g.key then some none else none
  | .clear => some none
  | _ => none

theorem buffer_act (f : GuestFile) (e : Editor β τ) (a : Action β) :
    (e.act parser a).overlay.buffers.get? f.key =
      ((e.event parser a).bufferOf f).getD (e.overlay.buffers.get? f.key) := by
  cases a with
  | setBuffer g text =>
    have hi := Table.get?_insert e.overlay.buffers g.key f.key text
    simp only [act, Overlay.setBuffer, hi, event, Event.bufferOf]
    split <;> rfl
  | closeBuffer g =>
    have he := Table.get?_erase e.overlay.buffers g.key f.key
    simp only [act, Overlay.closeBuffer, he, event, Event.bufferOf]
    split <;> rfl
  | _ => rfl

theorem tree_ask (f g : GuestFile) (e : Editor β τ) :
    (e.ask parser g).2.cached f =
      (if f.key = g.key then (e.ask parser g).1.toOption.map some else none).getD
        (e.parsed.cached f) := by
  have ho := e.parsed.get_outcome parser e.overlay g
  rw [ask]
  generalize e.parsed.get parser e.overlay g = r at ho ⊢
  obtain ⟨answer, d⟩ := r
  dsimp only at ho ⊢
  by_cases hf : f.key = g.key
  · rw [if_pos hf]
    cases ho with
    | unreadable | rejected => rfl
    | hit _ ht => exact (e.parsed.cached_congr hf).trans ht
    | parsed _ _ _ hs => rw [hs, if_pos hf]; rfl
  · rw [if_neg hf]
    cases ho with
    | unreadable | rejected | hit => rfl
    | parsed _ _ _ hs => rw [hs, if_neg hf]; rfl

theorem tree_act (f : GuestFile) (e : Editor β τ) (a : Action β) :
    (e.act parser a).parsed.cached f =
      ((e.event parser a).treeOf f).getD (e.parsed.cached f) := by
  cases a with
  | get g => exact tree_ask f g e
  | parse g text =>
    simp only [act, ParsedFiles.cached, ParsedFiles.parse, ParsedFiles.slots_parseSource]
    rfl
  | parseDetached text =>
    simp only [act, ParsedFiles.cached, ParsedFiles.parseDetached, ParsedFiles.slots_parseSource]
    rfl
  | evict g =>
    simp only [act, ParsedFiles.cached_evict, event, Event.treeOf]
    split <;> rfl
  | _ => rfl

/-- The tree is of the file, comes from the parser, and has the number of an earlier parse. -/
structure SoundTree (parser : GuestParser τ) (parses : Nat) (f : GuestFile) (t : ParsedTree τ) :
    Prop where
  file : t.source.file.map GuestFile.key = some f.key
  parsed : parser t.source = .ok t.tree
  numbered : t.serial < parses

def Sound (parser : GuestParser τ) (c : ParsedFiles τ) : Prop :=
  ∀ f t, c.cached f = some t → SoundTree parser c.counts.parses f t

theorem sound_empty : Sound parser (.empty : ParsedFiles τ) := by
  intro f t h
  cases h

theorem Sound.kept {c d : ParsedFiles τ} (h : Sound parser c)
    (hs : ∀ f t, d.cached f = some t → c.cached f = some t)
    (hn : c.counts.parses ≤ d.counts.parses) : Sound parser d := by
  intro f t ht
  obtain ⟨hfile, hparsed, hnumber⟩ := h f t (hs f t ht)
  exact ⟨hfile, hparsed, Nat.lt_of_lt_of_le hnumber hn⟩

theorem sound_parseSource {c : ParsedFiles τ} (h : Sound parser c) (source : SourceText) :
    Sound parser (c.parseSource parser source).2 := by
  refine h.kept (fun f t ht => ?_) (c.parses_parseSource parser source)
  rwa [ParsedFiles.cached, ParsedFiles.slots_parseSource] at ht

theorem sound_ask {e : Editor β τ} (h : Sound parser e.parsed) (f : GuestFile) :
    Sound parser (e.ask parser f).2 := by
  have ho := e.parsed.get_outcome parser e.overlay f
  rw [ask]
  generalize e.parsed.get parser e.overlay f = r at ho ⊢
  obtain ⟨answer, d⟩ := r
  dsimp only at ho ⊢
  cases ho with
  | unreadable => exact h
  | hit | rejected => exact h.kept (fun _ _ ht => ht) (Nat.le_refl _)
  | parsed _ _ hparse hs _ hc =>
    intro g t ht
    rw [hs] at ht
    rw [hc]
    by_cases hg : g.key = f.key
    · rw [if_pos hg] at ht
      obtain rfl := Option.some.inj ht
      exact ⟨congrArg some hg.symm, hparse, Nat.lt_succ_self _⟩
    · rw [if_neg hg] at ht
      obtain ⟨hfile, hparsed, hnumber⟩ := h g t ht
      exact ⟨hfile, hparsed, Nat.lt_succ_of_lt hnumber⟩

theorem sound_act {e : Editor β τ} (h : Sound parser e.parsed) (a : Action β) :
    Sound parser (e.act parser a).parsed := by
  cases a with
  | setBuffer | closeBuffer | change | cached => exact h
  | get f => exact sound_ask h f
  | parse f text => exact sound_parseSource h _
  | parseDetached text => exact sound_parseSource h _
  | evict f =>
    refine h.kept (fun g t ht => ?_) (Nat.le_of_eq (ParsedFiles.parses_evict _ f).symm)
    rw [act, ParsedFiles.cached_evict] at ht
    split at ht
    · cases ht
    · exact ht
  | clear => exact h.kept (fun g t ht => by cases ht) (Nat.le_refl _)

theorem sound_after (base : β) (actions : List (Action β)) :
    Sound parser ((start base).after parser actions).parsed := by
  induction actions using List.reverseRecOn with
  | nil => exact sound_empty
  | append_singleton actions a ih =>
    rw [after_snoc]
    exact sound_act ih a

/-- The tree that is kept for the file is the tree of the text that is read for it now. -/
def IsCurrent (e : Editor β τ) (f : GuestFile) : Prop :=
  ∃ raw t, ContentProvider.readText e.overlay f = .ok raw ∧ e.parsed.cached f = some t ∧
    t.source.text = (Text.normalizeText raw).text

/-- What an editor with this past promises about a file. -/
structure Coherent (parser : GuestParser τ) (e : Editor β τ) (past : List (Event β τ))
    (f : GuestFile) : Prop where
  /-- The text that is read is that of the open buffer, or what is found below the buffers. -/
  reads : ContentProvider.readText e.overlay f =
    match lastOf (Event.bufferOf f) past with
    | some text => .ok text
    | none => ContentProvider.readText e.overlay.base f
  keeps : e.parsed.cached f = lastOf (Event.treeOf f) past
  gets : ∀ t, (e.ask parser f).1 = .ok t → ∃ raw,
    ContentProvider.readText e.overlay f = .ok raw ∧
    t.source.text = (Text.normalizeText raw).text ∧
    t.source.file.map GuestFile.key = some f.key ∧ parser t.source = .ok t.tree
  /-- The kept tree is handed out, without a call of the parser, exactly if it is current. -/
  hits : (∃ t, (e.ask parser f).1 = .ok t ∧ e.parsed.cached f = some t ∧
    (e.ask parser f).2.calls = e.parsed.calls) ↔ e.IsCurrent f
  /-- Otherwise the parser is called once. What it accepts is got, and the tree that it makes is
  kept and was not there. -/
  parses : ∀ raw, ContentProvider.readText e.overlay f = .ok raw → ¬ e.IsCurrent f →
    (e.ask parser f).2.calls = e.parsed.calls + 1 ∧
    (∀ tree, parser (f.source raw) = .ok tree → ∃ t, (e.ask parser f).1 = .ok t ∧
      t.source = f.source raw ∧ t.tree = tree) ∧
    ∀ t, (e.ask parser f).1 = .ok t → (e.ask parser f).2.cached f = some t ∧
      ∀ g u, e.parsed.cached g = some u → u.serial ≠ t.serial
  apart : ∀ text, (e.parsed.parse parser f text).2.slots = e.parsed.slots ∧
    (e.parsed.parseDetached parser text).2.slots = e.parsed.slots

theorem gets_of_sound {e : Editor β τ} (h : Sound parser e.parsed) {f : GuestFile}
    {t : ParsedTree τ} (ht : (e.ask parser f).1 = .ok t) : ∃ raw,
      ContentProvider.readText e.overlay f = .ok raw ∧
      t.source.text = (Text.normalizeText raw).text ∧
      t.source.file.map GuestFile.key = some f.key ∧ parser t.source = .ok t.tree := by
  have ho := e.parsed.get_outcome parser e.overlay f
  rw [ask] at ht
  generalize e.parsed.get parser e.overlay f = r at ho ht
  obtain ⟨answer, d⟩ := r
  dsimp only at ho ht
  cases ho with
  | unreadable | rejected => cases ht
  | hit hread hkept htext =>
    cases ht
    exact ⟨_, hread, htext, (h f t hkept).file, (h f t hkept).parsed⟩
  | parsed hread _ hparse =>
    cases ht
    exact ⟨_, hread, rfl, rfl, hparse⟩

theorem not_isCurrent_of_due {e : Editor β τ} {f : GuestFile} {raw : String}
    (hread : ContentProvider.readText e.overlay f = .ok raw) (hdue : e.parsed.Due f raw) :
    ¬ e.IsCurrent f := by
  rintro ⟨raw', t, hread', hkept, htext⟩
  rw [hread] at hread'
  obtain rfl := Except.ok.inj hread'
  exact hdue t hkept htext

theorem hits_iff (e : Editor β τ) (f : GuestFile) :
    (∃ t, (e.ask parser f).1 = .ok t ∧ e.parsed.cached f = some t ∧
      (e.ask parser f).2.calls = e.parsed.calls) ↔ e.IsCurrent f := by
  have ho := e.parsed.get_outcome parser e.overlay f
  rw [ask]
  generalize e.parsed.get parser e.overlay f = r at ho ⊢
  obtain ⟨answer, d⟩ := r
  dsimp only at ho ⊢
  cases ho with
  | unreadable hread =>
    constructor
    · rintro ⟨t, ht, -⟩
      cases ht
    · rintro ⟨raw, t, hread', -⟩
      rw [hread] at hread'
      cases hread'
  | hit hread hkept htext =>
    exact ⟨fun _ => ⟨_, _, hread, hkept, htext⟩, fun _ => ⟨_, rfl, hkept, rfl⟩⟩
  | rejected hread hdue =>
    constructor
    · rintro ⟨t, ht, -⟩
      cases ht
    · intro hcurrent
      exact absurd hcurrent (not_isCurrent_of_due hread hdue)
  | parsed hread hdue _ _ hcalls =>
    constructor
    · rintro ⟨t, -, -, hc⟩
      rw [hcalls] at hc
      omega
    · intro hcurrent
      exact absurd hcurrent (not_isCurrent_of_due hread hdue)

theorem parses_of_sound {e : Editor β τ} (h : Sound parser e.parsed) {f : GuestFile}
    {raw : String} (hread : ContentProvider.readText e.overlay f = .ok raw)
    (hn : ¬ e.IsCurrent f) :
    (e.ask parser f).2.calls = e.parsed.calls + 1 ∧
      (∀ tree, parser (f.source raw) = .ok tree → ∃ t, (e.ask parser f).1 = .ok t ∧
        t.source = f.source raw ∧ t.tree = tree) ∧
      ∀ t, (e.ask parser f).1 = .ok t → (e.ask parser f).2.cached f = some t ∧
        ∀ g u, e.parsed.cached g = some u → u.serial ≠ t.serial := by
  have ho := e.parsed.get_outcome parser e.overlay f
  rw [ask]
  generalize e.parsed.get parser e.overlay f = r at ho ⊢
  obtain ⟨answer, d⟩ := r
  dsimp only at ho ⊢
  cases ho with
  | unreadable herror =>
    rw [hread] at herror
    cases herror
  | hit hread hkept htext => exact absurd ⟨_, _, hread, hkept, htext⟩ hn
  | rejected hread' _ hrejected =>
    obtain rfl := Except.ok.inj (hread.symm.trans hread')
    refine ⟨rfl, fun tree htree => ?_, fun t ht => ?_⟩
    · rw [hrejected] at htree
      cases htree
    · cases ht
  | parsed hread' _ hparse hs hcalls =>
    obtain rfl := Except.ok.inj (hread.symm.trans hread')
    refine ⟨hcalls, fun tree htree => ?_, fun t ht => ?_⟩
    · exact ⟨_, rfl, rfl, Except.ok.inj (hparse.symm.trans htree)⟩
    · cases ht
      exact ⟨by rw [hs, if_pos rfl], fun g u hu => Nat.ne_of_lt (h g u hu).numbered⟩

/-- Whatever was done in an editor, a tree that is asked for is that of the text read now, made by
the parser from just this text, and it is the tree got last for the file unless the text is another
one or the file has been evicted. -/
theorem parsed_files_are_coherent (parser : GuestParser τ) (base : β) (actions : List (Action β))
    (f : GuestFile) :
    Coherent parser ((start base).after parser actions) ((start base).past parser actions) f := by
  have h : Sound parser ((start base).after parser actions).parsed := sound_after base actions
  have hbuffer := @lastOf_after β τ _ parser String (Event.bufferOf f)
    (fun e => e.overlay.buffers.get? f.key) base rfl (buffer_act f) actions
  have htree := @lastOf_after β τ _ parser (ParsedTree τ) (Event.treeOf f)
    (fun e => e.parsed.cached f) base rfl (tree_act f) actions
  constructor
  · rw [← hbuffer]
    rfl
  · exact htree
  · exact fun t => gets_of_sound h
  · exact hits_iff _ f
  · exact fun raw => parses_of_sound h
  · intro text
    exact ⟨ParsedFiles.slots_parseSource _ _ _, ParsedFiles.slots_parseSource _ _ _⟩

end Editor

namespace ParseSession

def editor (s : ParseSession) : Editor Files (List String) := ⟨s.overlay, s.parsed⟩

def actions (s : ParseSession) : ParseStep → List (Editor.Action Files)
  | .write file content =>
    [.change (s.overlay.base.write (s.overlay.base.locate file) content)]
  | .delete file =>
    match s.overlay.base.resolve file with
    | .ok l => [.change (s.overlay.base.remove l)]
    | .error _ => []
  | .setBuffer f text => [.setBuffer f text]
  | .closeBuffer f => [.closeBuffer f]
  | .read _ => []
  | .get f => [.get f]
  | .cached f => [.cached f]
  | .evict f => [.evict f]
  | .clear => [.clear]
  | .parse f text => [.parse f text]
  | .detached text => [.parseDetached text]

theorem editor_step (s : ParseSession) (p : ParseStep) :
    (s.step p).2.editor = s.editor.after parseWords (s.actions p) := by
  cases p with
  | delete file =>
    simp only [step, actions]
    cases s.overlay.base.resolve file <;> rfl
  | read f =>
    simp only [step]
    cases s.overlay.readText f <;> rfl
  | get f =>
    simp only [step]
    split <;> rename_i h <;> simp [editor, actions, Editor.after, Editor.act, Editor.ask, h]
  | _ => rfl

theorem editor_name (s : ParseSession) (f : Option GuestFile) : (s.name f).editor = s.editor := by
  cases f with
  | none => rfl
  | some f =>
    rw [name]
    split <;> rfl

theorem run_cons (s : ParseSession) (p : ParseStep) (steps : List ParseStep) :
    s.run (p :: steps) = (s.name p.file?).step p :: ((s.name p.file?).step p).2.run steps := rfl

/-- After each step a session is an editor on which some actions have been done since it began. -/
theorem editor_run (s : ParseSession) (steps : List ParseStep) :
    ∀ x ∈ s.run steps, ∃ done, x.2.editor = s.editor.after parseWords done := by
  induction steps generalizing s with
  | nil => intro x hx; cases hx
  | cons p steps ih =>
    have hstep := editor_step (s.name p.file?) p
    rw [editor_name] at hstep
    rw [run_cons]
    generalize (s.name p.file?).step p = y at hstep ⊢
    intro x hx
    cases hx with
    | head => exact ⟨_, hstep⟩
    | tail _ hx =>
      obtain ⟨done, hdone⟩ := ih y.2 x hx
      refine ⟨(s.name p.file?).actions p ++ done, ?_⟩
      rw [hdone, hstep, Editor.after, Editor.after, Editor.after, List.foldl_append]

end ParseSession

end ClasspathSymbols
