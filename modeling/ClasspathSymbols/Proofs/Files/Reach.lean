import ClasspathSymbols.Proofs.Files.Tree
import Mathlib.Data.List.Infix

/-! # What a walk gets to

A walk goes down through directories that it can open and that no rule drops, and every path on the
way begins with the root as written. So two spellings of a root get to the same files where both
leave room for what is there, and not always where one of them does not. -/
namespace ClasspathSymbols

namespace Files

/-- A file that the names lead to from `top`, where a walk starts that writes it `root`. They lead
through directories that the walk can open, and the rules drop neither one of these nor the file. -/
structure InReach (fs : Files) (root : Path) (top : Location) (way : List String) : Prop where
  below : way ≠ []
  regular : ∃ content, fs.entryAt (top ++ way) = some (.file content)
  entered : ∀ k, 0 < k → k < way.length →
    fs.IsOpened root top (way.take k) ∧ ¬ Ignore.drops fs root top (way.take k) true
  kept : ¬ Ignore.drops fs root top way false

variable {fs : Files} {root p q : Path} {top : Location} {way : List String}

theorem reaches_iff (hne : way ≠ []) :
    fs.reaches root top way ↔
      (∀ k, 0 < k → k < way.length →
        fs.IsOpened root top (way.take k) ∧ ¬ Ignore.drops fs root top (way.take k) true) ∧
      ¬ Ignore.drops fs root top way false := by
  have hlength := List.length_pos_iff.2 hne
  simp only [reaches, List.all_eq_true, List.mem_range, Bool.and_eq_true, Bool.or_eq_true,
    Bool.not_eq_true', decide_eq_false_iff_not, decide_eq_true_eq, Bool.not_eq_true]
  constructor
  · intro h
    refine ⟨fun k hpos hk => ?_, ?_⟩
    · have hstep := h (k - 1) (by omega)
      rw [Nat.sub_add_cancel hpos, decide_eq_true hk] at hstep
      exact ⟨hstep.1.resolve_left (not_not.2 hk), hstep.2⟩
    · have hlast := (h (way.length - 1) (by omega)).2
      rwa [Nat.sub_add_cancel hlength, List.take_length, decide_eq_false (Nat.lt_irrefl _)] at hlast
  · rintro ⟨hentered, hkept⟩ k hk
    by_cases hinner : k + 1 < way.length
    · obtain ⟨hopened, hdrops⟩ := hentered (k + 1) (Nat.succ_pos k) hinner
      rw [decide_eq_true hinner]
      exact ⟨Or.inr hopened, hdrops⟩
    · have hall : way.take (k + 1) = way := List.take_of_length_le (Nat.le_of_not_lt hinner)
      rw [decide_eq_false hinner, hall]
      exact ⟨Or.inl hinner, hkept⟩

theorem mem_walk_iff (hroot : fs.resolve root = .ok top) (hdir : fs.entryAt top = some .directory)
    {f : Found} : f ∈ fs.walk root ↔ ¬ root.Same standardInput ∧
      fs.InReach root top f.below ∧ f.path = root.join ("/".intercalate f.below) := by
  by_cases hinput : root.Same standardInput
  · rw [walk, if_pos hinput]
    exact iff_of_false List.not_mem_nil fun h => h.1 hinput
  rw [walk_eq_filter hinput hroot hdir, List.mem_map]
  simp only [List.mem_filter, mem_filesBelow]
  constructor
  · rintro ⟨b, ⟨⟨hne, hfile⟩, hreaches⟩, rfl⟩
    obtain ⟨hentered, hkept⟩ := (reaches_iff hne).1 hreaches
    exact ⟨hinput, ⟨hne, ⟨_, hfile⟩, hentered, hkept⟩, rfl⟩
  · rintro ⟨-, hreach, hpath⟩
    obtain ⟨content, hfile⟩ := hreach.regular
    refine ⟨⟨f.below, content⟩, ⟨⟨hreach.below, hfile⟩, ?_⟩, ?_⟩
    · exact (reaches_iff hreach.below).2 ⟨hreach.entered, hreach.kept⟩
    · rw [Below.found, Below.entry, ← hpath]

/-- Behind the root as written there is room for every end of every location. -/
def HasRoom (fs : Files) (root : Path) : Prop :=
  ∀ l ∈ fs.table.keys, ∀ way ∈ l.tails, Fits (root.join ("/".intercalate way))

instance (fs : Files) (root : Path) : Decidable (fs.HasRoom root) :=
  inferInstanceAs (Decidable (∀ l ∈ fs.table.keys, ∀ way ∈ l.tails, _))

theorem HasRoom.fits (h : fs.HasRoom root) (hne : way ≠ []) {e : Entry}
    (hentry : fs.entryAt (top ++ way) = some e) : Fits (root.join ("/".intercalate way)) := by
  rw [entryAt_append hne] at hentry
  have hkey : top ++ way ∈ fs.table.keys := by
    rw [Table.mem_keys, hentry]
    rfl
  exact h _ hkey way ((List.mem_tails way _).2 (List.suffix_append top way))

theorem HasRoom.opens (h : fs.HasRoom root) (hne : way ≠ [])
    (hdir : fs.isDirectoryAt (top ++ way)) : fs.IsOpened root top way :=
  ⟨hdir, h.fits hne (isDirectoryAt_iff.1 hdir)⟩

theorem HasRoom.heeds (h : fs.HasRoom root) {k : Nat} (hk : top.length ≤ k) {content : ByteArray}
    (hfile : fs.entryAt ((top ++ way).take k ++ [".ignore"]) = some (.file content)) :
    Ignore.Heeds root top way k := by
  rw [List.take_append, List.take_of_length_le hk, List.append_assoc] at hfile
  rw [Ignore.Heeds, if_neg (Nat.not_lt.2 hk)]
  exact h.fits (List.append_ne_nil_of_right_ne_nil _ (List.cons_ne_nil _ _)) hfile

theorem HasRoom.drops (hp : fs.HasRoom p) (hq : fs.HasRoom q) (isDirectory : Bool) :
    Ignore.drops fs p top way isDirectory = Ignore.drops fs q top way isDirectory := by
  have hheeded : ∀ k,
      (if Ignore.Heeds p top way k then Ignore.verdictAt fs (top ++ way) isDirectory k else none) =
      if Ignore.Heeds q top way k then Ignore.verdictAt fs (top ++ way) isDirectory k
        else none := by
    intro k
    by_cases habove : k < top.length
    · simp only [Ignore.Heeds, if_pos habove]
    by_cases hfile : ∃ content, fs.entryAt ((top ++ way).take k ++ [".ignore"]) =
        some (.file content)
    · obtain ⟨content, hfile⟩ := hfile
      have hbelow := Nat.le_of_not_lt habove
      rw [if_pos (hp.heeds hbelow hfile), if_pos (hq.heeds hbelow hfile)]
    · rw [verdictAt_eq_none (fun content h => hfile ⟨content, h⟩), ite_self, ite_self]
  dsimp only [Ignore.drops]
  rw [funext hheeded]

/-- Two spellings with room get to the same files. -/
theorem HasRoom.inReach (hp : fs.HasRoom p) (hq : fs.HasRoom q) (h : fs.InReach q top way) :
    fs.InReach p top way where
  below := h.below
  regular := h.regular
  entered k hpos hk := by
    obtain ⟨⟨hdir, -⟩, hdrops⟩ := h.entered k hpos hk
    have htake : way.take k ≠ [] := List.ne_nil_of_length_pos (by rw [List.length_take]; omega)
    rw [hp.drops hq]
    exact ⟨hp.opens htake hdir, hdrops⟩
  kept := by
    rw [hp.drops hq]
    exact h.kept

end Files

end ClasspathSymbols
