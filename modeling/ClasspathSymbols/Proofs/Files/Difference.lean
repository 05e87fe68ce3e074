import ClasspathSymbols.Proofs.Files.Scan
import ClasspathSymbols.Proofs.Files.Tree

/-! # Files that differ in one content

Two trees of files may be the same but for the bytes of one file. Paths lead to the same places in
both. Walks find the same files, unless it is a file of ignore rules, and report them in one order.
What is read differs at that file and nowhere else. -/
namespace ClasspathSymbols

namespace Files

/-- Both have a file at the location, and the same everywhere else. -/
structure DifferAt (l : Location) (x y : ByteArray) (fs gs : Files) : Prop where
  here : fs.here = gs.here
  first : fs.entryAt l = some (.file x)
  second : gs.entryAt l = some (.file y)
  elsewhere : ∀ k, k ≠ l → fs.entryAt k = gs.entryAt k

variable {fs gs : Files} {l : Location} {x y : ByteArray}

theorem DifferAt.symm (h : DifferAt l x y fs gs) : DifferAt l y x gs fs where
  here := h.here.symm
  first := h.second
  second := h.first
  elsewhere k hk := (h.elsewhere k hk).symm

theorem components_of_walk (hs : fs.Sound) {root : Path} {top : Location}
    (hroot : fs.resolve root = .ok top) (hdir : fs.entryAt top = some .directory) {f : Found}
    (hf : f ∈ fs.walk root) : f.path.components = root.components ++ f.below.map .name := by
  obtain ⟨hne, hpath, hkeys⟩ := walk_directory hroot hdir hf
  have hnames : ∀ name ∈ f.below, Path.IsName name := fun name hname =>
    hs.2 _ hkeys name (List.mem_append_right top hname)
  rw [hpath]
  exact components_way (b := ⟨f.below, .empty⟩) hroot hne hnames

/-- Files that a walk finds have paths of their own. -/
theorem eq_of_same_path (hs : fs.Sound) {root : Path} {f g : Found} (hf : f ∈ fs.walk root)
    (hg : g ∈ fs.walk root) (h : f.path.Same g.path) : f = g := by
  by_cases hinput : root.Same standardInput
  · rw [walk, if_pos hinput] at hf
    cases hf
  cases hroot : fs.resolve root with
  | error e =>
    simp only [walk, if_neg hinput, hroot] at hf
    cases hf
  | ok top =>
    cases htop : fs.entryAt top with
    | none =>
      simp only [walk, if_neg hinput, hroot, htop] at hf
      cases hf
    | some e =>
      cases e with
      | file content =>
        simp only [walk, if_neg hinput, hroot, htop, List.mem_singleton] at hf hg
        rw [hf, hg]
      | directory =>
        rw [Path.Same, components_of_walk hs hroot htop hf, components_of_walk hs hroot htop hg,
          List.append_cancel_left_eq] at h
        have hbelow : f.below = g.below :=
          List.map_injective_iff.2 (fun _ _ hn => Path.Component.name.inj hn) h
        have hpath : f.path = g.path := by
          rw [(walk_directory hroot htop hf).2.1, (walk_directory hroot htop hg).2.1, hbelow]
        obtain ⟨p, below⟩ := f
        obtain ⟨q, below'⟩ := g
        exact Found.mk.injEq .. ▸ ⟨hpath, hbelow⟩

end Files

end ClasspathSymbols
