import ClasspathSymbols.BinaryName
import ClasspathSymbols.Proofs.Text.Parts
import Mathlib.Data.List.TakeWhile

/-! # The packages around a package

A name is split at its last dot. Splitting a package again and again leads through all packages
around it, from the inside to the outside. -/
namespace ClasspathSymbols.BinaryName

/-- The package `outer` has a name, and is `package` or contains it. -/
def Encloses (outer package : String) : Prop :=
  outer ≠ "" ∧ (outer = package ∨ ∃ inner, package = outer ++ "." ++ inner)

theorem sourceName_sourceName (name : String) : sourceName (sourceName name) = sourceName name := by
  simp only [sourceName, String.toList_ofList, List.map_map]
  congr 1
  apply List.map_congr_left
  intro c _
  by_cases hc : c = nestingSign
  · simp [hc, nestingSign]
  · simp [hc]

theorem sourceName_append (a b : String) : sourceName (a ++ b) = sourceName a ++ sourceName b := by
  simp only [sourceName, String.toList_append, List.map_append, String.ofList_append]

theorem all_reverse_ne_dot {cs : List Char} (h : '.' ∉ cs) :
    ∀ c ∈ cs.reverse, decide (c ≠ '.') = true := by
  intro c hc
  apply decide_eq_true
  rintro rfl
  exact h (List.mem_reverse.1 hc)

theorem splitLast_of_not_mem {name : List Char} (h : '.' ∉ name) : splitLast name = ([], name) := by
  have hall := all_reverse_ne_dot h
  rw [splitLast, List.dropWhile_eq_nil_iff.2 hall, List.takeWhile_eq_self_iff.2 hall]
  simp

theorem splitLast_append {front last : List Char} (h : '.' ∉ last) :
    splitLast (front ++ '.' :: last) = (front, last) := by
  have hall := all_reverse_ne_dot h
  have hrev : (front ++ '.' :: last).reverse = last.reverse ++ '.' :: front.reverse := by simp
  rw [splitLast, hrev, List.dropWhile_append_of_pos hall, List.takeWhile_append_of_pos hall]
  simp

theorem append_dot_eq_iff {front last outer inner : List Char} (h : '.' ∉ last) :
    front ++ '.' :: last = outer ++ '.' :: inner ↔
      outer = front ∧ inner = last ∨
      ∃ middle, front = outer ++ '.' :: middle ∧ inner = middle ++ '.' :: last := by
  constructor
  · intro heq
    rcases List.append_eq_append_iff.1 heq with ⟨x, ho, hl⟩ | ⟨x, hf, hi⟩
    · cases x with
      | nil => exact Or.inl ⟨by simpa using ho, (List.cons.inj hl).2.symm⟩
      | cons c x =>
        obtain ⟨-, rfl⟩ := List.cons.inj hl
        exact absurd (List.mem_append_right x List.mem_cons_self) h
    · cases x with
      | nil => exact Or.inl ⟨by simpa using hf.symm, (List.cons.inj hi).2⟩
      | cons c x =>
        obtain ⟨rfl, rfl⟩ := List.cons.inj hi
        exact Or.inr ⟨x, hf, rfl⟩
  · rintro (⟨rfl, rfl⟩ | ⟨middle, rfl, rfl⟩)
    · rfl
    · simp

theorem ofList_ne_empty {outer : List Char} : String.ofList outer ≠ "" ↔ outer ≠ [] := by
  rw [← String.ofList_nil, ne_eq, String.ofList_inj]

theorem encloses_ofList {outer package : List Char} :
    Encloses (String.ofList outer) (String.ofList package) ↔
      outer ≠ [] ∧ (outer = package ∨ ∃ inner, package = outer ++ '.' :: inner) := by
  rw [Encloses, ofList_ne_empty, String.ofList_inj]
  refine and_congr_right fun _ => or_congr_right ⟨?_, ?_⟩
  · rintro ⟨inner, h⟩
    refine ⟨inner.toList, ?_⟩
    have hl := congrArg String.toList h
    simpa using hl
  · rintro ⟨inner, rfl⟩
    refine ⟨String.ofList inner, String.toList_injective ?_⟩
    simp

theorem not_encloses_empty (outer : String) : ¬ Encloses outer "" := by
  rintro ⟨hne, heq | ⟨inner, heq⟩⟩
  · exact hne heq
  · have hl := congrArg String.toList heq
    simp at hl

theorem Encloses.trans {a b c : String} (h : Encloses a b) (k : Encloses b c) : Encloses a c := by
  obtain ⟨hne, hab⟩ := h
  obtain ⟨-, hbc⟩ := k
  refine ⟨hne, ?_⟩
  rcases hab with rfl | ⟨x, rfl⟩
  · exact hbc
  · rcases hbc with rfl | ⟨y, rfl⟩
    · exact Or.inr ⟨x, rfl⟩
    · exact Or.inr ⟨x ++ "." ++ y, by simp only [String.append_assoc]⟩

/-- What encloses a package is the package itself or encloses the one directly around it. -/
theorem encloses_iff_around {outer package : List Char} (hne : package ≠ []) :
    Encloses (String.ofList outer) (String.ofList package) ↔
      outer = package ∨
        Encloses (String.ofList outer) (String.ofList (splitLast package).1) := by
  by_cases hdot : '.' ∈ package
  · obtain ⟨front, last, rfl, hlast⟩ := Text.exists_last hdot
    simp only [splitLast_append hlast, encloses_ofList, append_dot_eq_iff hlast]
    constructor
    · rintro ⟨ho, h | ⟨inner, ⟨h, -⟩ | ⟨middle, h, -⟩⟩⟩
      · exact Or.inl h
      · exact Or.inr ⟨ho, Or.inl h⟩
      · exact Or.inr ⟨ho, Or.inr ⟨middle, h⟩⟩
    · rintro (h | ⟨ho, h | ⟨middle, h⟩⟩)
      · exact ⟨h ▸ hne, Or.inl h⟩
      · exact ⟨ho, Or.inr ⟨last, Or.inl ⟨h, rfl⟩⟩⟩
      · exact ⟨ho, Or.inr ⟨_, Or.inr ⟨middle, h, rfl⟩⟩⟩
  · simp only [splitLast_of_not_mem hdot, encloses_ofList, String.ofList_nil, not_encloses_empty,
      or_false]
    constructor
    · rintro ⟨ho, h | ⟨inner, rfl⟩⟩
      · exact h
      · exact absurd (List.mem_append_right outer List.mem_cons_self) hdot
    · intro h
      exact ⟨h ▸ hne, Or.inl h⟩

theorem encloses_self {package : List Char} (hne : package ≠ []) :
    Encloses (String.ofList package) (String.ofList package) :=
  encloses_ofList.2 ⟨hne, Or.inl rfl⟩

theorem not_encloses_around {package : List Char} (hne : package ≠ []) :
    ¬ Encloses (String.ofList package) (String.ofList (splitLast package).1) := by
  intro h
  have hshort := splitLast_shorter hne
  obtain ⟨-, heq | ⟨inner, heq⟩⟩ := encloses_ofList.1 h
  · rw [← heq] at hshort
    exact absurd hshort (lt_irrefl _)
  · rw [heq, List.length_append] at hshort
    omega

end ClasspathSymbols.BinaryName
