import ClasspathSymbols.Proofs.BinaryName
import Mathlib.Data.List.Basic

/-! # The segments of a cataloged name

The source name of a class is spelled by its entry, with dots for slashes, backslashes and nesting
signs. Of all the segments that come about only those of nested names are checked: the folders, the
name in front of the first nesting sign and what stands behind a dot are taken as they are. -/
namespace ClasspathSymbols.BinaryName

def simpleName (stem : List Char) : List Char := (stem.splitOn '/').getLastD []

def folders (stem : List Char) : List (List Char) := (stem.splitOn '/').dropLast

def outerName (stem : List Char) : List Char := ((simpleName stem).splitOn nestingSign).headD []

def nestedNames (stem : List Char) : List (List Char) :=
  ((simpleName stem).splitOn nestingSign).tail

def IsListed (stem : List Char) : Prop :=
  simpleName stem ∉ descriptors ∧ isAddressable (simpleName stem)

instance (stem : List Char) : Decidable (IsListed stem) := inferInstanceAs (Decidable (_ ∧ _))

theorem ofEntry?_of_stem {entry : String} {stem : List Char}
    (h : entry.toList = stem ++ classEnding) :
    ofEntry? entry = if IsListed stem then some (String.ofList (dotted stem)) else none := by
  have hsuffix : classEnding.isSuffixOf entry.toList = true := by
    rw [h, List.isSuffixOf_iff_suffix]
    exact List.suffix_append _ _
  have hstem : entry.toList.take (entry.toList.length - classEnding.length) = stem := by
    rw [h, List.length_append, Nat.add_sub_cancel, List.take_left]
  have hlisted : (descriptors.contains (simpleName stem) = true ∨
      (!isAddressable (simpleName stem)) = true) ↔ ¬ IsListed stem := by
    rw [List.contains_iff_mem, Bool.not_eq_true', IsListed, not_and_or, not_not, Bool.not_eq_true]
  rw [BinaryName.ofEntry?, if_pos hsuffix]
  simp only [hstem]
  rw [← simpleName]
  by_cases hl : IsListed stem
  · rw [if_pos hl, if_neg (mt hlisted.1 (not_not.2 hl))]
  · rw [if_neg hl, if_pos (hlisted.2 hl)]

theorem ofEntry?_of_not_suffix {entry : String} (h : ¬ classEnding <:+ entry.toList) :
    ofEntry? entry = none := by
  rw [BinaryName.ofEntry?, if_neg (mt List.isSuffixOf_iff_suffix.1 h)]

theorem exists_stem {entry b : String} (h : ofEntry? entry = some b) :
    ∃ stem, entry.toList = stem ++ classEnding ∧ IsListed stem ∧
      b = String.ofList (dotted stem) := by
  by_cases hsuffix : classEnding <:+ entry.toList
  · obtain ⟨stem, hstem⟩ := hsuffix
    rw [ofEntry?_of_stem hstem.symm] at h
    split at h
    · rename_i hlisted
      exact ⟨stem, hstem.symm, hlisted, (Option.some.inj h).symm⟩
    · cases h
  · rw [ofEntry?_of_not_suffix hsuffix] at h
    cases h

theorem splitOn_stem (stem : List Char) : stem.splitOn '/' = folders stem ++ [simpleName stem] := by
  have hne := List.splitOn_ne_nil '/' stem
  rw [folders, simpleName, List.getLastD_eq_getLast?, List.getLast?_eq_some_getLast hne,
    Option.getD_some, List.dropLast_concat_getLast]

theorem simpleName_of_not_mem {simple : List Char} (h : '/' ∉ simple) :
    simpleName simple = simple := by
  rw [simpleName, List.splitOn_eq_singleton h]
  rfl

theorem simpleName_append (front : List Char) {simple : List Char} (h : '/' ∉ simple) :
    simpleName (front ++ '/' :: simple) = simple := by
  rw [simpleName, List.splitOn_append_cons_self, List.splitOn_eq_singleton h, List.getLastD_concat]

theorem simpleName_eq_iff {stem simple : List Char} : simpleName stem = simple ↔
    '/' ∉ simple ∧ (stem = simple ∨ ∃ front, stem = front ++ '/' :: simple) := by
  constructor
  · rintro rfl
    by_cases hslash : '/' ∈ stem
    · obtain ⟨front, last, rfl, hlast⟩ := Text.exists_last hslash
      rw [simpleName_append front hlast]
      exact ⟨hlast, Or.inr ⟨front, rfl⟩⟩
    · rw [simpleName_of_not_mem hslash]
      exact ⟨hslash, Or.inl rfl⟩
  · rintro ⟨hslash, rfl | ⟨front, rfl⟩⟩
    · exact simpleName_of_not_mem hslash
    · exact simpleName_append front hslash

theorem splitOn_simpleName (stem : List Char) :
    (simpleName stem).splitOn nestingSign = outerName stem :: nestedNames stem := by
  obtain ⟨first, others, h⟩ :=
    List.exists_cons_of_ne_nil (List.splitOn_ne_nil nestingSign (simpleName stem))
  rw [outerName, nestedNames, h]
  rfl

def segments (name : String) : List (List Char) := name.toList.splitOn '.'

/-- A segment that can be written as an identifier, so far as its first letter goes. -/
def Writable (segment : List Char) : Prop :=
  segment ≠ [] ∧ ∀ c ∈ segment.head?, c.isDigit = false

instance (segment : List Char) : Decidable (Writable segment) :=
  decidable_of_iff (segment.head?.any fun c => !c.isDigit) <| by
    cases segment <;> simp [Writable]

def isSeparator (c : Char) : Bool := ['.', '/', '\\', nestingSign].contains c

def pieces (text : List Char) : List (List Char) := text.splitOnP isSeparator

theorem segments_sourceName (stem : List Char) :
    segments (sourceName (String.ofList (dotted stem))) = pieces stem := by
  have hdot : isSeparator '.' := by decide
  rw [segments, sourceName, String.toList_ofList, String.toList_ofList, dotted, List.map_map,
    pieces, ← Text.splitOn_map_sign hdot]
  congr 1
  apply List.map_congr_left
  intro c _
  by_cases hslash : c = '/' ∨ c = '\\'
  · rcases hslash with rfl | rfl <;> rfl
  · by_cases hsign : c = nestingSign
    · subst hsign
      rfl
    · obtain ⟨hs, hb⟩ := not_or.1 hslash
      by_cases hd : c = '.'
      · subst hd
        rfl
      · simp [isSeparator, hs, hb, hsign, hd]

theorem pieces_stem (stem : List Char) : pieces stem =
    (folders stem).flatMap pieces ++
      (pieces (outerName stem) ++ (nestedNames stem).flatMap pieces) := by
  have hslash : isSeparator '/' := by decide
  have hsign : isSeparator nestingSign := by decide
  have hsimple : pieces (simpleName stem) =
      pieces (outerName stem) ++ (nestedNames stem).flatMap pieces := by
    rw [pieces, Text.splitOnP_eq_flatMap hsign, splitOn_simpleName, List.flatMap_cons]
    rfl
  rw [← hsimple, pieces, Text.splitOnP_eq_flatMap hslash, splitOn_stem, List.flatMap_append,
    List.flatMap_singleton]
  rfl

theorem writable_of_mem_nestedNames {stem name : List Char} (h : IsListed stem)
    (hname : name ∈ nestedNames stem) : Writable name := by
  have hall := List.all_eq_true.1 h.2 name hname
  cases name with
  | nil => cases hall
  | cons c cs =>
    refine ⟨List.cons_ne_nil c cs, fun d hd => ?_⟩
    obtain rfl := Option.some.inj hd
    simpa using hall

theorem pieces_of_mem_nestedNames {stem name : List Char} (hback : '\\' ∉ simpleName stem)
    (hname : name ∈ nestedNames stem) : pieces name = name.splitOn '.' := by
  have hpart : name ∈ (simpleName stem).splitOn nestingSign := List.mem_of_mem_tail hname
  have hsign : nestingSign ∉ name := Text.not_mem_part hpart
  have hback' : '\\' ∉ name := fun h => hback ((Text.mem_parts (by decide)).2 ⟨name, hpart, h⟩)
  have hslash : '/' ∉ simpleName stem := (simpleName_eq_iff.1 rfl).1
  have hslash' : '/' ∉ name := fun h => hslash ((Text.mem_parts (by decide)).2 ⟨name, hpart, h⟩)
  have hdot : isSeparator '.' := by decide
  have hplain : name.map (fun c => if isSeparator c then '.' else c) = name := by
    refine Text.map_eq_self fun c hc => ?_
    by_cases hsep : isSeparator c
    · have hmem : c = '.' ∨ c = '/' ∨ c = '\\' ∨ c = nestingSign := by
        simpa [isSeparator] using hsep
      rcases hmem with rfl | rfl | rfl | rfl
      · rfl
      · exact absurd hc hslash'
      · exact absurd hc hback'
      · exact absurd hc hsign
    · exact if_neg hsep
  rw [pieces, ← Text.splitOn_map_sign hdot, hplain]

/-- What is not checked of an entry can be written as well. -/
def RestWritable (stem : List Char) : Prop :=
  (∀ s ∈ (folders stem).flatMap pieces ++ pieces (outerName stem), Writable s) ∧
    ∀ name ∈ nestedNames stem, '.' ∈ name → ∀ s ∈ name.splitOn '.', Writable s

instance (stem : List Char) : Decidable (RestWritable stem) := inferInstanceAs (Decidable (_ ∧ _))

theorem exists_of_encloses {p b : String} (h : Encloses p (packageOf b)) :
    ∃ rest, b = p ++ "." ++ rest := by
  by_cases hdot : '.' ∈ b.toList
  · obtain ⟨front, last, heq, hlast⟩ := Text.exists_last hdot
    have hb : b = String.ofList front ++ "." ++ String.ofList last := by
      apply String.toList_injective
      simp [heq]
    rw [packageOf, heq, splitLast_append hlast] at h
    rcases h with ⟨-, rfl | ⟨inner, hfront⟩⟩
    · exact ⟨_, hb⟩
    · refine ⟨inner ++ "." ++ String.ofList last, ?_⟩
      rw [hb, hfront]
      simp only [String.append_assoc]
  · rw [packageOf, splitLast_of_not_mem hdot, String.ofList_nil] at h
    exact absurd h (not_encloses_empty p)

theorem segments_of_encloses {p b : String} (h : Encloses p (packageOf b)) :
    segments (sourceName p) <+: segments (sourceName b) := by
  obtain ⟨rest, rfl⟩ := exists_of_encloses h
  have hdot : (sourceName ".").toList = ['.'] := by decide
  rw [segments, segments, sourceName_append, sourceName_append, String.toList_append,
    String.toList_append, hdot, List.append_assoc, List.singleton_append,
    List.splitOn_append_cons_self]
  exact List.prefix_append _ _

/-- How the name of a class is made of the stem of its entry. -/
structure NamedAfter (stem : List Char) (b : String) : Prop where
  nested : ∀ name ∈ nestedNames stem, Writable name
  cut : segments (sourceName b) = (folders stem).flatMap pieces ++
    (pieces (outerName stem) ++ (nestedNames stem).flatMap fun name => name.splitOn '.')
  writable : (∀ s ∈ segments (sourceName b), Writable s) ↔ RestWritable stem

theorem namedAfter_of_isListed {stem : List Char} (h : IsListed stem)
    (hback : '\\' ∉ simpleName stem) : NamedAfter stem (String.ofList (dotted stem)) := by
  have hnested : ∀ name ∈ nestedNames stem, Writable name :=
    fun name => writable_of_mem_nestedNames h
  have hcut : segments (sourceName (String.ofList (dotted stem))) = (folders stem).flatMap pieces ++
      (pieces (outerName stem) ++ (nestedNames stem).flatMap fun name => name.splitOn '.') := by
    rw [segments_sourceName, pieces_stem]
    congr 2
    exact List.flatMap_congr fun name => pieces_of_mem_nestedNames hback
  refine ⟨hnested, hcut, ?_⟩
  rw [hcut, ← List.append_assoc, RestWritable, List.forall_mem_append]
  refine and_congr_right fun _ => ⟨?_, ?_⟩
  · intro hall name hname _ s hs
    exact hall s (List.mem_flatMap.2 ⟨name, hname, hs⟩)
  · intro hall s hs
    obtain ⟨name, hname, hs⟩ := List.mem_flatMap.1 hs
    -- A nested name without dots is a segment as it is, and has been checked.
    by_cases hdot : '.' ∈ name
    · exact hall name hname hdot s hs
    · rw [List.splitOn_eq_singleton hdot, List.mem_singleton] at hs
      exact hs ▸ hnested name hname

end ClasspathSymbols.BinaryName
