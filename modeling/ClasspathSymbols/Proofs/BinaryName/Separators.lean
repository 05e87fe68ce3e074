import ClasspathSymbols.Proofs.BinaryName.Segments

/-! # Slashes and backslashes in entries

Both separators become dots in the binary name of an entry, but the name of its class file is found
behind a slash only. So an entry may be filed with one separator and not with the other, when there
is a backslash behind the last slash; where it is filed with both, the binary names are equal. -/
namespace ClasspathSymbols.BinaryName

def slashes (text : List Char) : List Char := text.map fun c => if c = '\\' then '/' else c

def slashed (entry : String) : String := String.ofList (slashes entry.toList)

theorem slashes_append (a b : List Char) : slashes (a ++ b) = slashes a ++ slashes b :=
  List.map_append

theorem slashes_of_not_mem {text : List Char} (h : '\\' ∉ text) : slashes text = text := by
  refine Text.map_eq_self fun c hc => ?_
  have hne : c ≠ '\\' := by
    rintro rfl
    exact h hc
  exact if_neg hne

theorem not_mem_of_slashes {text : List Char} (h : '/' ∉ slashes text) : '\\' ∉ text := by
  intro hc
  exact h (List.mem_map.2 ⟨'\\', hc, rfl⟩)

theorem dotted_slashes (stem : List Char) : dotted (slashes stem) = dotted stem := by
  rw [dotted, slashes, List.map_map, dotted]
  apply List.map_congr_left
  intro c _
  by_cases hc : c = '\\'
  · simp [hc]
  · simp [hc]

theorem suffix_slashed {entry : String} (h : classEnding <:+ (slashed entry).toList) :
    classEnding <:+ entry.toList := by
  obtain ⟨stem, hstem⟩ := h
  have hsplit := hstem.symm
  rw [slashed, String.toList_ofList, slashes, List.map_eq_append_iff] at hsplit
  obtain ⟨front, ending, hentry, -, hending⟩ := hsplit
  have hslash : '/' ∉ slashes ending := by
    rw [slashes, hending]
    decide
  have hsame : ending = classEnding := by
    rw [← hending]
    exact (slashes_of_not_mem (not_mem_of_slashes hslash)).symm
  exact ⟨front, by rw [hentry, hsame]⟩

theorem toList_slashed {entry : String} {stem : List Char}
    (h : entry.toList = stem ++ classEnding) :
    (slashed entry).toList = slashes stem ++ classEnding := by
  have hending : slashes classEnding = classEnding := by decide
  rw [slashed, String.toList_ofList, h, slashes_append, hending]

theorem slashes_behind_slash (front simple : List Char) :
    slashes (front ++ '/' :: simple) = slashes front ++ '/' :: slashes simple :=
  slashes_append front ('/' :: simple)

theorem slashes_behind_backslash (front simple : List Char) :
    slashes (front ++ '\\' :: simple) = slashes front ++ '/' :: slashes simple :=
  slashes_append front ('\\' :: simple)

theorem simpleName_slashes_of_not_mem {stem : List Char} (h : '\\' ∉ simpleName stem) :
    simpleName (slashes stem) = simpleName stem := by
  obtain ⟨hslash, hstem⟩ := simpleName_eq_iff.1 (rfl : simpleName stem = simpleName stem)
  refine simpleName_eq_iff.2 ⟨hslash, ?_⟩
  rcases hstem with hstem | ⟨front, hstem⟩
  · left
    exact (congrArg slashes hstem).trans (slashes_of_not_mem h)
  · right
    refine ⟨slashes front, (congrArg slashes hstem).trans ?_⟩
    rw [slashes_behind_slash, slashes_of_not_mem h]

theorem simpleName_slashes {stem outer inner : List Char}
    (h : simpleName stem = outer ++ '\\' :: inner) (hinner : '\\' ∉ inner) :
    simpleName (slashes stem) = inner := by
  obtain ⟨hslash, hstem⟩ := simpleName_eq_iff.1 h
  have hbehind : ∃ front, stem = front ++ '\\' :: inner := by
    rcases hstem with rfl | ⟨front, rfl⟩
    · exact ⟨outer, rfl⟩
    · exact ⟨front ++ '/' :: outer, by simp⟩
  obtain ⟨front, rfl⟩ := hbehind
  have hslash' : '/' ∉ inner := fun hc =>
    hslash (List.mem_append_right _ (List.mem_cons_of_mem _ hc))
  rw [slashes_behind_backslash, slashes_of_not_mem hinner]
  exact simpleName_append (slashes front) hslash'

def startsName (text : List Char) : Bool := match text with
  | [] => false
  | c :: _ => c ≠ nestingSign && !c.isDigit

theorem isAddressable_nil : isAddressable [] := by decide

theorem isAddressable_cons {c : Char} (hc : c ≠ nestingSign) (text : List Char) :
    isAddressable (c :: text) = isAddressable text := by
  obtain ⟨first, others, hs⟩ := List.exists_cons_of_ne_nil (List.splitOn_ne_nil nestingSign text)
  rw [isAddressable, isAddressable, List.splitOn_cons_eq_if_modifyHead, hs,
    if_neg (by simpa using hc)]
  rfl

theorem isAddressable_sign (text : List Char) :
    isAddressable (nestingSign :: text) = (startsName text && isAddressable text) := by
  obtain ⟨first, others, hs⟩ := List.exists_cons_of_ne_nil (List.splitOn_ne_nil nestingSign text)
  rw [isAddressable, isAddressable, List.splitOn_cons_eq_if_modifyHead, hs, if_pos (by simp),
    List.tail_cons, List.tail_cons, List.all_cons]
  congr 1
  cases text with
  | nil =>
    rw [List.splitOn_nil] at hs
    rw [← (List.cons.inj hs).1]
    rfl
  | cons c text =>
    obtain ⟨part, parts, ht⟩ := List.exists_cons_of_ne_nil (List.splitOn_ne_nil nestingSign text)
    rw [List.splitOn_cons_eq_if_modifyHead, ht] at hs
    by_cases hc : c = nestingSign
    · rw [if_pos (by simpa using hc)] at hs
      rw [← (List.cons.inj hs).1]
      simp [startsName, hc]
    · rw [if_neg (by simpa using hc)] at hs
      rw [← (List.cons.inj hs).1]
      simp [startsName, hc]

/-- A backslash counts as a letter, so the nested names on its two sides are checked apart. -/
theorem isAddressable_backslash (outer inner : List Char) :
    isAddressable (outer ++ '\\' :: inner) =
      (isAddressable (outer ++ ['\\']) && isAddressable inner) := by
  induction outer with
  | nil =>
    rw [List.nil_append, List.nil_append, isAddressable_cons (by decide),
      isAddressable_cons (by decide), isAddressable_nil, Bool.true_and]
  | cons c outer ih =>
    rw [List.cons_append, List.cons_append]
    by_cases hc : c = nestingSign
    · -- A sign looks no further than the next letter, and that is not in `inner`.
      have hstart : startsName (outer ++ '\\' :: inner) = startsName (outer ++ ['\\']) := by
        cases outer <;> rfl
      rw [hc, isAddressable_sign, isAddressable_sign, ih, hstart, Bool.and_assoc]
    · rw [isAddressable_cons hc, isAddressable_cons hc, ih]

theorem isListed_slashes_of_not_mem {stem : List Char} (h : '\\' ∉ simpleName stem) :
    IsListed (slashes stem) ↔ IsListed stem := by
  rw [IsListed, IsListed, simpleName_slashes_of_not_mem h]

theorem isListed_of_backslash {stem outer inner : List Char}
    (h : simpleName stem = outer ++ '\\' :: inner) :
    IsListed stem ↔ isAddressable (outer ++ ['\\']) ∧ isAddressable inner := by
  have hnone : ∀ d ∈ descriptors, '\\' ∉ d := by decide
  have hdescriptor : outer ++ '\\' :: inner ∉ descriptors := fun hd =>
    hnone _ hd (List.mem_append_right _ List.mem_cons_self)
  rw [IsListed, h, isAddressable_backslash, Bool.and_eq_true]
  exact and_iff_right hdescriptor

theorem isListed_slashes {stem outer inner : List Char}
    (h : simpleName stem = outer ++ '\\' :: inner) (hinner : '\\' ∉ inner) :
    IsListed (slashes stem) ↔ inner ∉ descriptors ∧ isAddressable inner := by
  rw [IsListed, simpleName_slashes h hinner]

/-- The two spellings of the entry with this stem are not treated alike: behind a backslash in the
name of the class file there is a name that can be addressed, and either this name is a descriptor
or what stands in front of it is a class without a name. -/
def SpellingMatters (stem : List Char) : Prop :=
  ∃ outer inner, simpleName stem = outer ++ '\\' :: inner ∧ '\\' ∉ inner ∧ isAddressable inner ∧
    (isAddressable (outer ++ ['\\']) ↔ inner ∈ descriptors)

theorem isListed_slashes_iff {stem : List Char} :
    ¬ (IsListed (slashes stem) ↔ IsListed stem) ↔ SpellingMatters stem := by
  constructor
  · intro hdiffer
    have hback : '\\' ∈ simpleName stem := by
      by_contra hback
      exact hdiffer (isListed_slashes_of_not_mem hback)
    -- Of all backslashes the last one is that in front of the name, once it is a slash.
    obtain ⟨outer, inner, hsimple, hinner⟩ := Text.exists_last hback
    rw [isListed_slashes hsimple hinner, isListed_of_backslash hsimple] at hdiffer
    refine ⟨outer, inner, hsimple, hinner, ?_⟩
    by_cases hi : isAddressable inner
    · rw [and_iff_left hi, and_iff_left hi, not_iff, not_not] at hdiffer
      exact ⟨hi, hdiffer.symm⟩
    · exact absurd (iff_of_false (mt And.right hi) (mt And.right hi)) hdiffer
  · rintro ⟨outer, inner, hsimple, hinner, hi, houter⟩
    rw [isListed_slashes hsimple hinner, isListed_of_backslash hsimple, and_iff_left hi,
      and_iff_left hi, not_iff, not_not]
    exact houter.symm

theorem ofEntry?_slashed_of_stem {entry : String} {stem : List Char}
    (h : entry.toList = stem ++ classEnding) : ofEntry? (slashed entry) =
      if IsListed (slashes stem) then some (String.ofList (dotted stem)) else none := by
  rw [ofEntry?_of_stem (toList_slashed h), dotted_slashes]

theorem ofEntry?_ne_slashed_iff {entry : String} {stem : List Char}
    (h : entry.toList = stem ++ classEnding) :
    ofEntry? entry ≠ ofEntry? (slashed entry) ↔ SpellingMatters stem := by
  rw [ofEntry?_of_stem h, ofEntry?_slashed_of_stem h, ← isListed_slashes_iff]
  by_cases hlisted : IsListed stem
  · by_cases hslashed : IsListed (slashes stem)
    · simp [hlisted, hslashed]
    · simp [hlisted, hslashed]
  · by_cases hslashed : IsListed (slashes stem)
    · simp [hlisted, hslashed]
    · simp [hlisted, hslashed]

/-- Whichever separators an entry is spelled with, it is filed under the same name if it is filed.
It is filed in one spelling only exactly if there is a backslash in the name of its class file and
what stands around it makes a difference. -/
theorem spellings_differ_behind_the_last_slash (entry : String) :
    (∃ b, ∀ spelling ∈ [entry, slashed entry],
      ofEntry? spelling = none ∨ ofEntry? spelling = some b) ∧
    ((∃ stem, entry.toList = stem ++ classEnding ∧ SpellingMatters stem) ↔
      ofEntry? entry ≠ ofEntry? (slashed entry)) := by
  by_cases hsuffix : classEnding <:+ entry.toList
  · obtain ⟨stem, hstem⟩ := hsuffix
    constructor
    · refine ⟨String.ofList (dotted stem), ?_⟩
      rw [List.forall_mem_cons, List.forall_mem_singleton, ofEntry?_of_stem hstem.symm,
        ofEntry?_slashed_of_stem hstem.symm]
      exact ⟨(ite_eq_or_eq _ _ _).symm, (ite_eq_or_eq _ _ _).symm⟩
    · rw [ofEntry?_ne_slashed_iff hstem.symm]
      constructor
      · rintro ⟨stem', hstem', hmatters⟩
        rwa [List.append_cancel_right (hstem.trans hstem')]
      · exact fun hmatters => ⟨stem, hstem.symm, hmatters⟩
  · have hnone := ofEntry?_of_not_suffix hsuffix
    have hslashed := ofEntry?_of_not_suffix (mt suffix_slashed hsuffix)
    constructor
    · refine ⟨"", ?_⟩
      rw [List.forall_mem_cons, List.forall_mem_singleton]
      exact ⟨Or.inl hnone, Or.inl hslashed⟩
    · rw [hnone, hslashed]
      constructor
      · rintro ⟨stem, hstem, -⟩
        exact absurd ⟨stem, hstem.symm⟩ hsuffix
      · exact fun h => absurd rfl h

/-- The descriptor of a package is filed as a class, and a class is left out because its folder is
named like an anonymous class. -/
theorem descriptors_behind_backslashes_are_filed :
    ofEntry? "a\\package-info.class" = some "a.package-info" ∧
    ofEntry? (slashed "a\\package-info.class") = none ∧
    ofEntry? "a$1\\B.class" = none ∧ ofEntry? (slashed "a$1\\B.class") = some "a$1.B" := by
  decide

end ClasspathSymbols.BinaryName
