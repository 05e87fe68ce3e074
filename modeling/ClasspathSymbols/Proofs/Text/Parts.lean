/-! # The parts of a text

A text is cut at a sign. The parts hold all of it but the sign, and text that is cut at several
signs may be cut at one of them first. -/
namespace ClasspathSymbols.Text

theorem exists_last {sign : Char} {text : List Char} (h : sign ∈ text) :
    ∃ front last, text = front ++ sign :: last ∧ sign ∉ last := by
  obtain ⟨last, front, hrev, hlast⟩ := List.eq_append_cons_of_mem (List.mem_reverse.2 h)
  refine ⟨front.reverse, last.reverse, ?_, by simpa using hlast⟩
  have hback := congrArg List.reverse hrev
  simpa using hback

theorem map_eq_self {f : Char → Char} {text : List Char} (h : ∀ c ∈ text, f c = c) :
    text.map f = text :=
  (List.map_congr_left h).trans (List.map_id text)

theorem not_mem_part {sign : Char} {text part : List Char} (h : part ∈ text.splitOn sign) :
    sign ∉ part := by
  induction text generalizing part with
  | nil =>
    simp only [List.splitOn_nil, List.mem_singleton] at h
    subst h
    exact List.not_mem_nil
  | cons c text ih =>
    obtain ⟨first, others, hs⟩ := List.exists_cons_of_ne_nil (List.splitOn_ne_nil sign text)
    rw [List.splitOn_cons_eq_if_modifyHead, hs] at h
    rw [hs] at ih
    by_cases hc : c = sign
    · rw [if_pos (by simpa using hc)] at h
      rcases List.mem_cons.1 h with rfl | h
      · exact List.not_mem_nil
      · exact ih h
    · rw [if_neg (by simpa using hc)] at h
      rcases List.mem_cons.1 h with rfl | h
      · intro hm
        rcases List.mem_cons.1 hm with heq | hm
        · exact hc heq.symm
        · exact ih List.mem_cons_self hm
      · exact ih (List.mem_cons_of_mem first h)

theorem mem_parts {sign c : Char} (hc : c ≠ sign) {text : List Char} :
    c ∈ text ↔ ∃ part ∈ text.splitOn sign, c ∈ part := by
  induction text with
  | nil => simp
  | cons d text ih =>
    obtain ⟨first, others, hs⟩ := List.exists_cons_of_ne_nil (List.splitOn_ne_nil sign text)
    rw [List.splitOn_cons_eq_if_modifyHead, List.mem_cons, ih, hs]
    by_cases hd : d = sign
    · rw [if_pos (by simpa using hd), hd]
      simp [hc]
    · rw [if_neg (by simpa using hd)]
      simp [or_assoc]

theorem splitOnP_intercalate {isSign : Char → Bool} {sign : Char} (hsign : isSign sign)
    {parts : List (List Char)} (hne : parts ≠ []) :
    ([sign].intercalate parts).splitOnP isSign =
      parts.flatMap fun part => part.splitOnP isSign := by
  induction parts with
  | nil => exact absurd rfl hne
  | cons part rest ih =>
    by_cases hrest : rest = []
    · simp [hrest]
    · rw [List.intercalate_cons_of_ne_nil hrest, List.append_assoc, List.singleton_append,
        List.splitOnP_append_cons _ _ hsign, ih hrest, List.flatMap_cons]

/-- Cutting at one of the signs first makes no difference. -/
theorem splitOnP_eq_flatMap {isSign : Char → Bool} {sign : Char} (hsign : isSign sign)
    (text : List Char) :
    text.splitOnP isSign = (text.splitOn sign).flatMap fun part => part.splitOnP isSign := by
  have hparts := splitOnP_intercalate hsign (List.splitOn_ne_nil sign text)
  rwa [List.intercalate_splitOn] at hparts

theorem splitOn_map_sign {isSign : Char → Bool} {sign : Char} (hsign : isSign sign)
    (text : List Char) :
    (text.map fun c => if isSign c then sign else c).splitOn sign = text.splitOnP isSign := by
  induction text with
  | nil => rfl
  | cons c text ih =>
    rw [List.map_cons, List.splitOn_cons_eq_if_modifyHead, List.splitOnP_cons_eq_if_modifyHead, ih]
    by_cases hc : isSign c
    · simp [hc]
    · have hne : c ≠ sign := by
        rintro rfl
        exact hc hsign
      simp [hc, hne]

end ClasspathSymbols.Text
