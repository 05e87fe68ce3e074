import ClasspathSymbols.Text.LineEnding

/-! # Normalised texts

Normalisation leaves no carriage return, so a text that has been normalised stays as it is. Putting
line feeds for pairs first and for single carriage returns then is the same as one pass, and only
a cut through a pair shows in the result. -/
namespace ClasspathSymbols.Text

theorem not_mem_normalize (s : List Char) : '\r' ∉ normalize s := by
  rw [normalize, List.mem_map]
  rintro ⟨c, -, hc⟩
  by_cases h : c = '\r'
  · rw [if_pos h] at hc
    cases hc
  · rw [if_neg h] at hc
    exact h hc

theorem joinPairs_of_not_mem {s : List Char} (h : '\r' ∉ s) : joinPairs s = s := by
  fun_induction joinPairs s with
  | case1 rest => exact absurd List.mem_cons_self h
  | case2 c rest _ ih => rw [ih fun hm => h (List.mem_cons_of_mem c hm)]
  | case3 => rfl

theorem normalize_of_not_mem {s : List Char} (h : '\r' ∉ s) : normalize s = s := by
  have hsame : ∀ c ∈ s, (if c = '\r' then '\n' else c) = id c := by
    intro c hc
    have hne : c ≠ '\r' := fun heq => h (heq ▸ hc)
    exact if_neg hne
  rw [normalize, joinPairs_of_not_mem h, List.map_congr_left hsame, List.map_id]

theorem normalizeText_text (s : String) :
    (normalizeText s).text = String.ofList (normalize s.toList) := by
  rw [normalizeText]
  split
  · rfl
  · rename_i h
    have hnone : '\r' ∉ s.toList := by simpa using h
    rw [normalize_of_not_mem hnone, String.ofList_toList]

theorem normalizeText_normalizeText (s : String) :
    (normalizeText (normalizeText s).text).text = (normalizeText s).text := by
  simp only [normalizeText_text, String.toList_ofList,
    normalize_of_not_mem (not_mem_normalize s.toList)]

theorem unify_cons {c : Char} {rest : List Char} (h : ¬ (c = '\r' ∧ rest.head? = some '\n')) :
    unify (c :: rest) = (if c = '\r' then '\n' else c) :: unify rest := by
  rw [unify]
  rintro after rfl rfl
  exact h ⟨rfl, rfl⟩

theorem normalize_eq_unify (s : List Char) : normalize s = unify s := by
  rw [normalize]
  fun_induction joinPairs s with
  | case1 rest ih => rw [unify, List.map_cons, ih, if_neg (by decide)]
  | case2 c rest hpair ih =>
    have hcut : ¬ (c = '\r' ∧ rest.head? = some '\n') := by
      rintro ⟨hc, hhead⟩
      obtain ⟨after, hafter⟩ := List.head?_eq_some_iff.1 hhead
      exact hpair after hc hafter
    rw [unify_cons hcut, List.map_cons, ih]
  | case3 => rfl

/-- A text may be cut anywhere but between a carriage return and its line feed. -/
theorem unify_append {a b : List Char} (h : ¬ (a.getLast? = some '\r' ∧ b.head? = some '\n')) :
    unify (a ++ b) = unify a ++ unify b := by
  fun_induction unify a with
  | case1 rest ih =>
    have hrest : ¬ (rest.getLast? = some '\r' ∧ b.head? = some '\n') := by
      rintro ⟨hlast, hhead⟩
      refine h ⟨?_, hhead⟩
      rw [List.getLast?_cons, List.getLast?_cons, hlast]
      rfl
    rw [List.cons_append, List.cons_append, unify, ih hrest, List.cons_append]
  | case2 c rest hpair ih =>
    have hrest : ¬ (rest.getLast? = some '\r' ∧ b.head? = some '\n') := by
      rintro ⟨hlast, hhead⟩
      refine h ⟨?_, hhead⟩
      rw [List.getLast?_cons, hlast]
      rfl
    have hcut : ¬ (c = '\r' ∧ (rest ++ b).head? = some '\n') := by
      rintro ⟨rfl, hhead⟩
      cases rest with
      | nil => exact h ⟨rfl, hhead⟩
      | cons d rest =>
        obtain rfl : d = '\n' := Option.some.inj hhead
        exact hpair rest rfl rfl
    rw [List.cons_append, unify_cons hcut, ih hrest, List.cons_append]
  | case3 => rfl

/-- A cut between a carriage return and its line feed makes two line ends of one. -/
theorem unify_append_iff (a b : List Char) :
    unify (a ++ b) = unify a ++ unify b ↔ ¬ (a.getLast? = some '\r' ∧ b.head? = some '\n') := by
  refine ⟨?_, unify_append⟩
  rintro heq ⟨hlast, hhead⟩
  obtain ⟨front, rfl⟩ := List.getLast?_eq_some_iff.1 hlast
  obtain ⟨rest, rfl⟩ := List.head?_eq_some_iff.1 hhead
  have hfront : ∀ after : List Char, unify (front ++ '\r' :: after) =
      unify front ++ unify ('\r' :: after) := by
    intro after
    apply unify_append
    rintro ⟨-, hr⟩
    cases hr
  rw [List.append_assoc, List.singleton_append, hfront, hfront] at heq
  have hlength := congrArg List.length heq
  simp [unify] at hlength

/-- Two replacements, one behind the other, come to one pass from left to right. What comes out has
no carriage return and is left alone from then on. Two texts may be normalised apart unless they
part a pair, and a text counts as unchanged just if there was nothing to replace in it. -/
theorem line_endings_are_unified (s : String) :
    (normalizeText s).text = String.ofList (unify s.toList) ∧
    '\r' ∉ (normalizeText s).text.toList ∧
    normalizeText (normalizeText s).text = ⟨(normalizeText s).text, true⟩ ∧
    (∀ t : String,
      (normalizeText (s ++ t)).text = (normalizeText s).text ++ (normalizeText t).text ↔
        ¬ (s.toList.getLast? = some '\r' ∧ t.toList.head? = some '\n')) ∧
    ((normalizeText s).unchanged = true ↔ '\r' ∉ s.toList) ∧
    (normalizeText s = ⟨s, true⟩ ↔ '\r' ∉ s.toList) := by
  have htext : ∀ t : String, (normalizeText t).text = String.ofList (unify t.toList) := by
    intro t
    rw [normalizeText_text, normalize_eq_unify]
  have hclean : '\r' ∉ (normalizeText s).text.toList := by
    rw [normalizeText_text, String.toList_ofList]
    exact not_mem_normalize s.toList
  have hkept : ∀ t : String, normalizeText t = ⟨t, true⟩ ↔ '\r' ∉ t.toList := by
    intro t
    rw [normalizeText]
    by_cases hc : '\r' ∈ t.toList
    · simp [hc]
    · simp [hc]
  refine ⟨htext s, hclean, (hkept _).2 hclean, fun t => ?_, ?_, hkept s⟩
  · rw [htext, htext, htext, ← String.ofList_append, String.ofList_inj, String.toList_append]
    exact unify_append_iff s.toList t.toList
  · rw [normalizeText]
    by_cases hc : '\r' ∈ s.toList
    · simp [hc]
    · simp [hc]

end ClasspathSymbols.Text
