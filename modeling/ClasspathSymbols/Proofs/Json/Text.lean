import ClasspathSymbols.Json.Token

/-! # Strings that are written are read

A character is written as itself or as an escape, and the reader takes what is written for one
character as that character. The quote that ends a string is the only one that is not escaped. -/
namespace ClasspathSymbols.Json

theorem hexDigit?_digitChar {n : Nat} (h : n < 16) : hexDigit? (Nat.digitChar n) = some n := by
  have hall : ∀ k < 16, hexDigit? (Nat.digitChar k) = some k := by decide
  exact hall n h

theorem shortEscape?_of_letter {c letter : Char} (h : escapeLetter? c = some letter) :
    letter ≠ 'u' ∧ shortEscape? letter = some c := by
  unfold escapeLetter? at h
  split at h
  case h_8 => cases h
  all_goals
    obtain rfl := Option.some.inj h
    decide

theorem ne_of_no_letter {c : Char} (h : escapeLetter? c = none) : c ≠ '"' ∧ c ≠ '\\' := by
  constructor
  · rintro rfl
    cases h
  · rintro rfl
    cases h

theorem readUnit_control {c : Char} (h : isControl c) (rest : List Char) :
    readUnit ('0' :: '0' :: Nat.digitChar (c.toNat / 16) :: Nat.digitChar (c.toNat % 16) :: rest) =
      .ok (c.toNat, rest) := by
  have hsmall : c.toNat < 0x20 := of_decide_eq_true h
  have hzero : hexDigit? '0' = some 0 := by decide
  have hhigh := hexDigit?_digitChar (n := c.toNat / 16) (by omega)
  have hlow := hexDigit?_digitChar (n := c.toNat % 16) (by omega)
  have hsum : ((0 * 16 + 0) * 16 + c.toNat / 16) * 16 + c.toNat % 16 = c.toNat := by omega
  simp only [readUnit, hzero, hhigh, hlow, hsum]

theorem readFromUnit_control {c : Char} (h : isControl c) (rest : List Char) :
    readFromUnit c.toNat rest = .ok (c, rest) := by
  have hsmall : c.toNat < 0x20 := of_decide_eq_true h
  have hlow : ¬ isLowSurrogate c.toNat := by
    simp only [isLowSurrogate, Bool.and_eq_true, decide_eq_true_eq]
    omega
  have hhigh : ¬ isHighSurrogate c.toNat := by
    simp only [isHighSurrogate, Bool.and_eq_true, decide_eq_true_eq]
    omega
  rw [readFromUnit, if_neg hlow, if_neg hhigh, Char.ofNat_toNat]

theorem readText_escape {c : Char} {s rest : List Char} (h : readEscape s = .ok (c, rest)) :
    readText ('\\' :: s) = (readText rest).map (c :: ·) := by
  rw [readText, if_neg (by decide), if_pos rfl]
  split
  · rename_i heq
    rw [h] at heq
    cases heq
  · rename_i heq
    rw [h] at heq
    cases heq
    rfl

theorem skipText_escape {s rest : List Char} (h : skipEscape s = .ok rest) :
    skipText ('\\' :: s) = skipText rest := by
  rw [skipText, if_neg (by decide), if_pos rfl]
  split
  · rename_i heq
    rw [h] at heq
    cases heq
  · rename_i heq
    rw [h] at heq
    cases heq
    rfl

theorem readText_escapeChar (c : Char) (rest : List Char) :
    readText (escapeChar c ++ rest) = (readText rest).map (c :: ·) := by
  rw [escapeChar]
  cases hletter : escapeLetter? c with
  | some letter =>
    obtain ⟨hne, hshort⟩ := shortEscape?_of_letter hletter
    show readText ('\\' :: letter :: rest) = _
    refine readText_escape ?_
    rw [readEscape, if_neg hne, hshort]
  | none =>
    obtain ⟨hquote, hslash⟩ := ne_of_no_letter hletter
    dsimp only
    by_cases hcontrol : isControl c
    · rw [if_pos hcontrol]
      show readText ('\\' :: 'u' :: '0' :: '0' :: _ :: _ :: rest) = _
      refine readText_escape ?_
      rw [readEscape, if_pos rfl, readUnit_control hcontrol]
      exact readFromUnit_control hcontrol rest
    · rw [if_neg hcontrol, List.singleton_append, readText, if_neg hquote, if_neg hslash,
        if_neg hcontrol]

theorem skipText_escapeChar (c : Char) (rest : List Char) :
    skipText (escapeChar c ++ rest) = skipText rest := by
  rw [escapeChar]
  cases hletter : escapeLetter? c with
  | some letter =>
    obtain ⟨hne, hshort⟩ := shortEscape?_of_letter hletter
    show skipText ('\\' :: letter :: rest) = _
    refine skipText_escape ?_
    rw [skipEscape, if_neg hne, hshort]
    rfl
  | none =>
    obtain ⟨hquote, hslash⟩ := ne_of_no_letter hletter
    dsimp only
    by_cases hcontrol : isControl c
    · rw [if_pos hcontrol]
      show skipText ('\\' :: 'u' :: '0' :: '0' :: _ :: _ :: rest) = _
      refine skipText_escape ?_
      rw [skipEscape, if_pos rfl, readUnit_control hcontrol]
    · rw [if_neg hcontrol, List.singleton_append, skipText, if_neg hquote, if_neg hslash,
        if_neg hcontrol]

theorem readText_escaped (s rest : List Char) :
    readText (s.flatMap escapeChar ++ '"' :: rest) = .ok s := by
  induction s with
  | nil => rw [List.flatMap_nil, List.nil_append, readText, if_pos rfl]
  | cons c s ih =>
    rw [List.flatMap_cons, List.append_assoc, readText_escapeChar, ih]
    rfl

theorem skipText_escaped (s rest : List Char) :
    skipText (s.flatMap escapeChar ++ '"' :: rest) = .ok rest := by
  induction s with
  | nil => rw [List.flatMap_nil, List.nil_append, skipText, if_pos rfl]
  | cons c s ih => rw [List.flatMap_cons, List.append_assoc, skipText_escapeChar, ih]

def Scalar.of (v : Json) : Scalar := ⟨.ok v, .ok ()⟩

theorem textScalar_escaped (s : String) (rest : List Char) :
    textScalar (s.toList.flatMap escapeChar ++ '"' :: rest) = (.of (.string s), some rest) := by
  rw [textScalar, skipText_escaped, readText_escaped]
  dsimp only [Except.map]
  rw [String.ofList_toList]
  rfl

end ClasspathSymbols.Json
