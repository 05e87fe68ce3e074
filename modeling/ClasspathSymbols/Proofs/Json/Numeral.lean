import ClasspathSymbols.Json.Numeral

/-! # Numbers that are written are read

A reader of a part of a number takes the longest part that it can. What comes after a value never
lengthens a part, so that a number is read in the same way wherever it stands. -/
namespace ClasspathSymbols.Json

/-- What may come after a value that is written. -/
def AfterValue (rest : List Char) : Prop := ∀ c ∈ rest.head?, c = ',' ∨ c = ']' ∨ c = '}'

theorem AfterValue.nil : AfterValue [] := fun _ h => nomatch h

theorem AfterValue.cons {c : Char} (h : c = ',' ∨ c = ']' ∨ c = '}') (rest : List Char) :
    AfterValue (c :: rest) := by
  intro d hd
  obtain rfl := Option.some.inj hd
  exact h

variable {rest : List Char}

theorem AfterValue.not_in_number {c : Char} {s : List Char} (h : AfterValue (c :: s)) :
    ¬ c.isDigit ∧ c ≠ '.' ∧ ¬ (c = 'e' ∨ c = 'E') := by
  obtain rfl | rfl | rfl := h c rfl <;> decide

theorem takeWhile_isDigit_append (hrest : AfterValue rest) (s : List Char) :
    (s ++ rest).takeWhile Char.isDigit = s.takeWhile Char.isDigit := by
  induction s with
  | nil =>
    cases rest with
    | nil => rfl
    | cons c rest => exact List.takeWhile_cons_of_neg hrest.not_in_number.1
  | cons c s ih => rw [List.cons_append, List.takeWhile_cons, List.takeWhile_cons, ih]

theorem dropWhile_isDigit_append (hrest : AfterValue rest) (s : List Char) :
    (s ++ rest).dropWhile Char.isDigit = s.dropWhile Char.isDigit ++ rest := by
  induction s with
  | nil =>
    cases rest with
    | nil => rfl
    | cons c rest => exact List.dropWhile_cons_of_neg hrest.not_in_number.1
  | cons c s ih =>
    rw [List.cons_append, List.dropWhile_cons, List.dropWhile_cons, ih]
    split
    · rfl
    · rfl

theorem readExponent_sign {c : Char} (hc : c = 'e' ∨ c = 'E') (d : Char) (s : List Char) :
    readExponent (c :: d :: s) =
      if d = '-' then readPower true s
      else if d = '+' then readPower false s
      else readPower false (d :: s) := by
  unfold readExponent
  dsimp only
  rw [if_pos hc]
  split
  · rename_i heq
    cases heq
    rfl
  · rename_i heq
    cases heq
    rfl
  · rename_i hminus hplus
    rw [if_neg fun h => hminus s (congrArg (· :: s) h),
      if_neg fun h => hplus s (congrArg (· :: s) h)]

theorem readExponent_other {c : Char} (hc : ¬ (c = 'e' ∨ c = 'E')) (s : List Char) :
    readExponent (c :: s) = .ok (0, c :: s) := if_neg hc

section Parts

variable {s digits r : List Char} {e : Int} (hrest : AfterValue rest)
include hrest

theorem someDigits_append (h : someDigits s = .ok (digits, r)) :
    someDigits (s ++ rest) = .ok (digits, r ++ rest) := by
  rw [someDigits] at h ⊢
  rw [takeWhile_isDigit_append hrest, dropWhile_isDigit_append hrest]
  split at h
  · cases h
  · rename_i hne
    rw [if_neg hne]
    cases h
    rfl

theorem readWhole_append (h : readWhole s = .ok (digits, r)) :
    readWhole (s ++ rest) = .ok (digits, r ++ rest) := by
  simp only [readWhole, bind, Except.bind] at h ⊢
  split at h
  · cases h
  · rename_i heq
    rw [someDigits_append hrest heq]
    dsimp only
    split at h
    · cases h
    · rename_i halone
      cases h
      rw [if_neg halone]
      rfl

theorem readFraction_append (h : readFraction s = .ok (digits, r)) :
    readFraction (s ++ rest) = .ok (digits, r ++ rest) := by
  unfold readFraction at h
  split at h
  · exact someDigits_append hrest h
  · rename_i hdot
    cases h
    unfold readFraction
    split
    · rename_i tail heq
      cases s with
      | nil =>
        obtain rfl : rest = '.' :: tail := heq
        exact absurd rfl hrest.not_in_number.2.1
      | cons c s =>
        obtain ⟨rfl, -⟩ := List.cons.inj heq
        exact absurd rfl (hdot s)
    · rfl

theorem readPower_append {negative : Bool} (h : readPower negative s = .ok (e, r)) :
    readPower negative (s ++ rest) = .ok (e, r ++ rest) := by
  unfold readPower at h
  split at h
  · rename_i heq
    cases h
    rw [readPower, someDigits_append hrest heq]
  · cases h

theorem readExponent_append (h : readExponent s = .ok (e, r)) :
    readExponent (s ++ rest) = .ok (e, r ++ rest) := by
  cases s with
  | nil =>
    cases h
    cases rest with
    | nil => rfl
    | cons c rest => exact if_neg hrest.not_in_number.2.2
  | cons c s =>
    by_cases hc : c = 'e' ∨ c = 'E'
    · cases s with
      | nil =>
        have hshort : readExponent [c] = .error .atEnd := if_pos hc
        rw [hshort] at h
        cases h
      | cons d s =>
        rw [readExponent_sign hc] at h
        rw [List.cons_append, List.cons_append, readExponent_sign hc]
        split at h
        · rename_i hminus
          rw [if_pos hminus, readPower_append hrest h]
        · rename_i hminus
          rw [if_neg hminus]
          split at h
          · rename_i hplus
            rw [if_pos hplus, readPower_append hrest h]
          · rename_i hplus
            rw [if_neg hplus, ← List.cons_append, readPower_append hrest h]
    · rw [readExponent_other hc] at h
      cases h
      exact readExponent_other hc _

end Parts

theorem unsigned_append {s : List Char} (hs : s ≠ []) (rest : List Char) :
    (if (s ++ rest).head? = some '-' then (s ++ rest).tail else s ++ rest) =
      (if s.head? = some '-' then s.tail else s) ++ rest := by
  cases s with
  | nil => exact absurd rfl hs
  | cons c s =>
    rw [List.cons_append, List.head?_cons, List.head?_cons]
    split
    · rfl
    · rfl

/-- A number is read in the same way before anything that may come after it. -/
theorem readNumeral_append {s r : List Char} {n : Numeral} (hrest : AfterValue rest)
    (h : readNumeral s = .ok (n, r)) : readNumeral (s ++ rest) = .ok (n, r ++ rest) := by
  have hs : s ≠ [] := by
    rintro rfl
    cases h
  simp only [readNumeral, bind, Except.bind] at h ⊢
  rw [unsigned_append hs]
  split at h
  · cases h
  rename_i hwhole
  rw [readWhole_append hrest hwhole]
  dsimp only
  split at h
  · cases h
  rename_i hfraction
  rw [readFraction_append hrest hfraction]
  dsimp only
  split at h
  · cases h
  rename_i hexponent
  rw [readExponent_append hrest hexponent]
  cases h
  dsimp only
  rw [List.length_append, List.length_append, Nat.add_sub_add_right,
    List.take_append_of_le_length (Nat.sub_le _ _)]
  rfl

def IsNumeral (spelling : String) : Prop :=
  ∃ n, readNumeral spelling.toList = .ok (n, []) ∧ n.isFinite

theorem readNumeral_spelling {s r : List Char} {n : Numeral}
    (h : readNumeral s = .ok (n, r)) :
    n.spelling = s.take (s.length - r.length) := by
  simp only [readNumeral, bind, Except.bind] at h
  split at h
  · cases h
  split at h
  · cases h
  split at h
  · cases h
  cases h
  rfl

theorem readNumeral_head {s r : List Char} {n : Numeral} (h : readNumeral s = .ok (n, r)) :
    ∃ c rest, s = c :: rest ∧ (c = '-' ∨ c.isDigit) := by
  cases s with
  | nil => cases h
  | cons c s =>
    refine ⟨c, s, rfl, ?_⟩
    apply Decidable.byContradiction
    intro hneither
    obtain ⟨hsign, hdigit⟩ := not_or.1 hneither
    have hunsigned : (if (c :: s).head? = some '-' then (c :: s).tail else c :: s) = c :: s :=
      if_neg fun hhead => hsign (Option.some.inj hhead)
    have hwhole : readWhole (c :: s) = .error .atChar := by
      rw [readWhole, someDigits, List.takeWhile_cons_of_neg hdigit]
      rfl
    rw [readNumeral, hunsigned, hwhole] at h
    cases h

end ClasspathSymbols.Json
