import ClasspathSymbols.Json.Decode
import ClasspathSymbols.Json.Printer
import ClasspathSymbols.Proofs.Json.Numeral
import ClasspathSymbols.Proofs.Json.Text

/-! # Values that are printed are read

A value is printed as a row of tokens, and this row is read as the value. The tokens stand between
the two: the printer and the division into tokens are compared character by character, the reader
only sees the row. -/
namespace ClasspathSymbols.Json

mutual

/-- Whether a value may be taken at this depth: what it has for numbers are numbers, and arrays and
objects do not lie too deep. -/
def Fits (depth : Nat) : Json → Prop
  | .null | .bool _ | .string _ => True
  | .number spelling => IsNumeral spelling
  | .array items => depth < maxDepth ∧ ItemsFit (depth + 1) items
  | .object fields => depth < maxDepth ∧ FieldsFit (depth + 1) fields

def ItemsFit (depth : Nat) : List Json → Prop
  | [] => True
  | v :: rest => v.Fits depth ∧ ItemsFit depth rest

def FieldsFit (depth : Nat) : List (String × Json) → Prop
  | [] => True
  | (_, v) :: rest => v.Fits depth ∧ FieldsFit depth rest

end

mutual

def row : Json → List Token
  | .null => [.atom (.of .null)]
  | .bool b => [.atom (.of (.bool b))]
  | .number spelling => [.atom (.of (.number spelling))]
  | .string s => [.text (.of (.string s))]
  | .array items => .opening false :: itemsRow items ++ [.closing false]
  | .object fields => .opening true :: fieldsRow fields ++ [.closing true]

def itemsRow : List Json → List Token
  | [] => []
  | [v] => v.row
  | v :: w :: rest => v.row ++ .comma :: itemsRow (w :: rest)

def fieldsRow : List (String × Json) → List Token
  | [] => []
  | [(key, v)] => .text (.of (.string key)) :: .colon :: v.row
  | (key, v) :: f :: rest =>
    .text (.of (.string key)) :: .colon :: v.row ++ .comma :: fieldsRow (f :: rest)

end

section Tokens

variable {c : Char} {s rest : List Char}

theorem tokens_cons {t : Token} (hspace : ¬ isSpace c) (h : readToken c s = (t, some rest)) :
    tokens (c :: s) = t :: tokens rest := by
  rw [tokens, if_neg hspace]
  split
  · rename_i heq
    rw [h] at heq
    cases heq
  · rename_i rest' heq
    show (readToken c s).1 :: tokens rest' = t :: tokens rest
    rw [h] at heq
    obtain rfl := Option.some.inj heq
    rw [h]

theorem tokens_comma (rest : List Char) : tokens (',' :: rest) = .comma :: tokens rest :=
  tokens_cons (by decide) rfl

theorem tokens_colon (rest : List Char) : tokens (':' :: rest) = .colon :: tokens rest :=
  tokens_cons (by decide) rfl

theorem tokens_escape (s : String) (rest : List Char) :
    tokens (escape s.toList ++ rest) = .text (.of (.string s)) :: tokens rest := by
  have hshape : escape s.toList ++ rest = '"' :: (s.toList.flatMap escapeChar ++ '"' :: rest) := by
    rw [escape, List.append_assoc, List.cons_append, List.singleton_append]
  rw [hshape]
  refine tokens_cons (by decide) ?_
  show (textScalar _).map Token.text id = _
  rw [textScalar_escaped]
  rfl

theorem readToken_number (hc : c = '-' ∨ c.isDigit) (rest : List Char) :
    readToken c rest = (numberScalar (c :: rest)).map .atom id := by
  unfold readToken
  split
  case h_11 => exact if_pos hc
  all_goals exact absurd hc (by decide)

theorem not_isSpace_of_number (hc : c = '-' ∨ c.isDigit) : ¬ isSpace c := by
  intro hspace
  simp only [isSpace, Bool.or_eq_true, decide_eq_true_eq] at hspace
  obtain ((rfl | rfl) | rfl) | rfl := hspace
  all_goals exact absurd hc (by decide)

theorem tokens_number {spelling : String} (h : IsNumeral spelling) (hrest : AfterValue rest) :
    tokens (spelling.toList ++ rest) = .atom (.of (.number spelling)) :: tokens rest := by
  obtain ⟨n, hread, hfinite⟩ := h
  obtain ⟨c, s, hchars, hc⟩ := readNumeral_head hread
  have hspelling : n.spelling = spelling.toList := by
    rw [readNumeral_spelling hread, List.length_nil, Nat.sub_zero, List.take_length]
  have hscalar : numberScalar (c :: (s ++ rest)) = (.of (.number spelling), some rest) := by
    rw [← List.cons_append, ← hchars, numberScalar, readNumeral_append hrest hread]
    dsimp only
    rw [Numeral.taken, if_pos hfinite, hspelling, String.ofList_toList]
    rfl
  rw [hchars, List.cons_append]
  refine tokens_cons (not_isSpace_of_number hc) ?_
  rw [readToken_number hc, hscalar]
  rfl

theorem readWord_append (word rest : List Char) : readWord word (word ++ rest) = .ok rest := by
  induction word with
  | nil => rfl
  | cons c word ih => rw [List.cons_append, readWord, if_pos rfl, ih]

theorem tokens_word {v : Json} (word : List Char)
    (h : readToken c (word ++ rest) = (wordScalar v word (word ++ rest)).map .atom id)
    (hspace : ¬ isSpace c) : tokens (c :: (word ++ rest)) = .atom (.of v) :: tokens rest := by
  refine tokens_cons hspace ?_
  rw [h, wordScalar, readWord_append]
  rfl

end Tokens

mutual

theorem tokens_compactChars {rest : List Char} {depth : Nat} (hrest : AfterValue rest) :
    ∀ v : Json, v.Fits depth → tokens (v.compactChars ++ rest) = v.row ++ tokens rest
  | .null, _ => tokens_word "ull".toList rfl (by decide)
  | .bool true, _ => tokens_word "rue".toList rfl (by decide)
  | .bool false, _ => tokens_word "alse".toList rfl (by decide)
  | .number spelling, h => tokens_number h hrest
  | .string s, _ => tokens_escape s rest
  | .array items, h => by
    rw [compactChars, row, List.append_assoc, List.cons_append, List.cons_append,
      List.append_assoc, List.singleton_append, List.cons_append]
    rw [tokens_cons (t := .opening false) (by decide) rfl,
      tokens_compactItems (.cons (.inr (.inl rfl)) _) items h.2,
      tokens_cons (t := .closing false) (by decide) rfl]
    rfl
  | .object fields, h => by
    rw [compactChars, row, List.append_assoc, List.cons_append, List.cons_append,
      List.append_assoc, List.singleton_append, List.cons_append]
    rw [tokens_cons (t := .opening true) (by decide) rfl,
      tokens_compactFields (.cons (.inr (.inr rfl)) _) fields h.2,
      tokens_cons (t := .closing true) (by decide) rfl]
    rfl

theorem tokens_compactItems {rest : List Char} {depth : Nat} (hrest : AfterValue rest) :
    ∀ items : List Json, ItemsFit depth items →
      tokens (separated [','] (compactItems items) ++ rest) = itemsRow items ++ tokens rest
  | [], _ => rfl
  | [v], h => tokens_compactChars hrest v h.1
  | v :: w :: items, h => by
    show tokens (v.compactChars ++ [','] ++ separated [','] (compactItems (w :: items)) ++ rest) = _
    rw [List.append_assoc, List.append_assoc, List.singleton_append,
      tokens_compactChars (.cons (.inl rfl) _) v h.1, tokens_comma,
      tokens_compactItems hrest (w :: items) h.2, itemsRow, List.append_assoc, List.cons_append]

theorem tokens_compactFields {rest : List Char} {depth : Nat} (hrest : AfterValue rest) :
    ∀ fields : List (String × Json), FieldsFit depth fields →
      tokens (separated [','] (compactFields fields) ++ rest) = fieldsRow fields ++ tokens rest
  | [], _ => rfl
  | [(key, v)], h => by
    show tokens (escape key.toList ++ ':' :: v.compactChars ++ rest) = _
    rw [List.append_assoc, tokens_escape, List.cons_append, tokens_colon,
      tokens_compactChars hrest v h.1]
    rfl
  | (key, v) :: f :: fields, h => by
    show tokens (escape key.toList ++ ':' :: v.compactChars ++ [','] ++
      separated [','] (compactFields (f :: fields)) ++ rest) = _
    rw [List.append_assoc, List.append_assoc, List.append_assoc, tokens_escape, List.cons_append,
      tokens_colon, List.singleton_append, tokens_compactChars (.cons (.inl rfl) _) v h.1,
      tokens_comma, tokens_compactFields hrest (f :: fields) h.2, fieldsRow]
    simp only [List.cons_append, List.append_assoc]

end

end ClasspathSymbols.Json
