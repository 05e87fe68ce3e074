import ClasspathSymbols.Json

/-!
# Strings in JSON

A string that is taken has to spell characters; of one that is skipped only the form counts, so
that half a surrogate pair may stand in it. `escape` writes a string, `readText` takes one.
-/
namespace ClasspathSymbols.Json

def hexDigit? (c : Char) : Option Nat :=
  if c.isDigit then some (c.toNat - '0'.toNat)
  else if 'a' ≤ c ∧ c ≤ 'f' then some (c.toNat - 'a'.toNat + 10)
  else if 'A' ≤ c ∧ c ≤ 'F' then some (c.toNat - 'A'.toNat + 10)
  else none

/-- The four digits of a code unit at the start of `s`. The text ends early if there are not even
four bytes. -/
def readUnit (s : List Char) : Except Problem (Nat × List Char) :=
  match s with
  | a :: b :: c :: d :: rest =>
    match hexDigit? a, hexDigit? b, hexDigit? c, hexDigit? d with
    | some a, some b, some c, some d => .ok (((a * 16 + b) * 16 + c) * 16 + d, rest)
    | _, _, _, _ => .error .malformed
  | short =>
    if short.foldl (fun n c => n + c.utf8Size) 0 < 4 then .error .endsEarly else .error .malformed

def isHighSurrogate (n : Nat) : Bool := 0xD800 ≤ n && n ≤ 0xDBFF

def isLowSurrogate (n : Nat) : Bool := 0xDC00 ≤ n && n ≤ 0xDFFF

def readLow (high : Nat) (s : List Char) : Except Problem (Char × List Char) :=
  match s with
  | [] | ['\\'] => .error .endsEarly
  | '\\' :: 'u' :: rest =>
    match readUnit rest with
    | .error e => .error e
    | .ok (low, rest) =>
      if isLowSurrogate low then
        .ok (Char.ofNat ((high - 0xD800) * 0x400 + (low - 0xDC00) + 0x10000), rest)
      else .error .malformed
  | _ => .error .malformed

def shortEscape? : Char → Option Char
  | '"' => some '"'
  | '\\' => some '\\'
  | '/' => some '/'
  | 'b' => some '\x08'
  | 'f' => some '\x0c'
  | 'n' => some '\n'
  | 'r' => some '\r'
  | 't' => some '\t'
  | _ => none

def readFromUnit (unit : Nat) (s : List Char) : Except Problem (Char × List Char) :=
  if isLowSurrogate unit then .error .malformed
  else if isHighSurrogate unit then readLow unit s
  else .ok (Char.ofNat unit, s)

def readEscape (s : List Char) : Except Problem (Char × List Char) :=
  match s with
  | [] => .error .endsEarly
  | c :: rest =>
    if c = 'u' then
      match readUnit rest with
      | .error e => .error e
      | .ok (unit, rest) => readFromUnit unit rest
    else
      match shortEscape? c with
      | some d => .ok (d, rest)
      | none => .error .malformed

def skipEscape (s : List Char) : Except Problem (List Char) :=
  match s with
  | [] => .error .endsEarly
  | c :: rest =>
    if c = 'u' then
      match readUnit rest with
      | .error e => .error e
      | .ok (_, rest) => .ok rest
    else if (shortEscape? c).isSome then .ok rest
    else .error .malformed

theorem readUnit_length {s rest : List Char} {n : Nat} (h : readUnit s = .ok (n, rest)) :
    rest.length < s.length := by
  unfold readUnit at h
  split at h
  · split at h
    · cases h
      simp only [List.length_cons]
      omega
    · cases h
  · split at h <;> cases h

theorem readLow_length {s rest : List Char} {n : Nat} {c : Char}
    (h : readLow n s = .ok (c, rest)) : rest.length < s.length := by
  unfold readLow at h
  split at h
  · cases h
  · cases h
  · split at h
    · cases h
    · rename_i heq
      have := readUnit_length heq
      split at h
      · simp only [Except.ok.injEq, Prod.mk.injEq] at h
        simp only [List.length_cons, ← h.2]
        omega
      · cases h
  · cases h

theorem readFromUnit_length {s rest : List Char} {n : Nat} {c : Char}
    (h : readFromUnit n s = .ok (c, rest)) : rest.length ≤ s.length := by
  unfold readFromUnit at h
  split at h
  · cases h
  · split at h
    · exact Nat.le_of_lt (readLow_length h)
    · simp only [Except.ok.injEq, Prod.mk.injEq] at h
      exact Nat.le_of_eq (congrArg List.length h.2.symm)

theorem readEscape_length {s rest : List Char} {c : Char}
    (h : readEscape s = .ok (c, rest)) : rest.length < s.length := by
  unfold readEscape at h
  split at h
  · cases h
  split at h
  · split at h
    · cases h
    · rename_i heq
      exact Nat.lt_succ_of_lt (Nat.lt_of_le_of_lt (readFromUnit_length h) (readUnit_length heq))
  · split at h
    · cases h
      exact Nat.lt_succ_self _
    · cases h

theorem skipEscape_length {s rest : List Char} (h : skipEscape s = .ok rest) :
    rest.length < s.length := by
  unfold skipEscape at h
  split at h
  · cases h
  split at h
  · split at h
    · cases h
    · rename_i heq
      cases h
      exact Nat.lt_succ_of_lt (readUnit_length heq)
  · split at h
    · cases h
      exact Nat.lt_succ_self _
    · cases h

def isControl (c : Char) : Bool := c.toNat < 0x20

/-- The characters of a string after its opening quote, up to the closing one. -/
def readText (s : List Char) : Except Problem (List Char) :=
  match s with
  | [] => .error .endsEarly
  | c :: rest =>
    if c = '"' then .ok []
    else if c = '\\' then
      match h : readEscape rest with
      | .error e => .error e
      | .ok (d, rest') =>
        have := readEscape_length h
        (readText rest').map (d :: ·)
    else if isControl c then .error .malformed
    else (readText rest).map (c :: ·)
termination_by s.length

def skipText (s : List Char) : Except Problem (List Char) :=
  match s with
  | [] => .error .endsEarly
  | c :: rest =>
    if c = '"' then .ok rest
    else if c = '\\' then
      match h : skipEscape rest with
      | .error e => .error e
      | .ok rest' =>
        have := skipEscape_length h
        skipText rest'
    else if isControl c then .error .malformed
    else skipText rest
termination_by s.length

theorem skipText_length {s rest : List Char} (h : skipText s = .ok rest) :
    rest.length < s.length := by
  fun_induction skipText s with
  | case1 => cases h
  | case2 => cases h; exact Nat.lt_succ_self _
  | case3 => cases h
  | case4 _ _ _ hlt _ ih => exact Nat.lt_succ_of_lt (Nat.lt_trans (ih h) hlt)
  | case5 => cases h
  | case6 _ _ _ _ _ ih => exact Nat.lt_succ_of_lt (ih h)

def escapeLetter? : Char → Option Char
  | '"' => some '"'
  | '\\' => some '\\'
  | '\x08' => some 'b'
  | '\x0c' => some 'f'
  | '\n' => some 'n'
  | '\r' => some 'r'
  | '\t' => some 't'
  | _ => none

def escapeChar (c : Char) : List Char :=
  match escapeLetter? c with
  | some letter => ['\\', letter]
  | none =>
    if isControl c then
      ['\\', 'u', '0', '0', Nat.digitChar (c.toNat / 16), Nat.digitChar (c.toNat % 16)]
    else [c]

def escape (s : List Char) : List Char := '"' :: s.flatMap escapeChar ++ ['"']

end ClasspathSymbols.Json
