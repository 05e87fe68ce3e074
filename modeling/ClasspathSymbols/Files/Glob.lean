/-!
# Globs

Patterns over slash-separated names, matched byte by byte against a whole name. A star stays
within one part, a double star that fills a part stands for any number of parts, and braces hold
alternatives, which are multiplied out: a glob is a list of flat patterns.
-/
namespace ClasspathSymbols.Glob

inductive Atom where
  | byte (b : UInt8)
  /-- One byte of a part. -/
  | any
  /-- Any bytes of a part. -/
  | many
  | oneOf (negated : Bool) (ranges : List (UInt8 × UInt8))
  /-- Any parts in front, each with its slash. -/
  | partsBefore
  /-- A slash and anything after it. -/
  | partsAfter
  /-- A slash, any parts, and the slash behind them. -/
  | partsBetween
  deriving DecidableEq, Repr

abbrev Pattern := List Atom

def slash : UInt8 := 0x2F

def suffixes : List UInt8 → List (List UInt8)
  | [] => [[]]
  | b :: rest => (b :: rest) :: suffixes rest

/-- What is left after any run of bytes without a slash. -/
def withinPart : List UInt8 → List (List UInt8)
  | [] => [[]]
  | b :: rest => (b :: rest) :: if b = slash then [] else withinPart rest

def afterSlashes : List UInt8 → List (List UInt8)
  | [] => []
  | b :: rest => if b = slash then rest :: afterSlashes rest else afterSlashes rest

/-- Every way in which the atom can match at the start of a name leaves one of these rests. -/
def Atom.rests : Atom → List UInt8 → List (List UInt8)
  | .byte a, b :: rest => if a = b then [rest] else []
  | .any, b :: rest => if b = slash then [] else [rest]
  | .oneOf negated ranges, b :: rest =>
    if (ranges.any fun (low, high) => low ≤ b && b ≤ high) != negated then [rest] else []
  | .many, s => withinPart s
  | .partsBefore, s => s :: afterSlashes s
  | .partsAfter, b :: rest => if b = slash then suffixes rest else []
  | .partsBetween, b :: rest => if b = slash then rest :: afterSlashes rest else []
  | _, [] => []

def Pattern.accepts : Pattern → List UInt8 → Bool
  | [], s => s.isEmpty
  | a :: p, s => (a.rests s).any fun rest => Pattern.accepts p rest

/-- The tokens of one alternative so far, as the flat patterns they multiply out to. -/
structure Branch where
  started : Bool
  patterns : List Pattern

def Branch.fresh : Branch := ⟨false, [[]]⟩

def Branch.push (b : Branch) (atoms : List Atom) : Branch :=
  ⟨true, b.patterns.map (· ++ atoms)⟩

def Branch.pushGroup (b : Branch) (group : List Branch) : Branch :=
  let patterns := (group.filter (·.started)).flatMap (·.patterns)
  ⟨true, if patterns = [] then b.patterns
    else b.patterns.flatMap fun p => patterns.map (p ++ ·)⟩

/-- A double star takes the place of the slash before it; next to another double star it adds
nothing. -/
def Branch.replaceSlash (b : Branch) (atom : Atom) : Branch :=
  ⟨true, b.patterns.map fun p => match p.getLast? with
    | some .partsBefore | some .partsAfter => p
    | _ => p.dropLast ++ [atom]⟩

def bytesOf (c : Char) : List UInt8 := (String.singleton c).toUTF8.data.toList

def Branch.pushChar (b : Branch) (c : Char) : Branch := b.push ((bytesOf c).map .byte)

def byteRanges (low high : Char) : List (UInt8 × UInt8) :=
  if low = high then (bytesOf low).map fun b => (b, b)
  else
    (bytesOf low).dropLast.map (fun b => (b, b)) ++
      [((bytesOf low).getLastD 0, (bytesOf high).headD 0)] ++
      (bytesOf high).tail.map fun b => (b, b)

inductive ClassReading where
  | unclosed
  | badRange
  | closed (ranges : List (Char × Char)) (rest : List Char)

/-- The inside of a bracket, with its ranges in reverse and the last one open for a dash. -/
def readClass (first inRange : Bool) (ranges : List (Char × Char)) : List Char → ClassReading
  | [] => .unclosed
  | ']' :: rest =>
    if first then readClass false false ((']', ']') :: ranges) rest
    else .closed (if inRange then ('-', '-') :: ranges else ranges) rest
  | c :: rest =>
    match inRange, ranges with
    | true, (low, _) :: earlier =>
      if c < low then .badRange else readClass false false ((low, c) :: earlier) rest
    | _, _ =>
      if c = '-' ∧ !first then readClass false true ranges rest
      else readClass false false ((c, c) :: ranges) rest

theorem readClass_shorter {cs rest : List Char} {first inRange : Bool}
    {ranges out : List (Char × Char)}
    (h : readClass first inRange ranges cs = .closed out rest) : rest.length < cs.length := by
  induction cs generalizing first inRange ranges with
  | nil => simp [readClass] at h
  | cons c cs ih =>
    unfold readClass at h
    split at h
    · cases h
    · rename_i heq
      cases heq
      split at h
      · exact Nat.lt_succ_of_lt (ih h)
      · simp_all
    · rename_i heq
      cases heq
      split at h
      · split at h
        · simp at h
        · exact Nat.lt_succ_of_lt (ih h)
      · split at h <;> exact Nat.lt_succ_of_lt (ih h)

def negates : List Char → Bool
  | '!' :: _ | '^' :: _ => true
  | _ => false

def fillsFromStart (previous : Option Char) (inGroup : Bool) : Bool :=
  previous == some '/' || (inGroup && (previous == some ',' || previous == some '{'))

/-- Reads what is left of a glob. `outer` holds the open groups, innermost first: the branch
around each and its alternatives so far in reverse. `previous` is the character just read. -/
def read (previous : Option Char) (outer : List (Branch × List Branch)) (branch : Branch)
    (cs : List Char) : Option (List Pattern) :=
  match cs with
  | [] => if outer.isEmpty then some branch.patterns else none
  | '?' :: rest => read (some '?') outer (branch.push [.any]) rest
  | '*' :: '*' :: '/' :: rest =>
    if !branch.started then read (some '/') outer (branch.push [.partsBefore]) rest
    else if fillsFromStart previous !outer.isEmpty then
      read (some '/') outer (branch.replaceSlash .partsBetween) rest
    else read (some '*') outer (branch.push [.many, .many]) ('/' :: rest)
  | '*' :: '*' :: rest =>
    let ends := rest.isEmpty ||
      (!outer.isEmpty && (rest.head? == some ',' || rest.head? == some '}'))
    if !branch.started && rest.isEmpty then
      read (some '*') outer (branch.push [.partsBefore]) rest
    else if branch.started && ends && fillsFromStart previous !outer.isEmpty then
      read (some '*') outer (branch.replaceSlash .partsAfter) rest
    else read (some '*') outer (branch.push [.many, .many]) rest
  | '*' :: rest => read (some '*') outer (branch.push [.many]) rest
  | '[' :: rest =>
    let negated := negates rest
    match h : readClass true false [] (if negated then rest.tail else rest) with
    | .unclosed => read (some '[') outer (branch.pushChar '[') rest
    | .badRange => none
    | .closed ranges after =>
      have : after.length < rest.length := by
        have := readClass_shorter h
        split at this
        · rw [List.length_tail] at this; omega
        · exact this
      read (some ']') outer
        (branch.push [.oneOf negated (ranges.flatMap fun (low, high) => byteRanges low high)]) after
  | '{' :: rest => read (some '{') ((branch, []) :: outer) .fresh rest
  | '}' :: rest =>
    match outer with
    | [] => none
    | (around, group) :: outer =>
      read (some '}') outer (around.pushGroup (branch :: group).reverse) rest
  | ',' :: rest =>
    match outer with
    | [] => read (some ',') [] (branch.pushChar ',') rest
    | (around, group) :: outer => read (some ',') ((around, branch :: group) :: outer) .fresh rest
  | '\\' :: c :: rest => read (some c) outer (branch.pushChar c) rest
  | ['\\'] => none
  | c :: rest => read (some c) outer (branch.pushChar c) rest
termination_by cs.length

/-- The patterns of a glob, `none` where it is malformed. A glob that is one double star takes in
everything. -/
def patterns? (glob : List Char) : Option (List Pattern) :=
  (read none [] .fresh glob).map fun ps =>
    if ps = [[.partsBefore]] then [[.partsBefore, .many]] else ps

end ClasspathSymbols.Glob
