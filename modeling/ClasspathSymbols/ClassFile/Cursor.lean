/-!
# Reading class files

A cursor holds the bytes still to be read and how many came before them. Reading past the end
fails at the position where the read began. Numbers are big-endian.
-/
namespace ClasspathSymbols.ClassFile

inductive ClassFileError where
  | badMagic
  | truncated (position : Nat)
  | badConstant (tag index : Nat)
  deriving DecidableEq, Repr

def ClassFileError.message : ClassFileError → String
  | .badMagic => "not a class file"
  | .truncated position => s!"class file truncated at byte {position}"
  | .badConstant tag index => s!"unknown constant pool tag {tag} at index {index}"

structure Cursor where
  position : Nat
  rest : List UInt8
  deriving DecidableEq, Repr

def Cursor.start (bytes : List UInt8) : Cursor := ⟨0, bytes⟩

abbrev Reader := StateT Cursor (Except ClassFileError)

theorem then_eq_ok_iff {α β : Type} {r : Reader α} {f : α → Reader β} {c c' : Cursor} {w : β} :
    (r >>= f) c = .ok (w, c') ↔ ∃ v d, r c = .ok (v, d) ∧ f v d = .ok (w, c') := by
  change (r c >>= fun x => f x.1 x.2) = _ ↔ _
  cases r c with
  | error e => exact iff_of_false nofun (by rintro ⟨_, _, ⟨⟩, -⟩)
  | ok x =>
    constructor
    · exact fun h => ⟨x.1, x.2, rfl, h⟩
    · rintro ⟨_, _, ⟨⟩, h⟩
      exact h

def take (n : Nat) : Reader (List UInt8) := fun c =>
  if (c.rest.take n).length = n then .ok (c.rest.take n, ⟨c.position + n, c.rest.drop n⟩)
  else .error (.truncated c.position)

def bigEndian (bytes : List UInt8) : Nat := bytes.foldl (fun n b => n * 256 + b.toNat) 0

def number (n : Nat) : Reader Nat := fun c =>
  match take n c with
  | .ok (taken, c) => .ok (bigEndian taken, c)
  | .error e => .error e

def skip (n : Nat) : Reader Unit := fun c =>
  match take n c with
  | .ok (_, c) => .ok ((), c)
  | .error e => .error e

theorem take_eq_ok_iff {n : Nat} {c c' : Cursor} {taken : List UInt8} :
    take n c = .ok (taken, c') ↔
      c.rest = taken ++ c'.rest ∧ taken.length = n ∧ c'.position = c.position + n := by
  unfold take
  constructor
  · split
    · rintro ⟨⟩
      simp_all
    · nofun
  · rintro ⟨h, rfl, hp⟩
    cases c'
    simp_all

theorem take_length {n : Nat} {c c' : Cursor} {taken : List UInt8}
    (h : take n c = .ok (taken, c')) : c.rest.length = n + c'.rest.length := by
  obtain ⟨hrest, hlen, -⟩ := take_eq_ok_iff.1 h
  rw [hrest, List.length_append, hlen]

theorem skip_length {n : Nat} {c c' : Cursor} (h : skip n c = .ok ((), c')) :
    c.rest.length = n + c'.rest.length := by
  unfold skip at h
  split at h
  · rename_i heq
    cases h
    exact take_length heq
  · cases h

theorem number_length {n v : Nat} {c c' : Cursor} (h : number n c = .ok (v, c')) :
    c.rest.length = n + c'.rest.length := by
  unfold number at h
  split at h
  · rename_i heq
    cases h
    exact take_length heq
  · cases h

end ClasspathSymbols.ClassFile
