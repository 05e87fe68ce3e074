import ClasspathSymbols.ClassFile.Verdict

/-! # Indices of constants

The index of a constant has sixteen bits. Only behind a constant of eight bytes that is the last of
a full pool does a sum not fit into them. Everywhere else arithmetic that wraps and arithmetic that
is checked read the same. -/
namespace ClasspathSymbols.ClassFile

/-- The sum is right where it fits into the sixteen bits. -/
def Adds {m : Type → Type} [Monad m] (advance : UInt16 → Nat → m UInt16) : Prop :=
  ∀ index width, index.toNat + width < UInt16.size →
    advance index width = pure (index + .ofNat width)

theorem adds_wrapping : Adds wrapping := fun _ _ _ => rfl

theorem adds_checked : Adds checked := fun _ _ h => if_pos h

theorem toNat_add_width {index : UInt16} {width : Nat} (h : index.toNat + width < UInt16.size) :
    (index + .ofNat width).toNat = index.toNat + width := by
  rw [UInt16.toNat_add, UInt16.toNat_ofNat', Nat.add_mod_mod, Nat.mod_eq_of_lt h]

variable {m : Type → Type} [Monad m] {advance : UInt16 → Nat → m UInt16}

theorem readConstants_of_lt {index count : UInt16} (h : index < count) (texts : Texts)
    (c : Cursor) :
    readConstants advance index count texts c = match readConstant index c with
      | .error e => pure (.error e)
      | .ok (entry, c') => advance index entry.width >>= fun next =>
        readConstants advance next count (entry.addTo index texts) c' := by
  rw [readConstants, if_pos h]
  split
  · rename_i e he
    rw [he]
  · rename_i entry c' he
    simp only [he]

theorem readConstants_of_not_lt {index count : UInt16} (h : ¬ index < count) (texts : Texts)
    (c : Cursor) : readConstants advance index count texts c = pure (.ok (texts, c)) := by
  rw [readConstants, if_neg h]

def readPool (index count : UInt16) (texts : Texts) : Reader Texts :=
  readConstants wrapping index count texts

theorem readPool_of_lt {index count : UInt16} (h : index < count) (texts : Texts) :
    readPool index count texts = readConstant index >>= fun entry =>
      readPool (index + .ofNat entry.width) count (entry.addTo index texts) := by
  funext c
  change readConstants wrapping index count texts c = readConstant index c >>= _
  rw [readConstants_of_lt h]
  cases readConstant index c <;> rfl

theorem readPool_of_not_lt {index count : UInt16} (h : ¬ index < count) (texts : Texts) :
    readPool index count texts = pure texts := by
  funext c
  exact readConstants_of_not_lt h texts c

def readVerdict : Reader Bool := readCount >>= fun count => readPool 1 count [] >>= readRest

theorem isDeprecated_eq (bytes : List UInt8) :
    isDeprecated bytes = (readVerdict (Cursor.start bytes)).map Prod.fst := by
  have hread : readVerdict (Cursor.start bytes) = (readCount (Cursor.start bytes)).bind fun x =>
      (readPool 1 x.1 [] x.2).bind fun y => readRest y.1 y.2 := rfl
  rw [hread, isDeprecated, verdict]
  cases readCount (Cursor.start bytes) with
  | error e => rfl
  | ok x =>
    change (readPool 1 x.1 [] x.2).bind _ = ((readPool 1 x.1 [] x.2).bind _).map _
    cases readPool 1 x.1 [] x.2 <;> rfl

/-- With checked sums the pool is read as with sums that wrap, unless it is full. -/
theorem readConstants_checked (index count : UInt16) (texts : Texts) (c : Cursor) :
    readConstants checked index count texts c = some (readPool index count texts c) ∨
      readConstants checked index count texts c = none ∧ count.toNat = UInt16.size - 1 := by
  -- The recursion is the reader's own, on the bytes that are left.
  by_cases hlt : index < count
  · have hwraps : readPool index count texts c = readConstant index c >>= fun x =>
        readPool (index + .ofNat x.1.width) count (x.1.addTo index texts) x.2 :=
      congrFun (readPool_of_lt hlt texts) c
    rw [readConstants_of_lt hlt, hwraps]
    cases hread : readConstant index c with
    | error e => exact Or.inl rfl
    | ok x =>
      obtain ⟨entry, c'⟩ := x
      obtain ⟨hshorter, hwidth⟩ := readConstant_takes hread
      dsimp only [bind, Except.bind]
      by_cases hfits : index.toNat + entry.width < UInt16.size
      · rw [adds_checked index entry.width hfits]
        exact readConstants_checked _ count _ c'
      · -- Only a constant of two indices at the last index of a full pool runs over.
        refine Or.inr ⟨?_, ?_⟩
        · rw [checked, if_neg hfits]
          rfl
        · have hcount := count.toNat_lt
          have hsize : UInt16.size = 65536 := rfl
          rw [UInt16.lt_iff_toNat_lt] at hlt
          omega
  · rw [readConstants_of_not_lt hlt, readPool_of_not_lt hlt]
    exact Or.inl rfl
termination_by c.rest.length

theorem isDeprecatedChecked_cases (bytes : List UInt8) :
    isDeprecatedChecked bytes = some (isDeprecated bytes) ∨ RunsOver bytes ∧
      ∃ count c, readCount (Cursor.start bytes) = .ok (count, c) ∧
        count.toNat = UInt16.size - 1 := by
  rw [RunsOver, isDeprecatedChecked, isDeprecated, verdict, verdict]
  cases hcount : readCount (Cursor.start bytes) with
  | error e => exact Or.inl rfl
  | ok x =>
    obtain ⟨count, c⟩ := x
    dsimp only
    rcases readConstants_checked 1 count [] c with hsame | ⟨hnone, hfull⟩
    · rw [hsame]
      exact Or.inl rfl
    · rw [hnone]
      exact Or.inr ⟨rfl, count, c, rfl, hfull⟩

/-- An index runs over only in a class file that declares as many constants as two bytes can. -/
theorem RunsOver.full {bytes : List UInt8} (h : RunsOver bytes) :
    ∃ count c, readCount (Cursor.start bytes) = .ok (count, c) ∧
      count.toNat = UInt16.size - 1 := by
  rcases isDeprecatedChecked_cases bytes with hsame | ⟨-, hfull⟩
  · rw [RunsOver, hsame] at h
    cases h
  · exact hfull

end ClasspathSymbols.ClassFile
