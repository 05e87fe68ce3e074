import ClasspathSymbols.Proofs.ClassFile.Encoding

/-! # Readers take what encoders write

`Reads r bytes v` says that the reader takes exactly these bytes, wherever they stand and whatever
follows them, and returns `v`. It composes along the steps of a reader. -/
namespace ClasspathSymbols.ClassFile

variable {α β : Type}

def Reads (r : Reader α) (bytes : List UInt8) (v : α) : Prop :=
  ∀ position rest, r ⟨position, bytes ++ rest⟩ = .ok (v, ⟨position + bytes.length, rest⟩)

theorem Reads.pure (v : α) : Reads (pure v) [] v := fun _ _ => rfl

theorem Reads.then {r : Reader α} {bytes : List UInt8} {v : α} (h : Reads r bytes v)
    (f : α → Reader β) (position : Nat) (rest : List UInt8) :
    (r >>= f) ⟨position, bytes ++ rest⟩ = f v ⟨position + bytes.length, rest⟩ := by
  change (r _ >>= fun x => f x.1 x.2) = _
  rw [h]
  rfl

theorem Reads.bind {r : Reader α} {f : α → Reader β} {bytes more : List UInt8} {v : α} {w : β}
    (h : Reads r bytes v) (k : Reads (f v) more w) : Reads (r >>= f) (bytes ++ more) w := by
  intro position rest
  rw [List.append_assoc, h.then, k, List.length_append, Nat.add_assoc]

theorem Reads.last {r : Reader α} {f : α → Reader β} {bytes : List UInt8} {v : α} {w : β}
    (h : Reads r bytes v) (k : Reads (f v) [] w) : Reads (r >>= f) bytes w := by
  rw [← List.append_nil bytes]
  exact h.bind k

theorem Reads.feed {r : Reader α} {bytes : List UInt8} {v : α} (h : Reads r bytes v)
    (f : α × Cursor → Except ClassFileError β) (position : Nat) (rest : List UInt8) :
    (r ⟨position, bytes ++ rest⟩ >>= f) = f (v, ⟨position + bytes.length, rest⟩) := by
  rw [h]
  rfl

/-- The reader answers `v`, but may leave some of the bytes. -/
def Yields (r : Reader α) (bytes : List UInt8) (v : α) : Prop :=
  ∀ position rest, (r ⟨position, bytes ++ rest⟩).map Prod.fst = .ok v

theorem Reads.yields {r : Reader α} {bytes : List UInt8} {v : α} (h : Reads r bytes v) :
    Yields r bytes v := by
  intro position rest
  rw [h]
  rfl

theorem Yields.bind {r : Reader α} {f : α → Reader β} {bytes more : List UInt8} {v : α} {w : β}
    (h : Reads r bytes v) (k : Yields (f v) more w) : Yields (r >>= f) (bytes ++ more) w := by
  intro position rest
  rw [List.append_assoc, h.then, k]

theorem reads_take {n : Nat} {bytes : List UInt8} (h : bytes.length = n) :
    Reads (take n) bytes bytes := by
  intro position rest
  exact take_eq_ok_iff.2 ⟨rfl, h, by rw [h]⟩

theorem reads_skip {n : Nat} {bytes : List UInt8} (h : bytes.length = n) :
    Reads (skip n) bytes () := by
  intro position rest
  simp only [skip, reads_take h position rest]

@[simp] theorem encodeNumber_length (k n : Nat) : (encodeNumber k n).length = k := by
  induction k generalizing n with
  | zero => rfl
  | succ k ih => simp [encodeNumber, ih]

theorem bigEndian_snoc (bytes : List UInt8) (b : UInt8) :
    bigEndian (bytes ++ [b]) = bigEndian bytes * 256 + b.toNat := by
  simp [bigEndian]

theorem bigEndian_encodeNumber {k n : Nat} (h : n < 256 ^ k) :
    bigEndian (encodeNumber k n) = n := by
  induction k generalizing n with
  | zero =>
    rw [Nat.pow_zero] at h
    simp only [encodeNumber, bigEndian, List.foldl_nil]
    omega
  | succ k ih =>
    have hd : n / 256 < 256 ^ k := by
      rw [Nat.pow_succ] at h
      exact Nat.div_lt_of_lt_mul (by rwa [Nat.mul_comm])
    rw [encodeNumber, bigEndian_snoc, ih hd, UInt8.toNat_ofNat']
    omega

theorem reads_number {k n : Nat} (h : n < 256 ^ k) :
    Reads (number k) (encodeNumber k n) n := by
  intro position rest
  have ht := reads_take (encodeNumber_length k n) position rest
  simp only [number, ht, bigEndian_encodeNumber h]

theorem reads_count {n : Nat} (h : n < 2 ^ 16) : Reads (number 2) (encodeNumber 2 n) n :=
  reads_number h

theorem reads_length {n : Nat} (h : n < 2 ^ 32) : Reads (number 4) (encodeNumber 4 n) n :=
  reads_number h

theorem reads_u2 (n : UInt16) : Reads (number 2) (u2 n) n.toNat := reads_number n.toNat_lt

@[simp] theorem u1_length (n : UInt8) : (u1 n).length = 1 := encodeNumber_length 1 _

@[simp] theorem u2_length (n : UInt16) : (u2 n).length = 2 := encodeNumber_length 2 _

@[simp] theorem u4_length (n : UInt32) : (u4 n).length = 4 := encodeNumber_length 4 _

@[simp] theorem u8_length (n : UInt64) : (u8 n).length = 8 := encodeNumber_length 8 _

theorem flatMap_u2_length (ns : List UInt16) : (ns.flatMap u2).length = 2 * ns.length := by
  induction ns with
  | nil => rfl
  | cons n ns ih =>
    rw [List.flatMap_cons, List.length_append, u2_length, ih, List.length_cons]
    omega

end ClasspathSymbols.ClassFile
