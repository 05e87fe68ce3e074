import ClasspathSymbols.Proofs.ClassFile.Reading

/-! # What is skipped is skipped whole

Element values nest without bound, and so do the lists of what is still to be skipped. A value
takes exactly its own bytes off the cursor, whatever waits behind it, and so do the members of
a class with all their attributes. -/
namespace ClasspathSymbols.ClassFile

theorem skipPending_nil (c : Cursor) : skipPending [] c = .ok c := by rw [skipPending]

theorem skipPending_no_values (todo : List Pending) (c : Cursor) :
    skipPending (.values 0 :: todo) c = skipPending todo c := by rw [skipPending]

theorem skipPending_no_pairs (todo : List Pending) (c : Cursor) :
    skipPending (.pairs 0 :: todo) c = skipPending todo c := by rw [skipPending]

theorem skipPending_pairs (n : Nat) (todo : List Pending) (c : Cursor) :
    skipPending (.pairs (n + 1) :: todo) c =
      skip 2 c >>= fun x => skipPending (.values 1 :: .pairs n :: todo) x.2 := by
  rw [skipPending]
  split <;> simp_all [bind, Except.bind]

theorem skipPending_values (n : Nat) (todo : List Pending) (c : Cursor) :
    skipPending (.values (n + 1) :: todo) c =
      number 1 c >>= fun x => match ValueForm.ofTag x.1 with
        | .enumConstant => skip 4 x.2 >>= fun y => skipPending (.values n :: todo) y.2
        | .nested => skip 2 x.2 >>= fun y => number 2 y.2 >>= fun z =>
          skipPending (.pairs z.1 :: .values n :: todo) z.2
        | .array => number 2 x.2 >>= fun y => skipPending (.values y.1 :: .values n :: todo) y.2
        | .constant => skip 2 x.2 >>= fun y => skipPending (.values n :: todo) y.2 := by
  rw [skipPending]
  split
  · rename_i e hn
    simp [hn, bind, Except.bind]
  · rename_i tag d hn
    simp only [hn, bind, Except.bind]
    cases ValueForm.ofTag tag with
    | enumConstant => simp only; split <;> simp_all
    | nested =>
      simp only
      split
      · simp_all
      · rename_i e hs
        simp only [hs]
        split <;> simp_all
    | array => simp only; split <;> simp_all
    | constant => simp only; split <;> simp_all

theorem reads_charTag {c : Char} (h : c.toNat < 256) :
    Reads (number 1) (encodeTag c) c.toNat := reads_number h

theorem ConstantKind.tag_lt (k : ConstantKind) : k.tag.toNat < 256 := by
  cases k <;> decide

theorem ConstantKind.form (k : ConstantKind) : ValueForm.ofTag k.tag.toNat = .constant := by
  cases k <;> rfl

mutual

theorem skip_value (v : ElementValue) (h : v.Fits) (n : Nat) (todo : List Pending)
    (position : Nat) (rest : List UInt8) :
    skipPending (.values (n + 1) :: todo) ⟨position, v.encode ++ rest⟩ =
      skipPending (.values n :: todo) ⟨position + v.encode.length, rest⟩ := by
  rw [skipPending_values]
  cases v with
  | constant kind index =>
    rw [ElementValue.encode, List.append_assoc, (reads_charTag kind.tag_lt).feed]
    simp only [kind.form]
    rw [(reads_skip (u2_length index)).feed, List.length_append, Nat.add_assoc]
  | classInfo descriptor =>
    rw [ElementValue.encode, List.append_assoc, (reads_charTag (by decide)).feed]
    simp only [show ValueForm.ofTag 'c'.toNat = .constant from rfl]
    rw [(reads_skip (u2_length descriptor)).feed, List.length_append, Nat.add_assoc]
  | enumConstant type name =>
    rw [ElementValue.encode, List.append_assoc, (reads_charTag (by decide)).feed]
    simp only [show ValueForm.ofTag 'e'.toNat = .enumConstant from rfl]
    have hs : Reads (skip 4) (u2 type ++ u2 name) () := reads_skip (by simp)
    rw [hs.feed]
    simp only [List.length_append, Nat.add_assoc]
  | nested type pairs =>
    rw [ElementValue.encode, List.append_assoc, (reads_charTag (by decide)).feed]
    simp only [show ValueForm.ofTag '@'.toNat = .nested from rfl]
    rw [List.append_assoc, (reads_skip (u2_length type)).feed, List.append_assoc,
      (reads_count h.1).feed, skip_pairs pairs h.2]
    simp only [List.length_append, Nat.add_assoc]
  | array values =>
    rw [ElementValue.encode, List.append_assoc, (reads_charTag (by decide)).feed]
    simp only [show ValueForm.ofTag '['.toNat = .array from rfl]
    rw [List.append_assoc, (reads_count h.1).feed, skip_values values h.2]
    simp only [List.length_append, Nat.add_assoc]

theorem skip_values (vs : List ElementValue) (h : ValuesFit vs) (todo : List Pending)
    (position : Nat) (rest : List UInt8) :
    skipPending (.values vs.length :: todo) ⟨position, encodeValues vs ++ rest⟩ =
      skipPending todo ⟨position + (encodeValues vs).length, rest⟩ := by
  cases vs with
  | nil => exact skipPending_no_values todo _
  | cons v vs =>
    rw [encodeValues, List.append_assoc, List.length_cons, skip_value v h.1, skip_values vs h.2,
      List.length_append, Nat.add_assoc]

theorem skip_pairs (ps : List (UInt16 × ElementValue)) (h : PairsFit ps) (todo : List Pending)
    (position : Nat) (rest : List UInt8) :
    skipPending (.pairs ps.length :: todo) ⟨position, encodePairs ps ++ rest⟩ =
      skipPending todo ⟨position + (encodePairs ps).length, rest⟩ := by
  cases ps with
  | nil => exact skipPending_no_pairs todo _
  | cons p ps =>
    obtain ⟨name, v⟩ := p
    rw [encodePairs, List.length_cons, skipPending_pairs, List.append_assoc, List.append_assoc,
      (reads_skip (u2_length name)).feed, skip_value v h.1, skipPending_no_values,
      skip_pairs ps h.2]
    simp only [List.length_append, Nat.add_assoc]

end

theorem skipPairs_encode {ps : List (UInt16 × ElementValue)} (h : ps.length < 2 ^ 16)
    (hp : PairsFit ps) (position : Nat) (rest : List UInt8) :
    skipPairs ⟨position, encodeNumber 2 ps.length ++ (encodePairs ps ++ rest)⟩ =
      .ok ⟨position + 2 + (encodePairs ps).length, rest⟩ := by
  have hn := (reads_count h).feed (fun x => skipPending [.pairs x.1] x.2) position
    (encodePairs ps ++ rest)
  rw [encodeNumber_length] at hn
  exact hn.trans (by rw [skip_pairs ps hp, skipPending_nil])

theorem reads_attributes {as : List Attribute} (h : ∀ a ∈ as, a.body.length < 2 ^ 32) :
    Reads (skipAttributes as.length) (as.flatMap Attribute.encode) () := by
  induction as with
  | nil => exact Reads.pure ()
  | cons a as ih =>
    have hrest := ih fun b hb => h b (List.mem_cons_of_mem a hb)
    rw [List.flatMap_cons, Attribute.encode, List.append_assoc, List.append_assoc]
    exact (reads_skip (u2_length a.name)).bind
      ((reads_length (h a List.mem_cons_self)).bind ((reads_skip rfl).bind hrest))

theorem reads_members {ms : List Member} (h : ∀ m ∈ ms, m.Fits) :
    Reads (skipMembers ms.length) (ms.flatMap Member.encode) () := by
  induction ms with
  | nil => exact Reads.pure ()
  | cons m ms ih =>
    have hrest := ih fun b hb => h b (List.mem_cons_of_mem m hb)
    obtain ⟨hcount, hbodies⟩ := h m List.mem_cons_self
    have hhead : (u2 m.access ++ u2 m.name ++ u2 m.descriptor).length = 6 := by simp
    rw [List.flatMap_cons, Member.encode, List.append_assoc, List.append_assoc]
    exact (reads_skip hhead).bind
      ((reads_count hcount).bind ((reads_attributes hbodies).bind hrest))

end ClasspathSymbols.ClassFile
