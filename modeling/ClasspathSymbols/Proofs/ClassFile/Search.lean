import ClasspathSymbols.Proofs.ClassFile.Walk

/-! # The search through annotations

Of each annotation the type is read, and its pairs are skipped if it is not the type that is looked
for. However the search ends, the values that it has skipped to their end lie apart in the body, so
there are no more of them than a third of its bytes. -/
namespace ClasspathSymbols.ClassFile

section

variable (texts : Texts) (descriptor : List UInt8)

/-- So many annotations follow the cursor. Until one of the type is found or they are over, `n`
values are skipped to their end. -/
inductive Search : Nat → Cursor → Nat → Except ClassFileError Bool → Prop where
  | exhausted (c : Cursor) : Search 0 c 0 (.ok false)
  | untyped {count : Nat} {c : Cursor} {e : ClassFileError} :
      number 2 c = .error e → Search (count + 1) c 0 (.error e)
  | found {count type : Nat} {c d : Cursor} :
      number 2 c = .ok (type, d) → texts.lookup type = some descriptor →
      Search (count + 1) c 0 (.ok true)
  | failed {count type n : Nat} {c d : Cursor} {e : ClassFileError} :
      number 2 c = .ok (type, d) → texts.lookup type ≠ some descriptor →
      Walk [.pairs] d n (.error e) → Search (count + 1) c n (.error e)
  | next {count type m n : Nat} {c d d' : Cursor} {r : Except ClassFileError Bool} :
      number 2 c = .ok (type, d) → texts.lookup type ≠ some descriptor →
      Walk [.pairs] d m (.ok d') → Search count d' n r → Search (count + 1) c (m + n) r

inductive BodySearch (body : List UInt8) : Nat → Except ClassFileError Bool → Prop where
  | uncounted {e : ClassFileError} :
      number 2 (Cursor.start body) = .error e → BodySearch body 0 (.error e)
  | counted {count n : Nat} {c : Cursor} {r : Except ClassFileError Bool} :
      number 2 (Cursor.start body) = .ok (count, c) → Search texts descriptor count c n r →
      BodySearch body n r

end

variable {texts : Texts} {descriptor body : List UInt8}

theorem Search.bounded {count n : Nat} {c : Cursor} {r : Except ClassFileError Bool}
    (h : Search texts descriptor count c n r) : 3 * n ≤ c.rest.length := by
  induction h with
  | exhausted c => exact Nat.zero_le _
  | untyped _ => exact Nat.zero_le _
  | found _ _ => exact Nat.zero_le _
  | failed htype _ hpairs =>
    have hlength := number_length htype
    have hbounded := hpairs.contained.bounded
    omega
  | next htype _ hpairs _ ih =>
    have hlength := number_length htype
    have hlength' := (hpairs.contained.goesOn _ rfl).length_le
    omega

theorem Search.truncated {count n : Nat} {c : Cursor} {r : Except ClassFileError Bool}
    (h : Search texts descriptor count c n r) : ∀ e, r = .error e → ∃ p, e = .truncated p := by
  induction h with
  | exhausted c => nofun
  | found _ _ => nofun
  | @untyped count c e htype =>
    intro e' he
    obtain rfl := Except.error.inj he
    exact (takes_number 2).truncated c e htype
  | failed _ _ hpairs =>
    intro e' he
    obtain rfl := Except.error.inj he
    exact hpairs.contained.truncated _ rfl
  | next _ _ _ _ ih => exact ih

theorem someMentions_succ (count : Nat) (c : Cursor) :
    someMentions texts descriptor (count + 1) c = number 2 c >>= fun x =>
      if texts.lookup x.1 = some descriptor then .ok true
      else Call.pairs.skipped x.2 >>= someMentions texts descriptor count := rfl

theorem Search.someMentions_eq {count n : Nat} {c : Cursor} {r : Except ClassFileError Bool}
    (h : Search texts descriptor count c n r) : someMentions texts descriptor count c = r := by
  induction h with
  | exhausted c => rfl
  | untyped htype =>
    rw [someMentions_succ, htype]
    rfl
  | found htype hfound =>
    rw [someMentions_succ, htype]
    exact if_pos hfound
  | failed htype hother hpairs =>
    rw [someMentions_succ, htype]
    refine (if_neg hother).trans ?_
    rw [hpairs.skipped_eq]
    rfl
  | next htype hother hpairs _ ih =>
    rw [someMentions_succ, htype]
    refine (if_neg hother).trans ?_
    rw [hpairs.skipped_eq]
    exact ih

theorem Search.unique {count m n : Nat} {c : Cursor} {r s : Except ClassFileError Bool}
    (h : Search texts descriptor count c n r) (k : Search texts descriptor count c m s) :
    m = n := by
  induction h generalizing m s with
  | exhausted c =>
    cases k
    rfl
  | untyped htype =>
    cases k with
    | untyped _ => rfl
    | found htype' _ => cases htype.symm.trans htype'
    | failed htype' _ _ => cases htype.symm.trans htype'
    | next htype' _ _ _ => cases htype.symm.trans htype'
  | found htype hfound =>
    cases k with
    | untyped _ => rfl
    | found _ _ => rfl
    | failed htype' hother _ =>
      cases htype.symm.trans htype'
      exact absurd hfound hother
    | next htype' hother _ _ =>
      cases htype.symm.trans htype'
      exact absurd hfound hother
  | failed htype hother hpairs =>
    cases k with
    | untyped htype' => cases htype.symm.trans htype'
    | found htype' hfound =>
      cases htype.symm.trans htype'
      exact absurd hfound hother
    | failed htype' _ hpairs' =>
      cases htype.symm.trans htype'
      exact hpairs.unique hpairs'
    | next htype' _ hpairs' _ =>
      cases htype.symm.trans htype'
      cases hpairs.skipAll_eq.symm.trans hpairs'.skipAll_eq
  | next htype hother hpairs _ ih =>
    cases k with
    | untyped htype' => cases htype.symm.trans htype'
    | found htype' hfound =>
      cases htype.symm.trans htype'
      exact absurd hfound hother
    | failed htype' _ hpairs' =>
      cases htype.symm.trans htype'
      cases hpairs.skipAll_eq.symm.trans hpairs'.skipAll_eq
    | next htype' _ hpairs' hrest' =>
      cases htype.symm.trans htype'
      cases hpairs.skipAll_eq.symm.trans hpairs'.skipAll_eq
      rw [hpairs.unique hpairs', ih hrest']

theorem exists_search (texts : Texts) (descriptor : List UInt8) (count : Nat) (c : Cursor) :
    ∃ n r, Search texts descriptor count c n r := by
  induction count generalizing c with
  | zero => exact ⟨0, .ok false, .exhausted c⟩
  | succ count ih =>
    cases htype : number 2 c with
    | error e => exact ⟨0, .error e, .untyped htype⟩
    | ok x =>
      obtain ⟨type, d⟩ := x
      by_cases hfound : texts.lookup type = some descriptor
      · exact ⟨0, .ok true, .found htype hfound⟩
      · obtain ⟨m, r, hpairs⟩ := exists_walk [.pairs] d
        cases r with
        | error e => exact ⟨m, .error e, .failed htype hfound hpairs⟩
        | ok d' =>
          obtain ⟨n, r, hrest⟩ := ih d'
          exact ⟨m + n, r, .next htype hfound hpairs hrest⟩

theorem annotationsMention_eq : annotationsMention texts descriptor body =
    number 2 (Cursor.start body) >>= fun x => someMentions texts descriptor x.1 x.2 := rfl

/-- The search through a body has one run, and its result is that of the reader. -/
theorem exists_bodySearch_iff (texts : Texts) (descriptor body : List UInt8) :
    ∃ n, ∀ m r, BodySearch texts descriptor body m r ↔
      m = n ∧ r = annotationsMention texts descriptor body := by
  rw [annotationsMention_eq]
  cases hcount : number 2 (Cursor.start body) with
  | error e =>
    refine ⟨0, fun m r => ⟨fun h => ?_, ?_⟩⟩
    · cases h with
      | uncounted hcount' =>
        cases hcount.symm.trans hcount'
        exact ⟨rfl, rfl⟩
      | counted hcount' _ => cases hcount.symm.trans hcount'
    · rintro ⟨rfl, rfl⟩
      exact .uncounted hcount
  | ok x =>
    obtain ⟨count, c⟩ := x
    obtain ⟨n, r, hsearch⟩ := exists_search texts descriptor count c
    refine ⟨n, fun m s => ⟨fun h => ?_, ?_⟩⟩
    · cases h with
      | uncounted hcount' => cases hcount.symm.trans hcount'
      | counted hcount' hsearch' =>
        cases hcount.symm.trans hcount'
        exact ⟨hsearch.unique hsearch', hsearch'.someMentions_eq.symm⟩
    · rintro ⟨rfl, rfl⟩
      refine .counted hcount ?_
      change Search _ _ _ _ _ (someMentions _ _ _ _)
      rwa [hsearch.someMentions_eq]

theorem BodySearch.bounded {n : Nat} {r : Except ClassFileError Bool}
    (h : BodySearch texts descriptor body n r) : 3 * n ≤ body.length := by
  cases h with
  | uncounted _ => exact Nat.zero_le _
  | counted hcount hsearch =>
    have hlength : body.length = 2 + _ := number_length hcount
    have hbounded := hsearch.bounded
    omega

theorem BodySearch.truncated {n : Nat} {e : ClassFileError}
    (h : BodySearch texts descriptor body n (.error e)) : ∃ p, e = .truncated p := by
  cases h with
  | uncounted hcount => exact (takes_number 2).truncated _ e hcount
  | counted _ hsearch => exact hsearch.truncated e rfl

/-- From every place a value or the pairs of an annotation are skipped in one run of calls, which
comes to an end; if it ends well, the cursor has gone on over three bytes or two and has not left
the body. In the search through a whole body no more values are skipped to their end than a third of
its bytes, whatever the counts in it say, and it finds an answer or runs out of bytes inside it. -/
theorem annotation_walk_ends_inside (texts : Texts) (descriptor body : List UInt8) :
    (∀ c : Cursor,
      (∃ n, ∀ m r, Walk [.value] c m r ↔ m = n ∧ r = skipValue c) ∧
      ∃ n, ∀ m r, Walk [.pairs] c m r ↔ m = n ∧ r = skipPairs c) ∧
    (∀ p ≤ body.length, ∀ d, skipValue (.inside body p) = .ok d →
      ∃ q, p + 3 ≤ q ∧ q ≤ body.length ∧ d = .inside body q) ∧
    (∀ p ≤ body.length, ∀ d, skipPairs (.inside body p) = .ok d →
      ∃ q, p + 2 ≤ q ∧ q ≤ body.length ∧ d = .inside body q) ∧
    (∃ n ≤ body.length / 3, ∀ m r, BodySearch texts descriptor body m r ↔
      m = n ∧ r = annotationsMention texts descriptor body) ∧
    ((∃ found, annotationsMention texts descriptor body = .ok found) ∨
      ∃ p ≤ body.length, annotationsMention texts descriptor body = .error (.truncated p)) := by
  obtain ⟨n, hn⟩ := exists_bodySearch_iff texts descriptor body
  have hrun := (hn n _).2 ⟨rfl, rfl⟩
  refine ⟨fun c => ⟨exists_walk_iff .value c, exists_walk_iff .pairs c⟩, fun p hp d hd => ?_,
    fun p hp d hd => ?_, ⟨n, ?_, hn⟩, ?_⟩
  · exact (Call.goesOn_of_skipped .value hd).inside hp
  · exact (Call.goesOn_of_skipped .pairs hd).inside hp
  · have hbounded := hrun.bounded
    omega
  · cases hanswer : annotationsMention texts descriptor body with
    | ok found => exact Or.inl ⟨found, rfl⟩
    | error e =>
      rw [hanswer] at hrun
      obtain ⟨p, rfl⟩ := hrun.truncated
      exact Or.inr ⟨p, annotationsMention_within texts descriptor body p hanswer, rfl⟩

/-- An array says that it holds arrays, and the first of these that it holds values; both have many
more than there are. Two values follow and the beginning of a third. -/
def crowdedBody : List UInt8 :=
  [0, 1, 0, 7, 0, 1, 0, 9, 91, 255, 255, 91, 255, 255, 73, 0, 1, 64, 0, 7, 0, 0, 101, 0]

theorem crowdedBody_pairs :
    Walk [.pairs] (.inside crowdedBody 20) 0 (.ok (.inside crowdedBody 22)) := by
  have hnone : Call.pairs.head (.inside crowdedBody 20) = .ok ([], .inside crowdedBody 22) := rfl
  exact .next hnone (.done _) (.done _)

theorem crowdedBody_annotation :
    Call.value.head (.inside crowdedBody 17) = .ok ([.pairs], .inside crowdedBody 20) := rfl

theorem crowdedBody_walk : Walk [.pairs] (.inside crowdedBody 4) 2 (.error (.truncated 23)) := by
  have hpairs : Call.pairs.head (.inside crowdedBody 4) =
      .ok ([.pair], .inside crowdedBody 6) := rfl
  have hpair : Call.pair.head (.inside crowdedBody 6) = .ok ([.value], .inside crowdedBody 8) := rfl
  have houter : Call.value.head (.inside crowdedBody 8) =
      .ok (List.replicate 65535 .value, .inside crowdedBody 11) := rfl
  have hinner : Call.value.head (.inside crowdedBody 11) =
      .ok (List.replicate 65535 .value, .inside crowdedBody 14) := rfl
  have hconstant : Call.value.head (.inside crowdedBody 14) =
      .ok ([], .inside crowdedBody 17) := rfl
  have hshort : Call.value.head (.inside crowdedBody 22) = .error (.truncated 23) := rfl
  have hrow : ∀ calls, Walk (.value :: .value :: .value :: calls) (.inside crowdedBody 14) 2
      (.error (.truncated 23)) := fun _ =>
    .next hconstant (.done _) (.next crowdedBody_annotation crowdedBody_pairs (.stuck hshort))
  exact .failed hpairs (.failed hpair (.failed houter (.failed hinner
    (hrow (List.replicate 65532 .value)))))

theorem crowded_walk_ends_inside :
    BodySearch [(7, [76, 65, 59])] deprecatedDescriptor crowdedBody 2 (.error (.truncated 23)) ∧
    annotationsMention [(7, [76, 65, 59])] deprecatedDescriptor crowdedBody =
      .error (.truncated 23) ∧
    2 ≤ crowdedBody.length / 3 ∧
    (skipValue (.inside crowdedBody 17) = .ok (.inside crowdedBody 22) ∧
      ∃ q, 17 + 3 ≤ q ∧ q ≤ crowdedBody.length ∧
        Cursor.inside crowdedBody 22 = .inside crowdedBody q) ∧
    (skipPairs (.inside crowdedBody 20) = .ok (.inside crowdedBody 22) ∧
      ∃ q, 20 + 2 ≤ q ∧ q ≤ crowdedBody.length ∧
        Cursor.inside crowdedBody 22 = .inside crowdedBody q) := by
  obtain ⟨-, hvalue, hpairs, ⟨n, hn, hrun⟩, -⟩ :=
    annotation_walk_ends_inside [(7, [76, 65, 59])] deprecatedDescriptor crowdedBody
  have hcount : number 2 (.start crowdedBody) = .ok (1, .inside crowdedBody 2) := rfl
  have htype : number 2 (.inside crowdedBody 2) = .ok (7, .inside crowdedBody 4) := rfl
  have hsearch : BodySearch [(7, [76, 65, 59])] deprecatedDescriptor crowdedBody 2
      (.error (.truncated 23)) := .counted hcount (.failed htype (by decide) crowdedBody_walk)
  obtain ⟨rfl, hanswer⟩ := (hrun _ _).1 hsearch
  have hsecond : Walk [.value] (.inside crowdedBody 17) 1 (.ok (.inside crowdedBody 22)) :=
    .next crowdedBody_annotation crowdedBody_pairs (.done _)
  exact ⟨hsearch, hanswer.symm, hn,
    ⟨hsecond.skipped_eq, hvalue 17 (by decide) _ hsecond.skipped_eq⟩,
    crowdedBody_pairs.skipped_eq, hpairs 20 (by decide) _ crowdedBody_pairs.skipped_eq⟩

end ClasspathSymbols.ClassFile
