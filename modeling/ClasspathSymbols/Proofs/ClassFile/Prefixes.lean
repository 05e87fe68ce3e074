import ClasspathSymbols.Proofs.ClassFile.Indices
import ClasspathSymbols.Proofs.ClassFile.Skipping
import ClasspathSymbols.Proofs.FirstError

/-! # What is settled by the bytes that were read

A reader knows nothing of the bytes behind its cursor that it does not take. So what it answers it
answers as well when more bytes follow, and so it is with its complaints, other than that there are
too few bytes. Of these it says so at a position that is not behind the last byte. -/
namespace ClasspathSymbols.ClassFile

variable {α β : Type}

namespace Cursor

def ending (c : Cursor) : Nat := c.position + c.rest.length

def extend (c : Cursor) (more : List UInt8) : Cursor := ⟨c.position, c.rest ++ more⟩

end Cursor

/-- Where there were too few bytes, this was noticed before the position. -/
def Within (ending : Nat) (x : Except ClassFileError α) : Prop :=
  ∀ n, x = .error (.truncated n) → n ≤ ending

theorem within_ok (ending : Nat) (a : α) : Within ending (.ok a) := nofun

theorem Within.bind {ending : Nat} {x : Except ClassFileError α} {f : α → Except ClassFileError β}
    (h : Within ending x) (k : ∀ a, x = .ok a → Within ending (f a)) : Within ending (x >>= f) := by
  cases x with
  | error e => exact fun n he => h n (congrArg Except.error (Except.error.inj he))
  | ok a => exact k a rfl

/-- What the reader does at the cursor, more bytes at the end do not change, unless it has run out
of them. -/
structure Settled (r : Reader α) (c : Cursor) : Prop where
  answers : ∀ v c', r c = .ok (v, c') →
    c'.ending = c.ending ∧ ∀ more, r (c.extend more) = .ok (v, c'.extend more)
  complains : ∀ e, r c = .error e → (∀ n, e ≠ .truncated n) →
    ∀ more, r (c.extend more) = .error e
  within : Within c.ending (r c)

theorem settled_pure (v : α) (c : Cursor) : Settled (pure v) c where
  answers := by
    rintro w c' ⟨⟩
    exact ⟨rfl, fun _ => rfl⟩
  complains := nofun
  within := nofun

theorem settled_throw {e : ClassFileError} (h : ∀ n, e ≠ .truncated n) (c : Cursor) :
    Settled (throw e : Reader α) c where
  answers := nofun
  complains := by
    rintro e' ⟨⟩ - more
    rfl
  within := by
    intro n he
    exact absurd (Except.error.inj he) (h n)

theorem Settled.bind {r : Reader α} {f : α → Reader β} {c : Cursor} (h : Settled r c)
    (k : ∀ v c', r c = .ok (v, c') → Settled (f v) c') : Settled (r >>= f) c := by
  have hbind : ∀ c, (r >>= f) c = r c >>= fun x => f x.1 x.2 := fun _ => rfl
  cases hr : r c with
  | error e =>
    have herror : (r >>= f) c = .error e := by rw [hbind, hr]; rfl
    refine ⟨?_, ?_, ?_⟩
    · intro v c' hv
      rw [herror] at hv
      cases hv
    · intro e' he' hne more
      obtain rfl := Except.error.inj (herror.symm.trans he')
      rw [hbind, h.complains e hr hne more]
      rfl
    · intro n hn
      obtain rfl := Except.error.inj (herror.symm.trans hn)
      exact h.within n hr
  | ok x =>
    obtain ⟨v, c'⟩ := x
    obtain ⟨hending, hmore⟩ := h.answers v c' hr
    have hrest := k v c' hr
    have hok : (r >>= f) c = f v c' := by rw [hbind, hr]; rfl
    have hextend : ∀ more, (r >>= f) (c.extend more) = f v (c'.extend more) := by
      intro more
      rw [hbind, hmore]
      rfl
    refine ⟨?_, ?_, ?_⟩
    · intro w d hd
      rw [hok] at hd
      obtain ⟨hd, hw⟩ := hrest.answers w d hd
      exact ⟨hd.trans hending, fun more => (hextend more).trans (hw more)⟩
    · intro e he hne more
      rw [hok] at he
      rw [hextend, hrest.complains e he hne more]
    · rw [hok, ← hending]
      exact hrest.within

theorem settled_take (n : Nat) (c : Cursor) : Settled (take n) c := by
  have herror : ∀ e, take n c = .error e → e = .truncated c.position := by
    intro e he
    unfold take at he
    split at he <;> cases he
    rfl
  refine ⟨?_, ?_, ?_⟩
  · intro taken c' h
    obtain ⟨hrest, hlength, hposition⟩ := take_eq_ok_iff.1 h
    constructor
    · rw [Cursor.ending, Cursor.ending, hrest, hposition, List.length_append, hlength,
        Nat.add_assoc]
    · intro more
      refine take_eq_ok_iff.2 ⟨?_, hlength, hposition⟩
      rw [Cursor.extend, Cursor.extend, hrest, List.append_assoc]
  · intro e he hne
    exact absurd (herror e he) (hne c.position)
  · intro m hm
    obtain rfl := ClassFileError.truncated.inj (herror _ hm)
    exact Nat.le_add_right _ _

theorem number_eq (n : Nat) : number n = take n >>= fun taken => pure (bigEndian taken) := by
  funext c
  change _ = take n c >>= _
  rw [number]
  cases take n c <;> rfl

theorem skip_eq (n : Nat) : skip n = take n >>= fun _ => pure () := by
  funext c
  change _ = take n c >>= _
  rw [skip]
  cases take n c <;> rfl

theorem settled_number (n : Nat) (c : Cursor) : Settled (number n) c := by
  rw [number_eq]
  exact (settled_take n c).bind fun _ _ _ => settled_pure _ _

theorem settled_skip (n : Nat) (c : Cursor) : Settled (skip n) c := by
  rw [skip_eq]
  exact (settled_take n c).bind fun _ _ _ => settled_pure _ _

def EndsAt (ending : Nat) (x : Except ClassFileError Cursor) : Prop :=
  (∀ c, x = .ok c → c.ending = ending) ∧ Within ending x

theorem endsAt_step {r : Reader α} {c : Cursor} {f : α × Cursor → Except ClassFileError Cursor}
    (hr : Settled r c) (h : ∀ v c', r c = .ok (v, c') → EndsAt c'.ending (f (v, c'))) :
    EndsAt c.ending (r c >>= f) := by
  constructor
  · intro d hd
    cases hrc : r c with
    | error e =>
      rw [hrc] at hd
      cases hd
    | ok x =>
      rw [hrc] at hd
      rw [← (hr.answers x.1 x.2 hrc).1]
      exact (h x.1 x.2 hrc).1 d hd
  · refine hr.within.bind fun x hx => ?_
    rw [← (hr.answers x.1 x.2 hx).1]
    exact (h x.1 x.2 hx).2

theorem skipPending_endsAt : ∀ (todo : List Pending) (c : Cursor),
    EndsAt c.ending (skipPending todo c)
  | [], c => by
    rw [skipPending_nil]
    exact ⟨fun d hd => by rw [Except.ok.inj hd], within_ok _ _⟩
  | .values 0 :: todo, c => by
    rw [skipPending_no_values]
    exact skipPending_endsAt todo c
  | .pairs 0 :: todo, c => by
    rw [skipPending_no_pairs]
    exact skipPending_endsAt todo c
  | .pairs (n + 1) :: todo, c => by
    rw [skipPending_pairs]
    refine endsAt_step (settled_skip 2 c) fun _ d hd => ?_
    have := skip_length hd
    exact skipPending_endsAt _ d
  | .values (n + 1) :: todo, c => by
    rw [skipPending_values]
    refine endsAt_step (settled_number 1 c) fun tag d hd => ?_
    have := number_length hd
    cases ValueForm.ofTag tag with
    | enumConstant =>
      refine endsAt_step (settled_skip 4 d) fun _ d' hd' => ?_
      have := skip_length hd'
      exact skipPending_endsAt _ d'
    | nested =>
      refine endsAt_step (settled_skip 2 d) fun _ d' hd' => ?_
      have := skip_length hd'
      refine endsAt_step (settled_number 2 d') fun count d'' hd'' => ?_
      have := number_length hd''
      exact skipPending_endsAt _ d''
    | array =>
      refine endsAt_step (settled_number 2 d) fun count d' hd' => ?_
      have := number_length hd'
      exact skipPending_endsAt _ d'
    | constant =>
      refine endsAt_step (settled_skip 2 d) fun _ d' hd' => ?_
      have := skip_length hd'
      exact skipPending_endsAt _ d'
termination_by todo c => (c.rest.length, todo.length)

theorem skipPairs_endsAt (c : Cursor) : EndsAt c.ending (skipPairs c) :=
  endsAt_step (settled_number 2 c) fun count d _ => skipPending_endsAt [.pairs count] d

theorem someMentions_within (texts : Texts) (descriptor : List UInt8) (count : Nat) (c : Cursor) :
    Within c.ending (someMentions texts descriptor count c) := by
  induction count generalizing c with
  | zero => exact within_ok _ _
  | succ count ih =>
    rw [someMentions]
    refine (settled_number 2 c).within.bind fun x hx => ?_
    obtain ⟨type, d⟩ := x
    rw [← ((settled_number 2 c).answers type d hx).1]
    dsimp only
    split
    · exact within_ok _ _
    · refine (skipPairs_endsAt d).2.bind fun d' hd' => ?_
      rw [← (skipPairs_endsAt d).1 d' hd']
      exact ih d'

theorem annotationsMention_within (texts : Texts) (descriptor body : List UInt8) :
    Within body.length (annotationsMention texts descriptor body) := by
  have hending : (Cursor.start body).ending = body.length := Nat.zero_add _
  rw [← hending, annotationsMention]
  refine (settled_number 2 _).within.bind fun x hx => ?_
  rw [← ((settled_number 2 _).answers x.1 x.2 hx).1]
  exact someMentions_within texts descriptor x.1 x.2

theorem settled_lift {x : Except ClassFileError α} {c : Cursor} (h : Within c.ending x) :
    Settled (liftM x : Reader α) c := by
  cases x with
  | error e =>
    refine ⟨nofun, ?_, ?_⟩
    · rintro e' ⟨⟩ - more
      rfl
    · intro n hn
      exact h n (congrArg Except.error (Except.error.inj hn))
  | ok a =>
    refine ⟨?_, nofun, nofun⟩
    rintro v c' ⟨⟩
    exact ⟨rfl, fun _ => rfl⟩

theorem settled_readConstant (index : UInt16) (c : Cursor) : Settled (readConstant index) c := by
  refine (settled_number 1 c).bind fun tag d _ => ?_
  split
  · refine (settled_number 2 d).bind fun length d _ => ?_
    exact (settled_take length d).bind fun text d _ => settled_pure _ d
  · split
    · exact settled_throw (by simp) d
    · exact (settled_skip _ d).bind fun _ d _ => settled_pure _ d

theorem settled_readPool (index count : UInt16) (texts : Texts) (c : Cursor) :
    Settled (readPool index count texts) c := by
  by_cases h : index < count
  · rw [readPool_of_lt h]
    refine (settled_readConstant index c).bind fun entry d hd => ?_
    have := (readConstant_takes hd).1
    exact settled_readPool _ _ _ d
  · rw [readPool_of_not_lt h]
    exact settled_pure texts c
termination_by c.rest.length

theorem settled_skipAttributes (n : Nat) (c : Cursor) : Settled (skipAttributes n) c := by
  induction n generalizing c with
  | zero => exact settled_pure () c
  | succ n ih =>
    refine (settled_skip 2 c).bind fun _ d _ => (settled_number 4 d).bind fun length d _ => ?_
    exact (settled_skip length d).bind fun _ d _ => ih d

theorem settled_skipMembers (n : Nat) (c : Cursor) : Settled (skipMembers n) c := by
  induction n generalizing c with
  | zero => exact settled_pure () c
  | succ n ih =>
    refine (settled_skip 6 c).bind fun _ d _ => (settled_number 2 d).bind fun count d _ => ?_
    exact (settled_skipAttributes count d).bind fun _ d _ => ih d

theorem attributeSettles_within (texts : Texts) (name : Nat) (body : List UInt8) :
    Within body.length (attributeSettles texts name body) := by
  rw [attributeSettles]
  split
  · exact within_ok _ _
  · split
    · exact annotationsMention_within texts deprecatedDescriptor body
    · exact within_ok _ _

theorem settled_someAttributeSettles (texts : Texts) (n : Nat) (c : Cursor) :
    Settled (someAttributeSettles texts n) c := by
  induction n generalizing c with
  | zero => exact settled_pure false c
  | succ n ih =>
    refine (settled_number 2 c).bind fun name d _ => (settled_number 4 d).bind fun length d _ => ?_
    refine (settled_take length d).bind fun body d' hbody => ?_
    -- Positions in the body count from its start, and the body has been read.
    have hlength : body.length ≤ d'.ending := by
      obtain ⟨-, hlength, hposition⟩ := take_eq_ok_iff.1 hbody
      rw [Cursor.ending]
      omega
    have hwithin : Within d'.ending (attributeSettles texts name body) :=
      fun m hm => Nat.le_trans (attributeSettles_within texts name body m hm) hlength
    refine (settled_lift hwithin).bind fun settles d _ => ?_
    cases settles with
    | true => exact settled_pure true d
    | false => exact ih d

theorem settled_readCount (c : Cursor) : Settled readCount c := by
  refine (settled_number 4 c).bind fun word d _ => ?_
  dsimp only
  split
  · exact (settled_throw (by simp) d).bind fun _ _ h => nomatch h
  · refine (settled_skip 4 d).bind fun _ d _ => (settled_number 2 d).bind fun count d _ => ?_
    exact settled_pure _ d

theorem settled_readRest (texts : Texts) (c : Cursor) : Settled (readRest texts) c := by
  refine (settled_skip 6 c).bind fun _ d _ => (settled_number 2 d).bind fun interfaces d _ => ?_
  refine (settled_skip (2 * interfaces) d).bind fun _ d _ => ?_
  refine (settled_number 2 d).bind fun fields d _ => ?_
  refine (settled_skipMembers fields d).bind fun _ d _ => ?_
  refine (settled_number 2 d).bind fun methods d _ => ?_
  refine (settled_skipMembers methods d).bind fun _ d _ => ?_
  refine (settled_number 2 d).bind fun attributes d _ => ?_
  exact settled_someAttributeSettles texts attributes d

theorem settled_readVerdict (c : Cursor) : Settled readVerdict c := by
  refine (settled_readCount c).bind fun count d _ => ?_
  exact (settled_readPool 1 count [] d).bind fun texts d _ => settled_readRest texts d

def IsTruncated (x : Except ClassFileError Bool) : Prop := ∃ n, x = .error (.truncated n)

theorem isDeprecated_append {bytes : List UInt8} (h : ¬ IsTruncated (isDeprecated bytes))
    (more : List UInt8) : isDeprecated (bytes ++ more) = isDeprecated bytes := by
  have hsettled := settled_readVerdict (Cursor.start bytes)
  have hextend : Cursor.start (bytes ++ more) = (Cursor.start bytes).extend more := rfl
  rw [isDeprecated_eq, hextend]
  rw [isDeprecated_eq] at h ⊢
  cases hread : readVerdict (Cursor.start bytes) with
  | error e =>
    rw [hread] at h
    rw [hsettled.complains e hread (fun n hn => h ⟨n, congrArg Except.error hn⟩) more]
  | ok x => rw [(hsettled.answers x.1 x.2 hread).2 more]; rfl

theorem isDeprecated_within (bytes : List UInt8) : Within bytes.length (isDeprecated bytes) := by
  intro n hn
  have hending : (Cursor.start bytes).ending = bytes.length := Nat.zero_add _
  rw [isDeprecated_eq] at hn
  cases hread : readVerdict (Cursor.start bytes) with
  | error e =>
    rw [hread] at hn
    obtain rfl := Except.error.inj hn
    exact hending ▸ (settled_readVerdict _).within n hread
  | ok x =>
    rw [hread] at hn
    cases hn

/-- What is found of a class file stands when bytes are added, unless bytes were missing. So a
beginning of a file with a verdict has this verdict, or it is truncated, at a position that it
has. -/
theorem verdict_is_settled (bytes : List UInt8) :
    (¬ IsTruncated (isDeprecated bytes) →
      ∀ more, isDeprecated (bytes ++ more) = isDeprecated bytes) ∧
    ∀ verdict, isDeprecated bytes = .ok verdict → ∀ start, start <+: bytes →
      isDeprecated start = .ok verdict ∨
        ∃ n ≤ start.length, isDeprecated start = .error (.truncated n) := by
  refine ⟨isDeprecated_append, ?_⟩
  rintro verdict hverdict start ⟨more, rfl⟩
  by_cases htruncated : IsTruncated (isDeprecated start)
  · obtain ⟨n, hn⟩ := htruncated
    exact Or.inr ⟨n, isDeprecated_within start n hn, hn⟩
  · exact Or.inl ((isDeprecated_append htruncated more).symm.trans hverdict)

def flaggedClass : Contents where
  minor := 0
  major := 52
  constants := [.utf8 deprecatedName]
  access := 1
  self := 1
  super := 1
  interfaces := []
  fields := []
  methods := []
  attributes := [.other ⟨1, []⟩]

theorem flagged_verdict_is_settled :
    isDeprecated flaggedClass.encode = .ok true ∧
    isDeprecated (flaggedClass.encode ++ [0xCA, 0xFE]) = .ok true ∧
    ∃ n ≤ 30, isDeprecated (flaggedClass.encode.take 30) = .error (.truncated n) := by
  have hverdict : isDeprecated flaggedClass.encode = .ok true := by
    apply eq_ok_of_toOption
    decide +kernel
  have hcut : isDeprecated (flaggedClass.encode.take 30) ≠ .ok true := by
    intro h
    exact absurd (congrArg Except.toOption h) (by decide +kernel)
  have hlength : (flaggedClass.encode.take 30).length = 30 := by decide
  obtain ⟨hmore, hstart⟩ := verdict_is_settled flaggedClass.encode
  refine ⟨hverdict, ?_, ?_⟩
  · rw [hmore _ [0xCA, 0xFE], hverdict]
    rintro ⟨n, hn⟩
    cases hverdict.symm.trans hn
  · have hbefore := (hstart true hverdict _ (List.take_prefix 30 _)).resolve_left hcut
    rwa [hlength] at hbefore

end ClasspathSymbols.ClassFile
