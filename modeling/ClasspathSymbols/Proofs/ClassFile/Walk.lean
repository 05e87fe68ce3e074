import ClasspathSymbols.Proofs.ClassFile.Calls
import ClasspathSymbols.Proofs.ClassFile.Prefixes

/-! # Runs of calls

The counts in front of values and pairs may be nested to any depth and may promise far more than
there is. Calls end all the same and within the bytes that there are, because each takes bytes that
no other takes: a value that has been skipped has cost three of its own. -/
namespace ClasspathSymbols.ClassFile

variable {α β : Type}

namespace Cursor

/-- The cursor has gone on, over `least` bytes or more, and these bytes were there. -/
def GoesOn (c : Cursor) (least : Nat) (d : Cursor) : Prop :=
  ∃ k, least ≤ k ∧ k ≤ c.rest.length ∧ d = ⟨c.position + k, c.rest.drop k⟩

def inside (body : List UInt8) (position : Nat) : Cursor := ⟨position, body.drop position⟩

theorem GoesOn.refl (c : Cursor) : c.GoesOn 0 c := ⟨0, Nat.le_refl 0, Nat.zero_le _, rfl⟩

theorem GoesOn.trans {c d e : Cursor} {j k : Nat} (h : c.GoesOn j d) (g : d.GoesOn k e) :
    c.GoesOn (j + k) e := by
  obtain ⟨m, hm, hlength, rfl⟩ := h
  obtain ⟨n, hn, hlength', rfl⟩ := g
  rw [List.length_drop] at hlength'
  refine ⟨m + n, Nat.add_le_add hm hn, by omega, ?_⟩
  rw [List.drop_drop, Nat.add_assoc]

theorem GoesOn.mono {c d : Cursor} {j k : Nat} (h : c.GoesOn k d) (hjk : j ≤ k) : c.GoesOn j d := by
  obtain ⟨m, hm, hrest⟩ := h
  exact ⟨m, Nat.le_trans hjk hm, hrest⟩

theorem GoesOn.length_le {c d : Cursor} {k : Nat} (h : c.GoesOn k d) :
    d.rest.length + k ≤ c.rest.length := by
  obtain ⟨m, hm, hlength, rfl⟩ := h
  rw [List.length_drop]
  omega

theorem GoesOn.inside {body : List UInt8} {p least : Nat} {d : Cursor} (hp : p ≤ body.length)
    (h : (inside body p).GoesOn least d) :
    ∃ q, p + least ≤ q ∧ q ≤ body.length ∧ d = Cursor.inside body q := by
  obtain ⟨k, hk, hlength, rfl⟩ := h
  rw [Cursor.inside, List.length_drop] at hlength
  refine ⟨p + k, Nat.add_le_add_left hk p, by omega, ?_⟩
  rw [Cursor.inside, Cursor.inside, List.drop_drop]

end Cursor

/-- The reader takes `least` bytes or more if it answers, and stops only for want of bytes. -/
structure Takes (least : Nat) (r : Reader α) : Prop where
  goesOn : ∀ c v d, r c = .ok (v, d) → c.GoesOn least d
  truncated : ∀ c e, r c = .error e → ∃ p, e = .truncated p

theorem takes_pure (v : α) : Takes 0 (pure v : Reader α) where
  goesOn := by
    rintro c w d ⟨⟩
    exact .refl c
  truncated := nofun

theorem Takes.bind {j k : Nat} {r : Reader α} {f : α → Reader β} (h : Takes j r)
    (g : ∀ v, Takes k (f v)) : Takes (j + k) (r >>= f) where
  goesOn := by
    intro c w e he
    obtain ⟨⟨v, d⟩, hd, hf⟩ := bind_eq_ok.1 he
    exact (h.goesOn c v d hd).trans ((g v).goesOn d w e hf)
  truncated := by
    intro c e he
    change r c >>= _ = _ at he
    cases hr : r c with
    | error e' =>
      rw [hr] at he
      obtain rfl := Except.error.inj he
      exact h.truncated c e' hr
    | ok x =>
      rw [hr] at he
      exact (g x.1).truncated x.2 e he

theorem Takes.mono {j k : Nat} {r : Reader α} (h : Takes k r) (hjk : j ≤ k) : Takes j r where
  goesOn := fun c v d hd => (h.goesOn c v d hd).mono hjk
  truncated := h.truncated

theorem takes_take (n : Nat) : Takes n (take n) where
  goesOn := by
    intro c taken d h
    obtain ⟨hrest, hlength, hposition⟩ := take_eq_ok_iff.1 h
    refine ⟨n, Nat.le_refl n, by rw [hrest, List.length_append]; omega, ?_⟩
    cases d
    simp_all
  truncated := by
    intro c e h
    rw [take] at h
    split at h
    · cases h
    · exact ⟨c.position, (Except.error.inj h).symm⟩

theorem takes_number (n : Nat) : Takes n (number n) := by
  rw [number_eq]
  exact (takes_take n).bind fun _ => takes_pure _

theorem takes_skip (n : Nat) : Takes n (skip n) := by
  rw [skip_eq]
  exact (takes_take n).bind fun _ => takes_pure _

def Call.least : Call → Nat
  | .value => 3
  | .pairs => 2
  | .pair => 2

theorem Call.takes_head (call : Call) : Takes call.least call.head := by
  cases call with
  | value =>
    refine (takes_number 1).bind (k := 2) fun tag => ?_
    cases ValueForm.ofTag tag with
    | enumConstant => exact ((takes_skip 4).bind fun _ => takes_pure _).mono (by decide)
    | nested => exact (takes_skip 2).bind fun _ => takes_pure _
    | array => exact (takes_number 2).bind fun _ => takes_pure _
    | constant => exact (takes_skip 2).bind fun _ => takes_pure _
  | pairs => exact (takes_number 2).bind fun _ => takes_pure _
  | pair => exact (takes_skip 2).bind fun _ => takes_pure _

theorem Call.shorter {call : Call} {calls : List Call} {c d : Cursor}
    (h : call.head c = .ok (calls, d)) : d.rest.length < c.rest.length := by
  have hlength := (call.takes_head.goesOn c calls d h).length_le
  have hleast : 0 < call.least := by cases call <;> decide
  omega

def Call.values : Call → Nat
  | .value => 1
  | .pairs => 0
  | .pair => 0

theorem Call.values_le (call : Call) : 3 * call.values ≤ call.least := by
  cases call <;> decide

/-- The calls are made one after another from the cursor, `n` values are skipped to their end by
them and by the calls that they make, and so it all ends. -/
inductive Walk : List Call → Cursor → Nat → Except ClassFileError Cursor → Prop where
  | done (c : Cursor) : Walk [] c 0 (.ok c)
  | stuck {call : Call} {calls : List Call} {c : Cursor} {e : ClassFileError} :
      call.head c = .error e → Walk (call :: calls) c 0 (.error e)
  | failed {call : Call} {calls inner : List Call} {c d : Cursor} {n : Nat} {e : ClassFileError} :
      call.head c = .ok (inner, d) → Walk inner d n (.error e) →
      Walk (call :: calls) c n (.error e)
  | next {call : Call} {calls inner : List Call} {c d d' : Cursor} {m n : Nat}
      {r : Except ClassFileError Cursor} :
      call.head c = .ok (inner, d) → Walk inner d m (.ok d') → Walk calls d' n r →
      Walk (call :: calls) c (m + call.values + n) r

/-- The walk keeps to the bytes that there are, and needs three of them for each value. -/
structure Contained (c : Cursor) (n : Nat) (r : Except ClassFileError Cursor) : Prop where
  goesOn : ∀ d, r = .ok d → c.GoesOn (3 * n) d
  bounded : 3 * n ≤ c.rest.length
  truncated : ∀ e, r = .error e → ∃ p, e = .truncated p

theorem Walk.contained {calls : List Call} {c : Cursor} {n : Nat}
    {r : Except ClassFileError Cursor} (h : Walk calls c n r) : Contained c n r := by
  induction h with
  | done c => exact ⟨fun d hd => Except.ok.inj hd ▸ .refl c, Nat.zero_le _, nofun⟩
  | @stuck call calls c e hhead =>
    refine ⟨nofun, Nat.zero_le _, fun e' he => ?_⟩
    obtain rfl := Except.error.inj he
    exact call.takes_head.truncated c e hhead
  | @failed call calls inner c d n e hhead _ ih =>
    have hshorter := Call.shorter hhead
    exact ⟨nofun, Nat.le_trans ih.bounded (Nat.le_of_lt hshorter), ih.truncated⟩
  | @next call calls inner c d d' m n r hhead _ _ ihinner ih =>
    -- The bytes of the value itself lie in front of those of the values inside it.
    have hcall : c.GoesOn (3 * call.values + 3 * m) d' :=
      ((call.takes_head.goesOn c inner d hhead).mono call.values_le).trans (ihinner.goesOn d' rfl)
    have hbounded := ih.bounded
    have hlength := hcall.length_le
    refine ⟨fun e he => (hcall.trans (ih.goesOn e he)).mono (by omega), by omega, ih.truncated⟩

theorem Walk.skipAll_eq {calls : List Call} {c : Cursor} {n : Nat}
    {r : Except ClassFileError Cursor} (h : Walk calls c n r) : skipAll calls c = r := by
  induction h with
  | done c => rfl
  | stuck hhead =>
    rw [skipAll, Call.skipped_eq, hhead]
    rfl
  | failed hhead _ ih =>
    rw [skipAll, Call.skipped_eq, hhead]
    change skipAll _ _ >>= _ = _
    rw [ih]
    rfl
  | next hhead _ _ ihinner ih =>
    rw [skipAll, Call.skipped_eq, hhead]
    change skipAll _ _ >>= _ = _
    rw [ihinner]
    exact ih

theorem Walk.unique {calls : List Call} {c : Cursor} {m n : Nat}
    {r s : Except ClassFileError Cursor} (h : Walk calls c n r) (k : Walk calls c m s) : m = n := by
  induction h generalizing m s with
  | done c =>
    cases k
    rfl
  | stuck hhead =>
    cases k with
    | stuck _ => rfl
    | failed hhead' _ => cases hhead.symm.trans hhead'
    | next hhead' _ _ => cases hhead.symm.trans hhead'
  | failed hhead hinner ih =>
    cases k with
    | stuck hhead' => cases hhead.symm.trans hhead'
    | failed hhead' hinner' =>
      cases hhead.symm.trans hhead'
      exact ih hinner'
    | next hhead' hinner' _ =>
      cases hhead.symm.trans hhead'
      cases hinner.skipAll_eq.symm.trans hinner'.skipAll_eq
  | next hhead hinner _ ihinner ih =>
    cases k with
    | stuck hhead' => cases hhead.symm.trans hhead'
    | failed hhead' hinner' =>
      cases hhead.symm.trans hhead'
      cases hinner.skipAll_eq.symm.trans hinner'.skipAll_eq
    | next hhead' hinner' hrest' =>
      cases hhead.symm.trans hhead'
      cases hinner.skipAll_eq.symm.trans hinner'.skipAll_eq
      rw [ihinner hinner', ih hrest']

/-- Calls end, wherever they are made: those inside a call are made behind bytes of its own. -/
theorem exists_walk : ∀ (calls : List Call) (c : Cursor), ∃ n r, Walk calls c n r
  | [], c => ⟨0, .ok c, .done c⟩
  | call :: calls, c => by
    cases hhead : call.head c with
    | error e => exact ⟨0, .error e, .stuck hhead⟩
    | ok x =>
      obtain ⟨inner, d⟩ := x
      have hshorter := Call.shorter hhead
      obtain ⟨m, r, hinner⟩ := exists_walk inner d
      cases r with
      | error e => exact ⟨m, .error e, .failed hhead hinner⟩
      | ok d' =>
        have hlength := (hinner.contained.goesOn d' rfl).length_le
        obtain ⟨n, r, hrest⟩ := exists_walk calls d'
        exact ⟨m + call.values + n, r, .next hhead hinner hrest⟩
termination_by calls c => (c.rest.length, calls.length)

theorem Walk.skipped_eq {call : Call} {c : Cursor} {n : Nat} {r : Except ClassFileError Cursor}
    (h : Walk [call] c n r) : call.skipped c = r :=
  (skipAll_singleton call c).symm.trans h.skipAll_eq

/-- A call has one run, and its result is that of the list. -/
theorem exists_walk_iff (call : Call) (c : Cursor) :
    ∃ n, ∀ m r, Walk [call] c m r ↔ m = n ∧ r = call.skipped c := by
  obtain ⟨n, r, h⟩ := exists_walk [call] c
  refine ⟨n, fun m s => ⟨fun k => ⟨h.unique k, k.skipped_eq.symm⟩, ?_⟩⟩
  rintro ⟨rfl, rfl⟩
  rwa [h.skipped_eq]

theorem Call.goesOn_of_skipped (call : Call) {c d : Cursor} (h : call.skipped c = .ok d) :
    c.GoesOn call.least d := by
  rw [Call.skipped_eq] at h
  obtain ⟨⟨inner, d'⟩, hhead, hinner⟩ := bind_eq_ok.1 h
  obtain ⟨n, r, hwalk⟩ := exists_walk inner d'
  have hgoes := hwalk.contained.goesOn d (hwalk.skipAll_eq.symm.trans hinner)
  exact ((call.takes_head.goesOn c inner d' hhead).trans hgoes).mono (Nat.le_add_right _ _)

end ClasspathSymbols.ClassFile
