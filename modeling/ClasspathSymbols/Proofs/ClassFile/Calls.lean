import ClasspathSymbols.Proofs.ClassFile.Skipping
import ClasspathSymbols.Proofs.FirstError

/-! # Skipping by calls

A value and the pairs of an annotation can be skipped by calls that call one another: each takes
some bytes itself and then makes further calls, one after another. The list of what is still to be
skipped comes to the same. -/
namespace ClasspathSymbols.ClassFile

/-- What a call skips: a value, the pairs of an annotation, or one of these. -/
inductive Call where
  | value
  | pairs
  | pair
  deriving DecidableEq, Repr

/-- The bytes that a call takes itself, and the calls that it makes behind them. -/
def Call.head : Call → Reader (List Call)
  | .value => do
    match ValueForm.ofTag (← number 1) with
    | .enumConstant => skip 4; return []
    | .nested => skip 2; return [.pairs]
    | .array => return List.replicate (← number 2) .value
    | .constant => skip 2; return []
  | .pairs => return List.replicate (← number 2) .pair
  | .pair => do
    skip 2
    return [.value]

def Call.skipped : Call → Cursor → Except ClassFileError Cursor
  | .value, c => skipValue c
  | .pairs, c => skipPairs c
  | .pair, c => skip 2 c >>= fun x => skipValue x.2

def skipAll : List Call → Cursor → Except ClassFileError Cursor
  | [], c => .ok c
  | call :: calls, c => call.skipped c >>= skipAll calls

theorem reader_bind_bind {α β γ : Type} (r : Reader α) (f : α → Reader β)
    (g : β × Cursor → Except ClassFileError γ) (c : Cursor) :
    (r >>= f) c >>= g = r c >>= fun x => f x.1 x.2 >>= g :=
  bind_assoc (r c) (fun x => f x.1 x.2) g

/-- What comes first on the list is skipped first. -/
theorem skipPending_append : ∀ (todo more : List Pending) (c : Cursor),
    skipPending (todo ++ more) c = skipPending todo c >>= skipPending more
  | [], more, c => by
    rw [skipPending_nil]
    rfl
  | .values 0 :: todo, more, c => by
    rw [List.cons_append, skipPending_no_values, skipPending_no_values]
    exact skipPending_append todo more c
  | .pairs 0 :: todo, more, c => by
    rw [List.cons_append, skipPending_no_pairs, skipPending_no_pairs]
    exact skipPending_append todo more c
  | .pairs (n + 1) :: todo, more, c => by
    rw [List.cons_append, skipPending_pairs, skipPending_pairs, bind_assoc]
    refine bind_congr_ok fun x hx => ?_
    have := skip_length hx
    exact skipPending_append (.values 1 :: .pairs n :: todo) more x.2
  | .values (n + 1) :: todo, more, c => by
    rw [List.cons_append, skipPending_values, skipPending_values, bind_assoc]
    refine bind_congr_ok fun x hx => ?_
    have := number_length hx
    cases ValueForm.ofTag x.1 with
    | enumConstant =>
      simp only [bind_assoc]
      refine bind_congr_ok fun y hy => ?_
      have := skip_length hy
      exact skipPending_append (.values n :: todo) more y.2
    | nested =>
      simp only [bind_assoc]
      refine bind_congr_ok fun y hy => ?_
      have := skip_length hy
      refine bind_congr_ok fun z hz => ?_
      have := number_length hz
      exact skipPending_append (.pairs z.1 :: .values n :: todo) more z.2
    | array =>
      simp only [bind_assoc]
      refine bind_congr_ok fun y hy => ?_
      have := number_length hy
      exact skipPending_append (.values y.1 :: .values n :: todo) more y.2
    | constant =>
      simp only [bind_assoc]
      refine bind_congr_ok fun y hy => ?_
      have := skip_length hy
      exact skipPending_append (.values n :: todo) more y.2
termination_by todo _ c => (c.rest.length, todo.length)

theorem skipPending_cons (p : Pending) (todo : List Pending) (c : Cursor) :
    skipPending (p :: todo) c = skipPending [p] c >>= skipPending todo :=
  skipPending_append [p] todo c

theorem skipPending_cons_no_values (p : Pending) (todo : List Pending) (c : Cursor) :
    skipPending (p :: .values 0 :: todo) c = skipPending (p :: todo) c := by
  rw [skipPending_cons, skipPending_cons p todo]
  exact bind_congr_ok fun d _ => skipPending_no_values todo d

theorem skipPending_next_value (n : Nat) (todo : List Pending) (c : Cursor) :
    skipPending (.values (n + 1) :: todo) c = skipValue c >>= skipPending (.values n :: todo) := by
  -- Taken apart from its row, a value leaves an empty row behind.
  have hone : skipPending (.values 1 :: .values n :: todo) c =
      skipPending (.values (n + 1) :: todo) c := by
    simp only [skipPending_values, skipPending_no_values, skipPending_cons_no_values]
  rw [← hone, skipPending_cons, skipValue]

theorem skipPending_next_pair (n : Nat) (todo : List Pending) (c : Cursor) :
    skipPending (.pairs (n + 1) :: todo) c =
      Call.pair.skipped c >>= skipPending (.pairs n :: todo) := by
  rw [skipPending_pairs, Call.skipped, bind_assoc]
  refine bind_congr_ok fun x _ => ?_
  rw [skipPending_next_value]
  exact bind_congr_ok fun d _ => skipPending_no_values _ d

theorem skipPending_values_eq (n : Nat) (c : Cursor) :
    skipPending [.values n] c = skipAll (List.replicate n .value) c := by
  induction n generalizing c with
  | zero => rw [skipPending_no_values, skipPending_nil, List.replicate_zero, skipAll]
  | succ n ih =>
    rw [skipPending_next_value, List.replicate_succ, skipAll]
    exact bind_congr_ok fun d _ => ih d

theorem skipPending_pairs_eq (n : Nat) (c : Cursor) :
    skipPending [.pairs n] c = skipAll (List.replicate n .pair) c := by
  induction n generalizing c with
  | zero => rw [skipPending_no_pairs, skipPending_nil, List.replicate_zero, skipAll]
  | succ n ih =>
    rw [skipPending_next_pair, List.replicate_succ, skipAll]
    exact bind_congr_ok fun d _ => ih d

theorem skipAll_singleton (call : Call) (c : Cursor) : skipAll [call] c = call.skipped c :=
  bind_pure (call.skipped c)

theorem skipValue_eq (c : Cursor) :
    skipValue c = Call.value.head c >>= fun x => skipAll x.1 x.2 := by
  rw [skipValue, skipPending_values, Call.head, reader_bind_bind]
  refine bind_congr_ok fun x _ => ?_
  cases ValueForm.ofTag x.1 with
  | enumConstant =>
    simp only [reader_bind_bind]
    refine bind_congr_ok fun y _ => ?_
    rw [skipPending_no_values]
    exact skipPending_nil y.2
  | nested =>
    simp only [reader_bind_bind]
    refine bind_congr_ok fun y _ => ?_
    have hpairs : skipAll [.pairs] y.2 = number 2 y.2 >>= fun z => skipPending [.pairs z.1] z.2 :=
      skipAll_singleton .pairs y.2
    refine Eq.trans ?_ hpairs.symm
    exact bind_congr_ok fun z _ => skipPending_cons_no_values (.pairs z.1) [] z.2
  | array =>
    simp only [reader_bind_bind]
    refine bind_congr_ok fun y _ => ?_
    rw [skipPending_cons_no_values]
    exact skipPending_values_eq y.1 y.2
  | constant =>
    simp only [reader_bind_bind]
    refine bind_congr_ok fun y _ => ?_
    rw [skipPending_no_values]
    exact skipPending_nil y.2

/-- A call skips what it takes itself and what is skipped by the calls that it makes. -/
theorem Call.skipped_eq (call : Call) (c : Cursor) :
    call.skipped c = call.head c >>= fun x => skipAll x.1 x.2 := by
  cases call with
  | value => exact skipValue_eq c
  | pairs =>
    rw [Call.head, reader_bind_bind]
    exact bind_congr_ok fun x _ => skipPending_pairs_eq x.1 x.2
  | pair =>
    rw [Call.head, reader_bind_bind]
    exact bind_congr_ok fun x _ => (skipAll_singleton .value x.2).symm

end ClasspathSymbols.ClassFile
