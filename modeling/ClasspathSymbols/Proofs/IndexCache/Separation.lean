import ClasspathSymbols.Proofs.IndexCache.Mirror
import ClasspathSymbols.Proofs.IndexCache.Waiting

/-! # Operations on other projects

What is done to other projects leaves the slot of a project alone as long as no project is held
meanwhile and the model raises no marks. A run from which these operations are deleted gives the
same answers about the project, only that its builds are numbered otherwise. -/
namespace ClasspathSymbols

namespace Answer

def renumber (f : Nat → Nat) : Answer → Answer
  | .indexed ix => .indexed (ix.renumber f)
  | a => a

def IsBelow (n : Nat) : Answer → Prop
  | .indexed ix => ix.serial < n
  | _ => True

theorem renumber_congr {f g : Nat → Nat} {n : Nat} (h : ∀ k < n, g k = f k) {a : Answer}
    (ha : a.IsBelow n) : a.renumber g = a.renumber f := by
  cases a with
  | indexed ix => exact congrArg indexed (Indexed.renumber_congr (h _ ha))
  | _ => rfl

end Answer

namespace IndexCache

variable {p : String} {f : Nat → Nat} {c d : IndexCache}

def Op.isElsewhere (p : String) : Op → Bool
  | .task _ q | .invalidate q | .remove q => q ≠ p
  | .clear => false

/-- No project is held around the operation, and the model raises no marks in it. -/
def Op.IsAlone : Op → Prop
  | .task a _ => a.held = [] ∧ a.host.invalidates = []
  | _ => True

def answer (c : IndexCache) : Op → Answer
  | .task a p => Session.answerOf .indexed (c.task a p).1
  | .invalidate p => .flag (c.invalidate p).1
  | .remove p => .flag (c.remove p).1
  | .clear => .done

def answers (c : IndexCache) : List Op → List Answer
  | [] => []
  | op :: ops => c.answer op :: (c.apply op).answers ops

theorem slot_apply_elsewhere (c : IndexCache) {op : Op} (hp : op.isElsewhere p)
    (ha : op.IsAlone) : (c.apply op).slots.get? p = c.slots.get? p := by
  cases op with
  | task a q =>
    have hq : p ≠ q := Ne.symm (of_decide_eq_true hp)
    have ho := task_outcome c a q
    rw [apply]
    generalize c.task a q = r at ho ⊢
    obtain ⟨answer, e⟩ := r
    dsimp only at ho ⊢
    cases ho with
    | timeout | hit => rfl
    | built _ _ _ hs | failed _ _ _ hs =>
      rw [hs, if_neg hq, ha.2]
      simp
  | invalidate q =>
    have hq : p ≠ q := Ne.symm (of_decide_eq_true hp)
    rw [apply, slots_invalidate, decide_eq_false hq, Slot.map_mark_false]
  | remove q =>
    have hq : p ≠ q := Ne.symm (of_decide_eq_true hp)
    rw [apply, slots_remove, if_neg hq]
  | clear => cases hp

theorem builds_le_apply (c : IndexCache) (op : Op) :
    c.counts.builds ≤ (c.apply op).counts.builds := by
  cases op with
  | task a q =>
    have ho := task_outcome c a q
    rw [apply]
    generalize c.task a q = r at ho ⊢
    obtain ⟨answer, e⟩ := r
    dsimp only at ho ⊢
    cases ho with
    | timeout | hit => exact Nat.le_refl _
    | built _ _ _ _ hc => rw [hc]; exact Nat.le_succ _
    | failed _ _ _ _ hc => rw [hc]
  | invalidate q => rw [apply, counts_invalidate]
  | remove q => rw [apply, counts_remove]
  | clear => rw [apply, counts_clear]

theorem slot_afterOps_elsewhere (c : IndexCache) {ops : List Op}
    (hp : ∀ op ∈ ops, op.isElsewhere p) (ha : ∀ op ∈ ops, op.IsAlone) :
    (c.afterOps ops).slots.get? p = c.slots.get? p := by
  induction ops generalizing c with
  | nil => rfl
  | cons op ops ih =>
    rw [List.forall_mem_cons] at hp ha
    rw [afterOps_cons, ih (c.apply op) hp.2 ha.2]
    exact slot_apply_elsewhere c hp.1 ha.1

theorem builds_le_afterOps (c : IndexCache) (ops : List Op) :
    c.counts.builds ≤ (c.afterOps ops).counts.builds := by
  induction ops generalizing c with
  | nil => exact Nat.le_refl _
  | cons op ops ih => exact Nat.le_trans (builds_le_apply c op) (ih (c.apply op))

/-- What is done to other projects in the first cache does not show. -/
theorem mirrors_elsewhere (h : Mirrors p f c d) {ops : List Op}
    (hp : ∀ op ∈ ops, op.isElsewhere p) (ha : ∀ op ∈ ops, op.IsAlone) :
    ∃ g, Mirrors p g (c.afterOps ops) d ∧ ∀ n < d.counts.builds, g n = f n :=
  h.aside (slot_afterOps_elsewhere c hp ha) (builds_le_afterOps c ops)

structure Agreed (p : String) (f : Nat → Nat) (x y : Answer × IndexCache) : Prop where
  answer : x.1 = y.1.renumber f
  below : y.1.IsBelow y.2.counts.builds
  mirrors : x.2.Mirrors p f y.2

theorem agreed_apply (h : Mirrors p f c d) {op : Op} (ha : op.IsAlone)
    (hp : op.isElsewhere p = false) :
    Agreed p f (c.answer op, c.apply op) (d.answer op, d.apply op) := by
  cases op with
  | task a q =>
    obtain rfl : q = p := by simpa [Op.isElsewhere] using hp
    obtain ⟨hanswer, hcache⟩ := mirrors_task h (by rw [ha.1]; exact List.not_mem_nil) ha.2
    refine ⟨?_, ?_, hcache⟩
    · simp only [IndexCache.answer, hanswer]
      cases (d.task a q).1 <;> rfl
    · simp only [IndexCache.answer]
      cases hr : (d.task a q).1 with
      | ok ix => exact hcache.numbered ix (pair_of_task_ok (Prod.ext hr rfl))
      | error e => trivial
  | invalidate q =>
    obtain rfl : q = p := by simpa [Op.isElsewhere] using hp
    obtain ⟨hanswer, hcache⟩ := mirrors_invalidate h
    exact ⟨congrArg Answer.flag hanswer, trivial, hcache⟩
  | remove q =>
    obtain rfl : q = p := by simpa [Op.isElsewhere] using hp
    obtain ⟨hanswer, hcache⟩ := mirrors_remove h
    exact ⟨congrArg Answer.flag hanswer, trivial, hcache⟩
  | clear => exact ⟨rfl, trivial, mirrors_clear h⟩

/-- The answers in a run to the operations that are not about other projects. -/
def answersFor (p : String) (c : IndexCache) (ops : List Op) : List Answer :=
  ((ops.zip (c.answers ops)).filter fun x => !x.1.isElsewhere p).map (·.2)

def opsFor (p : String) (ops : List Op) : List Op := ops.filter fun op => !op.isElsewhere p

theorem answersFor_cons (p : String) (c : IndexCache) (op : Op) (ops : List Op) :
    answersFor p c (op :: ops) =
      if op.isElsewhere p then answersFor p (c.apply op) ops
      else c.answer op :: answersFor p (c.apply op) ops := by
  rw [answersFor, answers, List.zip_cons_cons, List.filter_cons]
  cases op.isElsewhere p <;> rfl

theorem opsFor_cons (p : String) (op : Op) (ops : List Op) :
    opsFor p (op :: ops) =
      if op.isElsewhere p then opsFor p ops else op :: opsFor p ops := by
  rw [opsFor, List.filter_cons]
  cases op.isElsewhere p <;> rfl

/-- The numbers that the second run has given out so far are the same in the end. -/
theorem answersFor_mirrors (h : Mirrors p f c d) {ops : List Op} (hops : ∀ op ∈ ops, op.IsAlone) :
    ∃ g, StrictMono g ∧ (∀ n < d.counts.builds, g n = f n) ∧
      answersFor p c ops = (d.answers (opsFor p ops)).map (·.renumber g) := by
  induction ops generalizing c d f with
  | nil => exact ⟨f, h.rising, fun _ _ => rfl, rfl⟩
  | cons op ops ih =>
    obtain ⟨hop, hrest⟩ := List.forall_mem_cons.1 hops
    rw [answersFor_cons, opsFor_cons]
    cases hp : op.isElsewhere p with
    | true =>
      obtain ⟨e, he, hef⟩ := h.aside (slot_apply_elsewhere c hp hop) (builds_le_apply c op)
      obtain ⟨g, hg, hge, hanswers⟩ := ih he hrest
      exact ⟨g, hg, fun n hn => (hge n hn).trans (hef n hn), hanswers⟩
    | false =>
      have hend := agreed_apply h hop hp
      obtain ⟨g, hg, hgf, hanswers⟩ := ih hend.mirrors hrest
      refine ⟨g, hg, fun n hn => hgf n (Nat.lt_of_lt_of_le hn (builds_le_apply d op)), ?_⟩
      have hanswer : c.answer op = (d.answer op).renumber g :=
        hend.answer.trans (Answer.renumber_congr hgf hend.below).symm
      simp only [Bool.false_eq_true, if_false, answers, List.map_cons, hanswer, hanswers]

end IndexCache

end ClasspathSymbols
