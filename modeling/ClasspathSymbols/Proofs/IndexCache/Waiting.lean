import ClasspathSymbols.Proofs.IndexCache.Run

/-! # Waiting for a project

A task on a project that is held waits in vain. It asks for the slot of the project first, but a
project that is held has a pair, so the slot is there and the wait leaves everything as it was. A
project that is free keeps no task waiting. -/
namespace ClasspathSymbols
namespace IndexCache

/-- The cache once a task has asked for the slot of a project, which is made where there is none. -/
def reserve (c : IndexCache) (p : String) : IndexCache :=
  match c.slots.get? p with
  | some _ => c
  | none => c.putSlot p ⟨none, false⟩

/-- An index task that asks for the slot before it waits for the project. -/
def taskOnSlot (c : IndexCache) (a : Access) (p : String) :
    Except IndexUnavailable Indexed × IndexCache :=
  if a.held.contains p then (.error (.timeout p a.timeout), c.reserve p)
  else (c.reserve p).current a.host p

theorem reserve_of_slot {c : IndexCache} {p : String} (h : (c.slots.get? p).isSome) :
    c.reserve p = c := by
  obtain ⟨s, hs⟩ := Option.isSome_iff_exists.1 h
  rw [reserve, hs]

theorem slot_reserve (c : IndexCache) (p : String) : (c.reserve p).slot p = c.slot p := by
  rw [reserve]
  split
  · rfl
  · rename_i h
    rw [slot, slots_putSlot, if_pos rfl, slot, h]
    rfl

theorem putSlot_reserve (c : IndexCache) (p : String) (s : Slot) :
    (c.reserve p).putSlot p s = c.putSlot p s := by
  rw [reserve]
  split
  · rfl
  · rw [putSlot, putSlot, putSlot, Table.insert_insert]

theorem current_reserve (c : IndexCache) (host : Host) (p : String) :
    (c.reserve p).current host p = c.current host p := by
  rw [current, current, rebuild, rebuild, slot_reserve, putSlot_reserve]
  split
  · rename_i ix hs
    rw [reserve_of_slot]
    rw [slot_fresh_iff.1 hs]
    rfl
  · rfl

theorem slot_of_pair {c : IndexCache} {p : String} (h : (c.pair? p).isSome) :
    (c.slots.get? p).isSome := by
  rw [pair?] at h
  exact Option.isSome_of_isSome_bind h

/-- Where held projects have pairs, a task need not make a slot before it waits. -/
theorem taskOnSlot_eq {c : IndexCache} {a : Access} {p : String}
    (h : p ∈ a.held → (c.pair? p).isSome) : c.taskOnSlot a p = c.task a p := by
  rw [taskOnSlot, task]
  split
  · rename_i hheld
    rw [reserve_of_slot (slot_of_pair (h (by simpa using hheld)))]
  · exact current_reserve c a.host p

theorem task_of_held {c : IndexCache} {a : Access} {p : String} (hheld : p ∈ a.held) :
    c.task a p = (.error (.timeout p a.timeout), c) := by
  rw [task, if_pos (by simpa using hheld)]

theorem free_of_task_ok {c d : IndexCache} {a : Access} {p : String} {ix : Indexed}
    (h : c.task a p = (.ok ix, d)) : p ∉ a.held := by
  intro hheld
  rw [task_of_held hheld] at h
  cases h

theorem not_timeout_of_free {c : IndexCache} {a : Access} {p : String} (hfree : p ∉ a.held)
    (q : String) (n : Nat) : (c.task a p).1 ≠ .error (.timeout q n) := by
  have ho := task_outcome c a p
  generalize c.task a p = r at ho
  obtain ⟨answer, d⟩ := r
  intro he
  cases ho with
  | timeout held => exact absurd held hfree
  | hit | built => cases he
  | failed _ _ hx =>
    cases he
    rcases Host.index_error hx with ⟨r, hr⟩ | ⟨b, hb⟩
    · cases hr
    · cases hb

theorem ask_not_timeout_of_free {α : Type} {c : IndexCache} {a : Access} {p : String}
    (hfree : p ∉ a.held) (f : Index → α) (q : String) (n : Nat) :
    (c.ask a p f).1 ≠ .error (.timeout q n) := by
  have hno : (c.task a p).1 ≠ .error (.timeout q n) := not_timeout_of_free hfree q n
  have hask : (c.ask a p f).1 = (c.task a p).1.map fun ix => f ix.index := rfl
  rw [hask]
  cases hr : (c.task a p).1 with
  | ok ix =>
    intro he
    cases he
  | error e =>
    intro he
    cases he
    exact hno hr

theorem pair_of_task_ok {c d : IndexCache} {a : Access} {p : String} {ix : Indexed}
    (h : c.task a p = (.ok ix, d)) : d.pair? p = some ix := by
  have ho := task_outcome c a p
  rw [h] at ho
  dsimp only at ho
  generalize hr : (Except.ok ix : Except IndexUnavailable Indexed) = r at ho
  cases ho with
  | timeout | failed => cases hr
  | hit _ hs =>
    cases hr
    exact congrArg (·.bind (·.current)) hs
  | built _ _ _ hs =>
    cases hr
    rw [pair?, hs, if_pos rfl]
    rfl

theorem pair_task {c : IndexCache} {q : String} (h : (c.pair? q).isSome) (a : Access)
    (p : String) : ((c.task a p).2.pair? q).isSome := by
  have ho := task_outcome c a p
  generalize c.task a p = r at ho
  obtain ⟨answer, d⟩ := r
  cases ho with
  | timeout => exact h
  | hit => exact h
  | built _ _ _ hs =>
    rw [pair?, hs]
    split
    · rfl
    · rwa [Slot.current_of_map_mark]
  | failed _ _ _ hs =>
    rw [pair?, hs]
    split
    · rename_i hq
      subst hq
      obtain ⟨ix, hix⟩ := Option.isSome_iff_exists.1 h
      rw [hix]
      rfl
    · rwa [Slot.current_of_map_mark]

def Paired (c : IndexCache) (held : List String) : Prop := ∀ q ∈ held, (c.pair? q).isSome

theorem paired_of_task_ok {c d : IndexCache} {held : List String} {a : Access} {p : String}
    {ix : Indexed} (hpair : c.Paired held) (h : c.task a p = (.ok ix, d)) :
    d.Paired (p :: held) := by
  intro q hq
  rcases List.mem_cons.1 hq with rfl | hq
  · rw [pair_of_task_ok h]
    rfl
  · have hkept := pair_task (hpair q hq) a p
    rwa [h] at hkept

def Op.Keeps (q : String) : Op → Prop
  | .task .. | .invalidate _ => True
  | .remove p => p ≠ q
  | .clear => False

theorem pair_apply {c : IndexCache} {q : String} (h : (c.pair? q).isSome) {op : Op}
    (hop : op.Keeps q) : ((c.apply op).pair? q).isSome := by
  cases op with
  | task a p => exact pair_task h a p
  | invalidate p =>
    rw [apply, pair?, slots_invalidate, Slot.current_of_map_mark]
    exact h
  | remove p =>
    rw [apply, pair?, slots_remove, if_neg (Ne.symm hop)]
    exact h
  | clear => exact hop.elim

theorem pair_afterOps {c : IndexCache} {q : String} (h : (c.pair? q).isSome) {ops : List Op}
    (hops : ∀ op ∈ ops, op.Keeps q) : ((c.afterOps ops).pair? q).isSome := by
  induction ops generalizing c with
  | nil => exact h
  | cons op ops ih =>
    have hop := hops op List.mem_cons_self
    exact ih (pair_apply h hop) fun o ho => hops o (List.mem_cons_of_mem op ho)

theorem keeps_of_tasks {a : Access} {ops : List Op} (h : ∀ op ∈ ops, ∃ p, op = .task a p)
    (q : String) : ∀ op ∈ ops, op.Keeps q := by
  intro op hop
  obtain ⟨p, rfl⟩ := h op hop
  trivial

/-- What a task on the cache does about the projects that are held. -/
structure Guarded (c : IndexCache) (a : Access) (p : String) : Prop where
  slot : c.taskOnSlot a p = c.task a p
  busy : p ∈ a.held → c.task a p = (.error (.timeout p a.timeout), c)
  free : p ∉ a.held → ∀ q n, (c.task a p).1 ≠ .error (.timeout q n)

theorem guarded_of_pair {c : IndexCache} {a : Access} {p : String}
    (h : p ∈ a.held → (c.pair? p).isSome) : Guarded c a p where
  slot := taskOnSlot_eq h
  busy := task_of_held
  free := not_timeout_of_free

/-- The operation, if it is a task, runs while at least the projects `outer` are held, is guarded
and waits as long as it is told. -/
def Op.Guarded (outer : List String) (timeout : Nat) (c : IndexCache) (op : Op) : Prop :=
  ∀ a p, op = .task a p → outer ⊆ a.held ∧ a.timeout = timeout ∧ c.Guarded a p

theorem throughout_guarded {c : IndexCache} {a : Access} {ops : List Op}
    (hpair : c.Paired a.held) (htasks : ∀ op ∈ ops, ∃ p, op = .task a p) :
    Throughout (Op.Guarded a.held a.timeout) c ops := by
  induction ops generalizing c with
  | nil => trivial
  | cons op ops ih =>
    obtain ⟨p, rfl⟩ := htasks op List.mem_cons_self
    constructor
    · rintro b q ⟨⟩
      exact ⟨List.Subset.refl _, rfl, guarded_of_pair (hpair p)⟩
    · refine ih (fun q hq => pair_task (hpair q hq) a p) fun o ho => ?_
      exact htasks o (List.mem_cons_of_mem _ ho)

theorem throughout_guarded_of_none {outer : List String} {timeout : Nat} {c : IndexCache}
    {ops : List Op} (h : ∀ a p, .task a p ∉ ops) : Throughout (Op.Guarded outer timeout) c ops := by
  induction ops generalizing c with
  | nil => trivial
  | cons op ops ih =>
    constructor
    · rintro a p rfl
      exact absurd List.mem_cons_self (h a p)
    · exact ih fun a p hp => h a p (List.mem_cons_of_mem op hp)

/-- What is guarded while a project more is held is guarded. -/
theorem throughout_guarded_of_cons {q : String} {outer : List String} {timeout : Nat}
    {c : IndexCache} {ops : List Op} (h : Throughout (Op.Guarded (q :: outer) timeout) c ops) :
    Throughout (Op.Guarded outer timeout) c ops := by
  refine h.mono fun d op hop a p heq => ?_
  obtain ⟨hheld, hrest⟩ := hop a p heq
  exact ⟨fun r hr => hheld (List.mem_cons_of_mem q hr), hrest⟩

theorem searchOps_tasks (a : Access) (s : Symbol) (c : IndexCache) (ps : List String) :
    ∀ op ∈ searchOps a s c ps, ∃ p, op = .task a p := by
  induction ps generalizing c with
  | nil => exact List.forall_mem_nil _
  | cons p ps ih =>
    rw [searchOps, List.forall_mem_cons]
    refine ⟨⟨p, rfl⟩, ?_⟩
    split
    · exact List.forall_mem_nil _
    · exact ih _
    · exact ih _

theorem ownerOps_tasks (c : IndexCache) (a : Access) (s : Symbol) (ps : List String) :
    ∀ op ∈ c.ownerOps a s ps, ∃ p, op = .task a p := by
  cases ps with
  | nil => exact List.forall_mem_nil _
  | cons p ps =>
    cases ps with
    | nil => exact List.forall_mem_nil _
    | cons q ps => exact searchOps_tasks a s c _

theorem deprecatedInOwnerOps_tasks (c : IndexCache) (a : Access) (s : Symbol)
    (ps : List String) : ∀ op ∈ c.deprecatedInOwnerOps a s ps, ∃ p, op = .task a p := by
  rw [deprecatedInOwnerOps, List.forall_mem_append]
  refine ⟨ownerOps_tasks c a s ps, ?_⟩
  split
  · rename_i p _ _
    rw [List.forall_mem_singleton]
    exact ⟨p, rfl⟩
  · exact List.forall_mem_nil _

end IndexCache

end ClasspathSymbols
