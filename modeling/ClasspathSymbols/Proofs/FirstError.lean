import Mathlib.Data.List.Forall2
import Mathlib.Data.List.Perm.Basic

/-! # The first error of a row

Steps that may fail succeed together if each does. Going through a row of items, the first that
fails decides; if none does, there is one result an item. Two rows of steps whose outcomes are the
same, one by one, have the same outcome. -/
namespace ClasspathSymbols

section Steps

variable {α β ε ε' : Type} {x : Except ε α}

theorem bind_eq_ok {f : α → Except ε β} {b : β} :
    x >>= f = .ok b ↔ ∃ a, x = .ok a ∧ f a = .ok b := by
  cases x with
  | error e =>
    constructor
    · intro h
      cases h
    · rintro ⟨a, h, -⟩
      cases h
  | ok a =>
    constructor
    · intro h
      exact ⟨a, rfl, h⟩
    · rintro ⟨c, hc, h⟩
      rwa [Except.ok.inj hc]

theorem bind_congr_ok {f g : α → Except ε β} (h : ∀ a, x = .ok a → f a = g a) :
    x >>= f = x >>= g := by
  cases x with
  | error e => rfl
  | ok a => exact h a rfl

theorem map_eq_ok {f : α → β} {b : β} : x.map f = .ok b ↔ ∃ a, x = .ok a ∧ f a = b := by
  cases x with
  | error e =>
    constructor
    · intro h
      cases h
    · rintro ⟨a, h, -⟩
      cases h
  | ok a =>
    constructor
    · intro h
      exact ⟨a, rfl, Except.ok.inj h⟩
    · rintro ⟨c, hc, rfl⟩
      rw [Except.ok.inj hc]
      rfl

theorem mapError_eq_ok {f : ε → ε'} {a : α} : x.mapError f = .ok a ↔ x = .ok a := by
  cases x with
  | error e => constructor <;> (intro h; cases h)
  | ok b => exact ⟨fun h => congrArg Except.ok (Except.ok.inj h),
      fun h => congrArg Except.ok (Except.ok.inj h)⟩

theorem eq_ok_of_toOption {a : α} (h : x.toOption = some a) : x = .ok a := by
  cases x with
  | error e => cases h
  | ok b => exact congrArg Except.ok (Option.some.inj h)

end Steps

section Rows

variable {α β ε : Type} {f : α → Except ε β} {e : ε}

/-- The row is cut in front of its first item that fails. -/
def FirstFails (f : α → Except ε β) (row : List α) (e : ε) : Prop :=
  ∃ before a after, row = before ++ a :: after ∧ (∀ b ∈ before, ∃ v, f b = .ok v) ∧ f a = .error e

theorem firstFails_cons_of_error {a : α} {row : List α} {e' : ε} (ha : f a = .error e') :
    FirstFails f (a :: row) e ↔ e' = e := by
  constructor
  · rintro ⟨before, b, after, hrow, hbefore, hb⟩
    cases before with
    | nil =>
      obtain ⟨rfl, -⟩ := List.cons.inj hrow
      rw [ha] at hb
      exact Except.error.inj hb
    | cons c before =>
      obtain ⟨rfl, -⟩ := List.cons.inj hrow
      obtain ⟨v, hv⟩ := hbefore a List.mem_cons_self
      rw [ha] at hv
      cases hv
  · rintro rfl
    refine ⟨[], a, row, rfl, ?_, ha⟩
    intro b hb
    cases hb

theorem firstFails_cons_of_ok {a : α} {row : List α} {v : β} (ha : f a = .ok v) :
    FirstFails f (a :: row) e ↔ FirstFails f row e := by
  constructor
  · rintro ⟨before, b, after, hrow, hbefore, hb⟩
    cases before with
    | nil =>
      obtain ⟨rfl, -⟩ := List.cons.inj hrow
      rw [ha] at hb
      cases hb
    | cons c before =>
      obtain ⟨-, rfl⟩ := List.cons.inj hrow
      exact ⟨before, b, after, rfl, fun x hx => hbefore x (List.mem_cons_of_mem c hx), hb⟩
  · rintro ⟨before, b, after, rfl, hbefore, hb⟩
    refine ⟨a :: before, b, after, rfl, ?_, hb⟩
    intro x hx
    rcases List.mem_cons.1 hx with rfl | hx
    · exact ⟨v, ha⟩
    · exact hbefore x hx

theorem mapM_eq_error {row : List α} : row.mapM f = .error e ↔ FirstFails f row e := by
  induction row with
  | nil =>
    constructor
    · intro h
      cases h
    · rintro ⟨before, a, after, hrow, -⟩
      cases before <;> cases hrow
  | cons a row ih =>
    rw [List.mapM_cons]
    cases ha : f a with
    | error e' =>
      rw [firstFails_cons_of_error ha]
      exact ⟨Except.error.inj, congrArg Except.error⟩
    | ok v =>
      rw [firstFails_cons_of_ok ha, ← ih]
      cases row.mapM f with
      | error e' => exact Iff.rfl
      | ok vs => constructor <;> (intro h; cases h)

theorem mapM_eq_ok {row : List α} {vs : List β} :
    row.mapM f = .ok vs ↔ List.Forall₂ (fun a v => f a = .ok v) row vs := by
  induction row generalizing vs with
  | nil =>
    rw [List.forall₂_nil_left_iff]
    exact ⟨fun h => (Except.ok.inj h).symm, fun h => congrArg Except.ok h.symm⟩
  | cons a row ih =>
    rw [List.mapM_cons, List.forall₂_cons_left_iff, bind_eq_ok]
    constructor
    · rintro ⟨v, hv, h⟩
      obtain ⟨us, hus, h⟩ := bind_eq_ok.1 h
      exact ⟨v, us, hv, ih.1 hus, (Except.ok.inj h).symm⟩
    · rintro ⟨v, us, hv, hus, rfl⟩
      exact ⟨v, hv, bind_eq_ok.2 ⟨us, ih.2 hus, rfl⟩⟩

theorem mapM_eq_map {g : α → β} {row : List α} (h : ∀ a ∈ row, f a = .ok (g a)) :
    row.mapM f = .ok (row.map g) := by
  rw [mapM_eq_ok, List.forall₂_map_right_iff, List.forall₂_same]
  exact h

theorem mem_of_mapM {row : List α} {vs : List β} (h : row.mapM f = .ok vs) {v : β} (hv : v ∈ vs) :
    ∃ a ∈ row, f a = .ok v := by
  rw [mapM_eq_ok] at h
  induction h with
  | nil => cases hv
  | cons ha hrest ih =>
    rcases List.mem_cons.1 hv with rfl | hv
    · exact ⟨_, List.mem_cons_self, ha⟩
    · obtain ⟨a, hmem, hav⟩ := ih hv
      exact ⟨a, List.mem_cons_of_mem _ hmem, hav⟩

theorem exists_of_mapM {row : List α} {vs : List β} (h : row.mapM f = .ok vs) {a : α}
    (ha : a ∈ row) : ∃ v ∈ vs, f a = .ok v := by
  rw [mapM_eq_ok] at h
  induction h with
  | nil => cases ha
  | cons hv hrest ih =>
    rcases List.mem_cons.1 ha with rfl | ha
    · exact ⟨_, List.mem_cons_self, hv⟩
    · obtain ⟨v, hmem, hav⟩ := ih ha
      exact ⟨v, List.mem_cons_of_mem _ hmem, hav⟩

/-- In another order the same steps succeed, with the same results in another order. -/
theorem mapM_perm {row row' : List α} {vs : List β} (hperm : row'.Perm row)
    (h : row.mapM f = .ok vs) : ∃ vs', row'.mapM f = .ok vs' ∧ vs'.Perm vs := by
  obtain ⟨vs', hvs', hresults⟩ := List.perm_comp_forall₂ hperm (mapM_eq_ok.1 h)
  exact ⟨vs', mapM_eq_ok.2 hvs', hresults⟩

end Rows

section SideBySide

variable {α β γ δ ε : Type}

/-- Two steps fail with one error, or succeed with results that are related. -/
inductive SameOutcome (R : α → β → Prop) : Except ε α → Except ε β → Prop where
  | error (e : ε) : SameOutcome R (.error e) (.error e)
  | ok {a : α} {b : β} : R a b → SameOutcome R (.ok a) (.ok b)

variable {R : α → β → Prop} {x : Except ε α} {y : Except ε β}

theorem SameOutcome.imp {S : α → β → Prop} (h : SameOutcome R x y) (himp : ∀ a b, R a b → S a b) :
    SameOutcome S x y := by
  cases h with
  | error e => exact .error e
  | ok hab => exact .ok (himp _ _ hab)

theorem SameOutcome.map {S : γ → δ → Prop} {f : α → γ} {g : β → δ} (h : SameOutcome R x y)
    (hfg : ∀ a b, R a b → S (f a) (g b)) : SameOutcome S (x.map f) (y.map g) := by
  cases h with
  | error e => exact .error e
  | ok hab => exact .ok (hfg _ _ hab)

theorem SameOutcome.bind {S : γ → δ → Prop} {f : α → Except ε γ} {g : β → Except ε δ}
    (h : SameOutcome R x y) (hfg : ∀ a b, R a b → SameOutcome S (f a) (g b)) :
    SameOutcome S (x >>= f) (y >>= g) := by
  cases h with
  | error e => exact .error e
  | ok hab => exact hfg _ _ hab

end SideBySide

end ClasspathSymbols
