import ClasspathSymbols.Proofs.IndexCache.Candidates
import Mathlib.Order.Monotone.Basic

/-! # Two caches that are one for a project

Two caches mirror each other as far as a project goes if its slot is the same in both but for the
numbers of the builds. Whatever is done to the project in both of them keeps them so, and so does
what is done to other projects in one of them, which only puts off the numbers to come. -/
namespace ClasspathSymbols

def Indexed.renumber (f : Nat → Nat) (ix : Indexed) : Indexed := { ix with serial := f ix.serial }

def Slot.renumber (f : Nat → Nat) (s : Slot) : Slot :=
  { s with current := s.current.map (·.renumber f) }

theorem Indexed.renumber_congr {f g : Nat → Nat} {ix : Indexed} (h : g ix.serial = f ix.serial) :
    ix.renumber g = ix.renumber f := by
  rw [renumber, renumber, h]

namespace IndexCache

/-- The build with number `n` in the second cache has number `f n` in the first. -/
structure Mirrors (p : String) (f : Nat → Nat) (c d : IndexCache) : Prop where
  slot : c.slots.get? p = (d.slots.get? p).map (·.renumber f)
  numbered : ∀ ix, d.pair? p = some ix → ix.serial < d.counts.builds
  rising : StrictMono f
  next : ∀ k, f (d.counts.builds + k) = c.counts.builds + k

variable {p : String} {f : Nat → Nat} {c d : IndexCache}

theorem mirrors_empty (p : String) : Mirrors p id empty empty where
  slot := rfl
  numbered := by
    intro ix h
    cases h
  rising := strictMono_id
  next := fun _ => rfl

theorem Mirrors.pair (h : Mirrors p f c d) : c.pair? p = (d.pair? p).map (·.renumber f) := by
  rw [pair?, pair?, h.slot]
  cases d.slots.get? p <;> rfl

theorem Mirrors.fresh (h : Mirrors p f c d) {ix : Indexed}
    (hs : d.slots.get? p = some ⟨some ix, false⟩) :
    c.slots.get? p = some ⟨some (ix.renumber f), false⟩ := by
  rw [h.slot, hs]
  rfl

theorem Mirrors.due (h : Mirrors p f c d) (hdue : d.Due p) : c.Due p := by
  intro ix hs
  rw [h.slot] at hs
  obtain ⟨⟨current, stale⟩, hd, hr⟩ := Option.map_eq_some_iff.1 hs
  simp only [Slot.renumber, Slot.mk.injEq] at hr
  obtain ⟨jx, rfl, -⟩ := Option.map_eq_some_iff.1 hr.1
  rw [hr.2] at hd
  exact hdue jx hd

/-- The numbers that the second cache has given out stay, and those to come are put off. -/
def putOff (f : Nat → Nat) (given next : Nat) (n : Nat) : Nat :=
  if n < given then f n else next + (n - given)

theorem putOff_of_lt {given next n : Nat} (h : n < given) : putOff f given next n = f n := if_pos h

theorem strictMono_putOff {given next : Nat} (hf : StrictMono f) (hnext : f given ≤ next) :
    StrictMono (putOff f given next) := by
  intro m n hmn
  by_cases hn : n < given
  · rw [putOff_of_lt hn, putOff_of_lt (by omega)]
    exact hf hmn
  · by_cases hm : m < given
    · have hlt := hf hm
      rw [putOff_of_lt hm, putOff, if_neg hn]
      omega
    · rw [putOff, putOff, if_neg hm, if_neg hn]
      omega

theorem Mirrors.aside (h : Mirrors p f c d) {e : IndexCache}
    (hslot : e.slots.get? p = c.slots.get? p) (hbuilds : c.counts.builds ≤ e.counts.builds) :
    ∃ g, Mirrors p g e d ∧ ∀ n < d.counts.builds, g n = f n := by
  have hgiven := h.next 0
  refine ⟨putOff f d.counts.builds e.counts.builds, ?_, fun n hn => putOff_of_lt hn⟩
  constructor
  · rw [hslot, h.slot]
    cases hs : d.slots.get? p with
    | none => rfl
    | some s =>
      obtain ⟨current, stale⟩ := s
      cases current with
      | none => rfl
      | some ix =>
        have hix := h.numbered ix (by rw [pair?, hs]; rfl)
        have hsame : ix.renumber (putOff f d.counts.builds e.counts.builds) = ix.renumber f :=
          Indexed.renumber_congr (putOff_of_lt hix)
        simp only [Option.map_some, Slot.renumber, hsame]
  · exact h.numbered
  · apply strictMono_putOff h.rising
    simp only [Nat.add_zero] at hgiven
    omega
  · intro k
    rw [putOff, if_neg (by omega)]
    omega

theorem task_of_index_ok {a : Access} {x : Classpath × Index} (hfree : p ∉ a.held)
    (hquiet : a.host.invalidates = []) (hdue : c.Due p) (hx : a.host.index p = .ok x) :
    (c.task a p).1 = .ok (c.nextPair x) ∧
      (c.task a p).2.slots.get? p = some ⟨some (c.nextPair x), false⟩ ∧
      (c.task a p).2.counts.builds = c.counts.builds + 1 := by
  have ho := task_outcome c a p
  generalize c.task a p = r at ho ⊢
  obtain ⟨answer, e⟩ := r
  dsimp only at ho ⊢
  cases ho with
  | timeout held => exact absurd held hfree
  | hit _ hs => exact absurd hs (hdue _)
  | failed _ _ hy => rw [hx] at hy; cases hy
  | built _ _ hy hs hc =>
    rw [hx] at hy
    obtain rfl := Except.ok.inj hy
    refine ⟨rfl, ?_, by rw [hc]⟩
    rw [hs, if_pos rfl, hquiet]
    rfl

theorem task_of_index_error {a : Access} {e : IndexUnavailable} (hfree : p ∉ a.held)
    (hdue : c.Due p) (hx : a.host.index p = .error e) :
    (c.task a p).1 = .error e ∧
      (c.task a p).2.slots.get? p = (c.pair? p).map (fun ix => ⟨some ix, true⟩) ∧
      (c.task a p).2.counts.builds = c.counts.builds := by
  have ho := task_outcome c a p
  generalize c.task a p = r at ho ⊢
  obtain ⟨answer, e⟩ := r
  dsimp only at ho ⊢
  cases ho with
  | timeout held => exact absurd held hfree
  | hit _ hs => exact absurd hs (hdue _)
  | built _ _ hy => rw [hx] at hy; cases hy
  | failed _ _ hy hs hc =>
    rw [hx] at hy
    obtain rfl := Except.error.inj hy
    refine ⟨rfl, ?_, by rw [hc]⟩
    rw [hs, if_pos rfl]

theorem mirrors_task (h : Mirrors p f c d) {a : Access} (hfree : p ∉ a.held)
    (hquiet : a.host.invalidates = []) :
    (c.task a p).1 = (d.task a p).1.map (·.renumber f) ∧
      Mirrors p f (c.task a p).2 (d.task a p).2 := by
  by_cases hdue : d.Due p
  · cases hx : a.host.index p with
    | ok x =>
      obtain ⟨hc, hcs, hcb⟩ := task_of_index_ok hfree hquiet (h.due hdue) hx
      obtain ⟨hd, hds, hdb⟩ := task_of_index_ok hfree hquiet hdue hx
      have hnew : (d.nextPair x).renumber f = c.nextPair x := by
        have hnumber : f d.counts.builds = c.counts.builds := h.next 0
        simp only [Indexed.renumber, nextPair, hnumber]
      refine ⟨by rw [hc, hd, Except.map, hnew], ?_, ?_, h.rising, ?_⟩
      · rw [hcs, hds, Option.map_some, Slot.renumber, Option.map_some, hnew]
      · intro ix hix
        rw [pair?, hds] at hix
        obtain rfl := Option.some.inj hix
        rw [hdb]
        exact Nat.lt_succ_self _
      · intro k
        have hk := h.next (1 + k)
        rw [hcb, hdb, Nat.add_assoc, hk, Nat.add_assoc]
    | error e =>
      obtain ⟨hc, hcs, hcb⟩ := task_of_index_error hfree (h.due hdue) hx
      obtain ⟨hd, hds, hdb⟩ := task_of_index_error hfree hdue hx
      refine ⟨by rw [hc, hd, Except.map], ?_, ?_, h.rising, ?_⟩
      · rw [hcs, hds, h.pair]
        cases d.pair? p <;> rfl
      · intro ix hix
        rw [pair?, hds] at hix
        rw [hdb]
        apply h.numbered
        cases hp : d.pair? p with
        | none => rw [hp] at hix; cases hix
        | some jx => rw [hp] at hix; exact hix
      · rw [hcb, hdb]
        exact h.next
  · obtain ⟨ix, hs⟩ := not_forall_not.1 hdue
    rw [task_of_fresh hfree hs, task_of_fresh hfree (h.fresh hs)]
    exact ⟨rfl, h.slot, h.numbered, h.rising, h.next⟩

theorem mirrors_ask {α : Type} (h : Mirrors p f c d) {a : Access} (hfree : p ∉ a.held)
    (hquiet : a.host.invalidates = []) (q : Index → α) :
    (c.ask a p q).1 = (d.ask a p q).1 ∧ Mirrors p f (c.ask a p q).2 (d.ask a p q).2 := by
  obtain ⟨hanswer, hcache⟩ := mirrors_task h hfree hquiet
  refine ⟨?_, hcache⟩
  simp only [ask, hanswer]
  cases (d.task a p).1 <;> rfl

theorem mirrors_search (h : Mirrors p f c d) {a : Access} (hfree : p ∉ a.held)
    (hquiet : a.host.invalidates = []) (s : Symbol) (failure : Option IndexUnavailable)
    {ps : List String} (hps : ∀ q ∈ ps, q = p) :
    (search a s c failure ps).1 = (search a s d failure ps).1 ∧
      Mirrors p f (search a s c failure ps).2 (search a s d failure ps).2 := by
  induction ps generalizing c d failure with
  | nil => exact ⟨rfl, h⟩
  | cons q ps ih =>
    obtain rfl := hps q List.mem_cons_self
    have hrest : ∀ r ∈ ps, r = q := fun r hr => hps r (List.mem_cons_of_mem q hr)
    obtain ⟨hanswer, hcache⟩ := mirrors_ask h hfree hquiet fun ix => ix.declares s
    rw [search, search]
    generalize c.ask a q (fun ix => ix.declares s) = x at hanswer hcache ⊢
    generalize d.ask a q (fun ix => ix.declares s) = y at hanswer hcache ⊢
    obtain ⟨answer, c⟩ := x
    obtain ⟨answer, d⟩ := y
    obtain rfl : _ = answer := hanswer
    rcases answer with e | found
    · exact ih hcache _ hrest
    · cases found with
      | true => exact ⟨rfl, hcache⟩
      | false => exact ih hcache _ hrest

theorem mirrors_owner (h : Mirrors p f c d) {a : Access} (hfree : p ∉ a.held)
    (hquiet : a.host.invalidates = []) (s : Symbol) {ps : List String} (hps : ∀ q ∈ ps, q = p) :
    (c.owner a s ps).1 = (d.owner a s ps).1 ∧
      Mirrors p f (c.owner a s ps).2 (d.owner a s ps).2 := by
  unfold owner
  split
  · exact ⟨rfl, h⟩
  · exact mirrors_search h hfree hquiet s none fun q hq => hps q (mem_of_mem_candidates hq)

theorem mirrors_deprecatedInOwner (h : Mirrors p f c d) {a : Access} (hfree : p ∉ a.held)
    (hquiet : a.host.invalidates = []) (s : Symbol) {ps : List String} (hps : ∀ q ∈ ps, q = p) :
    (c.deprecatedInOwner a s ps).1 = (d.deprecatedInOwner a s ps).1 ∧
      Mirrors p f (c.deprecatedInOwner a s ps).2 (d.deprecatedInOwner a s ps).2 := by
  obtain ⟨hanswer, hcache⟩ := mirrors_owner h hfree hquiet s hps
  have howner := fun q => @mem_of_owner a s d ps q
  rw [deprecatedInOwner, deprecatedInOwner]
  generalize c.owner a s ps = x at hanswer hcache ⊢
  generalize d.owner a s ps = y at hanswer hcache howner ⊢
  obtain ⟨answer, c⟩ := x
  obtain ⟨answer, d⟩ := y
  obtain rfl : _ = answer := hanswer
  rcases answer with e | found
  · exact ⟨rfl, hcache⟩
  · cases found with
    | none => exact ⟨rfl, hcache⟩
    | some q =>
      obtain rfl := hps q (howner q rfl)
      exact mirrors_ask hcache hfree hquiet _

theorem mirrors_invalidate (h : Mirrors p f c d) :
    (c.invalidate p).1 = (d.invalidate p).1 ∧
      Mirrors p f (c.invalidate p).2 (d.invalidate p).2 := by
  have hc := slots_invalidate c p p
  have hd := slots_invalidate d p p
  refine ⟨?_, ?_, ?_, h.rising, ?_⟩
  · rw [invalidate, invalidate, h.slot]
    cases d.slots.get? p <;> rfl
  · rw [hc, hd, h.slot]
    cases d.slots.get? p <;> rfl
  · rw [pair?, hd, counts_invalidate, Slot.current_of_map_mark]
    exact h.numbered
  · rw [counts_invalidate, counts_invalidate]
    exact h.next

theorem mirrors_remove (h : Mirrors p f c d) :
    (c.remove p).1 = (d.remove p).1 ∧ Mirrors p f (c.remove p).2 (d.remove p).2 := by
  have hc := slots_remove c p p
  have hd := slots_remove d p p
  rw [if_pos rfl] at hc hd
  refine ⟨?_, ?_, ?_, h.rising, ?_⟩
  · rw [remove, remove, h.slot]
    cases hs : d.slots.get? p with
    | none => rfl
    | some s => simp [Slot.renumber]
  · rw [hc, hd]
    rfl
  · intro ix hix
    rw [pair?, hd] at hix
    cases hix
  · rw [counts_remove, counts_remove]
    exact h.next

theorem mirrors_clear (h : Mirrors p f c d) : Mirrors p f c.clear d.clear where
  slot := rfl
  numbered := by
    intro ix hix
    cases hix
  rising := h.rising
  next := by
    rw [counts_clear, counts_clear]
    exact h.next

end IndexCache

end ClasspathSymbols
