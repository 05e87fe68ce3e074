import ClasspathSymbols.Proofs.IndexCache.Run

/-! # Candidates for an owner

Whoever looks for an owner asks candidates only, and finds a candidate. -/
namespace ClasspathSymbols.IndexCache

theorem mem_of_mem_candidates {keep : String → Bool} {seen ps : List String} {p : String}
    (h : p ∈ candidates keep seen ps) : p ∈ ps := by
  induction ps generalizing seen with
  | nil => exact h
  | cons q ps ih =>
    rw [candidates] at h
    split at h
    · exact List.mem_cons_of_mem q (ih h)
    · split at h
      · rcases List.mem_cons.1 h with rfl | h
        · exact List.mem_cons_self
        · exact List.mem_cons_of_mem q (ih h)
      · exact List.mem_cons_of_mem q (ih h)

theorem mem_of_search {a : Access} {s : Symbol} {c : IndexCache}
    {failure : Option IndexUnavailable} {ps : List String} {p : String}
    (h : (search a s c failure ps).1 = .ok (some p)) : p ∈ ps := by
  induction ps generalizing c failure with
  | nil =>
    cases failure <;> cases h
  | cons q ps ih =>
    rw [search] at h
    split at h
    · cases h
      exact List.mem_cons_self
    · exact List.mem_cons_of_mem q (ih h)
    · exact List.mem_cons_of_mem q (ih h)

theorem mem_of_owner {a : Access} {s : Symbol} {c : IndexCache} {ps : List String} {p : String}
    (h : (c.owner a s ps).1 = .ok (some p)) : p ∈ ps := by
  unfold owner at h
  split at h
  · cases h
    exact List.mem_cons_self
  · exact mem_of_mem_candidates (mem_of_search h)

theorem searchOps_on_candidates (a : Access) (s : Symbol) (c : IndexCache) (ps : List String) :
    ∀ op ∈ searchOps a s c ps, ∃ p ∈ ps, op = .task a p := by
  induction ps generalizing c with
  | nil => exact List.forall_mem_nil _
  | cons p ps ih =>
    have hrest : ∀ d, ∀ op ∈ searchOps a s d ps, ∃ q ∈ p :: ps, op = .task a q := by
      intro d op hop
      obtain ⟨q, hq, heq⟩ := ih d op hop
      exact ⟨q, List.mem_cons_of_mem p hq, heq⟩
    rw [searchOps, List.forall_mem_cons]
    refine ⟨⟨p, List.mem_cons_self, rfl⟩, ?_⟩
    split
    · exact List.forall_mem_nil _
    · exact hrest _
    · exact hrest _

theorem ownerOps_on_candidates (c : IndexCache) (a : Access) (s : Symbol) (ps : List String) :
    ∀ op ∈ c.ownerOps a s ps, ∃ p ∈ ps, op = .task a p := by
  unfold ownerOps
  split
  · exact List.forall_mem_nil _
  · intro op hop
    obtain ⟨q, hq, heq⟩ := searchOps_on_candidates _ _ _ _ op hop
    exact ⟨q, mem_of_mem_candidates hq, heq⟩

theorem deprecatedInOwnerOps_on_candidates (c : IndexCache) (a : Access) (s : Symbol)
    (ps : List String) : ∀ op ∈ c.deprecatedInOwnerOps a s ps, ∃ p ∈ ps, op = .task a p := by
  rw [deprecatedInOwnerOps, List.forall_mem_append]
  refine ⟨ownerOps_on_candidates c a s ps, ?_⟩
  split
  · rename_i p d howner
    rw [List.forall_mem_singleton]
    exact ⟨p, mem_of_owner (congrArg Prod.fst howner), rfl⟩
  · exact List.forall_mem_nil _

end ClasspathSymbols.IndexCache
