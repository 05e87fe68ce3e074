/-!
# Tables

Finite maps as lists without repeated keys, the key put in last at the end. `get?_insert` and
`get?_erase` say what the operations do to the view `get?`, and `size_insert` and `size_erase` what
they do to the number of keys.
-/
namespace ClasspathSymbols

structure Table (κ α : Type) where
  entries : List (κ × α)
  nodup : (entries.map Prod.fst).Nodup

namespace Table

variable {κ α : Type} [DecidableEq κ]

def empty : Table κ α := ⟨[], List.nodup_nil⟩

instance : Inhabited (Table κ α) := ⟨empty⟩

def get? (t : Table κ α) (k : κ) : Option α := t.entries.lookup k

def size (t : Table κ α) : Nat := t.entries.length

def keys (t : Table κ α) : List κ := t.entries.map Prod.fst

def filterKeys (t : Table κ α) (keep : κ → Bool) : Table κ α where
  entries := t.entries.filter fun e => keep e.1
  nodup := t.nodup.sublist (List.filter_sublist.map _)

def erase (t : Table κ α) (k : κ) : Table κ α := t.filterKeys (· ≠ k)

def insert (t : Table κ α) (k : κ) (v : α) : Table κ α where
  entries := (t.erase k).entries ++ [(k, v)]
  nodup := by
    rw [List.map_append, List.map_singleton, List.nodup_append]
    refine ⟨(t.erase k).nodup, by simp, ?_⟩
    simp only [erase, filterKeys, List.mem_map, List.mem_filter, List.mem_singleton]
    rintro a ⟨x, ⟨_, hx⟩, rfl⟩ b rfl
    simpa using hx

theorem lookup_filter (keep : κ → Bool) (k : κ) (l : List (κ × α)) :
    (l.filter fun e => keep e.1).lookup k = if keep k then l.lookup k else none := by
  induction l with
  | nil => simp
  | cons e l ih =>
    obtain ⟨a, v⟩ := e
    by_cases hak : k = a
    · subst hak
      by_cases hk : keep k <;> simp [hk, ih]
    · have hb : (k == a) = false := by simpa using hak
      by_cases ha : keep a <;> simp [ha, List.lookup_cons, hb, ih]

theorem get?_filterKeys (t : Table κ α) (keep : κ → Bool) (k : κ) :
    (t.filterKeys keep).get? k = if keep k then t.get? k else none :=
  lookup_filter keep k t.entries

theorem get?_erase (t : Table κ α) (k j : κ) :
    (t.erase k).get? j = if j = k then none else t.get? j := by
  rw [erase, get?_filterKeys]
  by_cases h : j = k <;> simp [h]

theorem get?_insert (t : Table κ α) (k j : κ) (v : α) :
    (t.insert k v).get? j = if j = k then some v else t.get? j := by
  have he := get?_erase t k j
  simp only [get?, insert, List.lookup_append] at he ⊢
  rw [he]
  by_cases h : j = k
  · simp [h]
  · have hb : (j == k) = false := by simpa using h
    simp [h, List.lookup_cons, hb]

theorem get?_of_mem {t : Table κ α} {e : κ × α} (h : e ∈ t.entries) : t.get? e.1 = some e.2 := by
  obtain ⟨before, after, heq⟩ := List.append_of_mem h
  refine List.lookup_eq_some_iff.2 ⟨before, after, heq, fun b hb => ?_⟩
  have hnodup := t.nodup
  rw [heq, List.map_append, List.nodup_append] at hnodup
  have hne := hnodup.2.2 b.1 (List.mem_map_of_mem hb) e.1 (by simp)
  simpa using Ne.symm hne

theorem mem_entries {t : Table κ α} {k : κ} {v : α} : (k, v) ∈ t.entries ↔ t.get? k = some v := by
  constructor
  · exact fun h => get?_of_mem h
  · intro h
    obtain ⟨before, after, heq, -⟩ := List.lookup_eq_some_iff.1 h
    rw [heq]
    exact List.mem_append_right _ List.mem_cons_self

theorem mem_keys {t : Table κ α} {k : κ} : k ∈ t.keys ↔ (t.get? k).isSome := by
  rw [keys, List.mem_map]
  constructor
  · rintro ⟨e, he, rfl⟩
    rw [get?_of_mem he]
    rfl
  · intro h
    obtain ⟨v, hv⟩ := Option.isSome_iff_exists.1 h
    exact ⟨(k, v), mem_entries.2 hv, rfl⟩

theorem size_eq_of_keys {β : Type} {t : Table κ α} {u : Table κ β}
    (h : ∀ k, (t.get? k).isSome = (u.get? k).isSome) : t.size = u.size := by
  have hperm : t.keys.Perm u.keys := by
    refine (List.perm_ext_iff_of_nodup t.nodup u.nodup).2 fun k => ?_
    have ht := mem_keys (t := t) (k := k)
    have hu := mem_keys (t := u) (k := k)
    rw [h] at ht
    exact ht.trans hu.symm
  have hlen := hperm.length_eq
  rwa [keys, keys, List.length_map, List.length_map] at hlen

theorem size_erase (t : Table κ α) (k : κ) :
    (t.erase k).size + (if (t.get? k).isSome then 1 else 0) = t.size := by
  have hcount : t.entries.countP (fun e => e.1 == k) = if (t.get? k).isSome then 1 else 0 := by
    have hone := t.nodup.count (a := k)
    rw [List.count_eq_countP, List.countP_map] at hone
    simp only [← mem_keys]
    exact hone
  have hsplit := List.length_eq_countP_add_countP (fun e => e.1 == k) (l := t.entries)
  rw [hcount, List.countP_eq_length_filter, Nat.add_comm] at hsplit
  have hkeep : (fun e : κ × α => decide ¬ (e.1 == k) = true) = fun e => decide (e.1 ≠ k) := by
    simp
  rw [hkeep] at hsplit
  exact hsplit.symm

theorem size_insert (t : Table κ α) (k : κ) (v : α) :
    (t.insert k v).size = t.size + if (t.get? k).isSome then 0 else 1 := by
  have he := size_erase t k
  have hi : (t.insert k v).size = (t.erase k).size + 1 := List.length_append
  by_cases hk : (t.get? k).isSome
  · rw [if_pos hk] at he ⊢
    omega
  · rw [if_neg hk] at he ⊢
    omega

theorem size_of_replaced {t u : Table κ α} {k : κ} {v : Option α}
    (h : ∀ j, (u.get? j).isSome = if j = k then v.isSome else (t.get? j).isSome) :
    u.size + (if (t.get? k).isSome then 1 else 0) = t.size + if v.isSome then 1 else 0 := by
  cases v with
  | none =>
    have hsize : u.size = (t.erase k).size := by
      apply size_eq_of_keys
      intro j
      rw [h, get?_erase]
      split <;> rfl
    rw [hsize]
    exact size_erase t k
  | some v =>
    have hsize : u.size = (t.insert k v).size := by
      apply size_eq_of_keys
      intro j
      rw [h, get?_insert]
      split <;> rfl
    rw [hsize, size_insert]
    by_cases hk : (t.get? k).isSome <;> simp [hk]

theorem insert_insert (t : Table κ α) (k : κ) (v w : α) :
    (t.insert k v).insert k w = t.insert k w := by
  simp [insert, erase, filterKeys, List.filter_append, List.filter_filter]

end Table

end ClasspathSymbols
