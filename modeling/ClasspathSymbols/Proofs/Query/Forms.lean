import ClasspathSymbols.Proofs.Json.Decode
import ClasspathSymbols.Query.Json

/-! # The forms of a query

A query is accepted in many forms: its fields come in any order and with others between them, a kind
of symbol is a word or a key, and arrays stand for objects. `IsForm` says what these forms are, away
from any order of reading; the form that a query is printed in is one of them. -/
namespace ClasspathSymbols

theorem Json.field?_eq_some {key : String} {fields : List (String × Json)} {v : Json} :
    Json.field? key fields = some v ↔ fields.filter (·.1 = key) = [(key, v)] := by
  have hkeys : ∀ f ∈ fields.filter (·.1 = key), f.1 = key := fun f hf =>
    of_decide_eq_true (List.mem_filter.1 hf).2
  rw [Json.field?]
  split
  · rename_i key' w heq
    rw [heq] at hkeys ⊢
    obtain rfl : key' = key := hkeys _ List.mem_cons_self
    constructor
    · intro h
      rw [Option.some.inj h]
    · intro h
      cases h
      rfl
  · rename_i hnot
    constructor
    · intro h
      cases h
    · intro h
      exact absurd h (hnot key v)

theorem find?_word_eq_some {α : Type} {kinds : List α} {word : α → String}
    (hown : ∀ k, kinds.find? (fun k' => word k' = word k) = some k) {w : String} {k : α} :
    kinds.find? (fun k' => word k' = w) = some k ↔ w = word k := by
  constructor
  · intro h
    have hfound := List.find?_some h
    exact (of_decide_eq_true hfound).symm
  · rintro rfl
    exact hown k

namespace SymbolKind

theorem ofWord?_eq_some {word : String} {k : SymbolKind} : ofWord? word = some k ↔ word = k.word :=
  find?_word_eq_some fun k => by cases k <;> rfl

/-- The values that stand for a kind of symbol: its word, or an object of this one key with nothing
under it. -/
inductive IsForm (k : SymbolKind) : Json → Prop where
  | word : IsForm k (.string k.word)
  | key {v : Json} : v = .null ∨ v = .object [] → IsForm k (.object [(k.word, v)])

theorem ofJson?_eq_some {v : Json} {k : SymbolKind} : ofJson? v = some k ↔ k.IsForm v := by
  constructor
  · intro h
    unfold ofJson? at h
    split at h
    · rw [ofWord?_eq_some.1 h]
      exact .word
    · rw [ofWord?_eq_some.1 h]
      exact .key (.inl rfl)
    · rw [ofWord?_eq_some.1 h]
      exact .key (.inr rfl)
    · cases h
  · intro h
    cases h with
    | word => exact ofWord?_eq_some.2 rfl
    | key hv =>
      obtain rfl | rfl := hv
      · exact ofWord?_eq_some.2 rfl
      · exact ofWord?_eq_some.2 rfl

end SymbolKind

namespace Symbol

/-- The values that stand for a symbol: an object with its two fields among others, or an array of
the two. -/
inductive IsForm (s : Symbol) : Json → Prop where
  | object {fields : List (String × Json)} {v : Json} :
    fields.filter (·.1 = "fq_name") = [("fq_name", .string s.name)] →
    fields.filter (·.1 = "kind") = [("kind", v)] → s.kind.IsForm v → IsForm s (.object fields)
  | array {v : Json} : s.kind.IsForm v → IsForm s (.array [.string s.name, v])

theorem ofParts?_eq_some {name kind : Json} {s : Symbol} :
    ofParts? name kind = some s ↔ name = .string s.name ∧ s.kind.IsForm kind := by
  rw [← Json.string?_eq_some, ← SymbolKind.ofJson?_eq_some, ofParts?]
  constructor
  · intro h
    obtain ⟨n, hn, h⟩ := Option.bind_eq_some_iff.1 h
    obtain ⟨k, hk, h⟩ := Option.bind_eq_some_iff.1 h
    obtain rfl := Option.some.inj h
    exact ⟨hn, hk⟩
  · rintro ⟨hname, hkind⟩
    rw [hname, hkind]
    rfl

theorem ofJson?_eq_some {v : Json} {s : Symbol} : ofJson? v = some s ↔ s.IsForm v := by
  constructor
  · intro h
    unfold ofJson? at h
    split at h
    · obtain ⟨name, hname, h⟩ := Option.bind_eq_some_iff.1 h
      obtain ⟨kind, hkind, h⟩ := Option.bind_eq_some_iff.1 h
      obtain ⟨rfl, hform⟩ := ofParts?_eq_some.1 h
      exact .object (Json.field?_eq_some.1 hname) (Json.field?_eq_some.1 hkind) hform
    · obtain ⟨rfl, hform⟩ := ofParts?_eq_some.1 h
      exact .array hform
    · cases h
  · intro h
    cases h with
    | object hname hkind hform =>
      exact Option.bind_eq_some_iff.2 ⟨_, Json.field?_eq_some.2 hname,
        Option.bind_eq_some_iff.2 ⟨_, Json.field?_eq_some.2 hkind, ofParts?_eq_some.2 ⟨rfl, hform⟩⟩⟩
    | array hform => exact ofParts?_eq_some.2 ⟨rfl, hform⟩

theorem toJson_isForm (s : Symbol) : s.IsForm s.toJson :=
  .object (v := .string s.kind.word) rfl rfl .word

end Symbol

namespace Query

def IsField : Query → Json → Prop
  | .type name, v | .package name, v | .binaryName name, v | .simpleName name, v
  | .packages name, v => v = .string name
  | .isDeprecated s, v | .location s, v => s.IsForm v

/-- The values that stand for a query: an object with its kind and its field once each, anything
else beside them, or an array of the two. -/
inductive IsForm (q : Query) : Json → Prop where
  | object {fields : List (String × Json)} {v : Json} :
    fields.filter (·.1 = kindKey) = [(kindKey, .string q.kind.word)] →
    fields.filter (·.1 = q.kind.fieldKey) = [(q.kind.fieldKey, v)] → q.IsField v →
    IsForm q (.object fields)
  | array {v : Json} : q.IsField v → IsForm q (.array [.string q.kind.word, v])

theorem Kind.ofWord?_eq_some {word : String} {k : Kind} : ofWord? word = some k ↔ word = k.word :=
  find?_word_eq_some fun k => by cases k <;> rfl

theorem Kind.fieldKey_ne_kindKey (k : Kind) : k.fieldKey ≠ kindKey := by
  cases k <;> decide

theorem Kind.query?_eq_some {k : Kind} {v : Json} {q : Query} :
    k.query? v = some q ↔ q.kind = k ∧ q.IsField v := by
  constructor
  · intro h
    cases k with
    | isDeprecated | location =>
      obtain ⟨s, hs, rfl⟩ := Option.map_eq_some_iff.1 h
      exact ⟨rfl, Symbol.ofJson?_eq_some.1 hs⟩
    | type | package | binaryName | simpleName | packages =>
      obtain ⟨name, hname, rfl⟩ := Option.map_eq_some_iff.1 h
      exact ⟨rfl, Json.string?_eq_some.1 hname⟩
  · rintro ⟨rfl, h⟩
    cases q with
    | isDeprecated s | location s =>
      exact Option.map_eq_some_iff.2 ⟨s, Symbol.ofJson?_eq_some.2 h, rfl⟩
    | type name | package name | binaryName name | simpleName name | packages name =>
      exact Option.map_eq_some_iff.2 ⟨name, Json.string?_eq_some.2 h, rfl⟩

theorem fieldValue_isField (q : Query) : q.IsField q.fieldValue := by
  cases q with
  | isDeprecated s | location s => exact s.toJson_isForm
  | type name | package name | binaryName name | simpleName name | packages name => rfl

theorem toJson_isForm (q : Query) : q.IsForm q.toJson := by
  refine .object (v := q.fieldValue) ?_ ?_ q.fieldValue_isField
  · cases q <;> rfl
  · cases q <;> rfl

end Query

end ClasspathSymbols
