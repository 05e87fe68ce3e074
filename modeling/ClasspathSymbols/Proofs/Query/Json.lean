import ClasspathSymbols.Proofs.Json.RoundTrip
import ClasspathSymbols.Proofs.Json.Scalar
import ClasspathSymbols.Proofs.Query.Forms

/-! # Queries survive JSON

The decoder takes the fields of an object one by one, and keeps a draft of the query. What the draft
comes to depends on the values of the fields alone, so that a text is a query if the value that it
spells is a form of one. What is printed for a query is such a text. -/
namespace ClasspathSymbols.Query

open Json (Problem Reading)

theorem toJson_fits (q : Query) : q.toJson.Fits 0 := by
  have hfield : q.fieldValue.Fits 1 := by
    cases q with
    | isDeprecated s | location s => exact ⟨by decide, trivial, trivial, trivial⟩
    | type name | package name | binaryName name | simpleName name | packages name => trivial
  exact ⟨by decide, trivial, hfield, trivial⟩

section Reading

variable {depth : Nat} {r : Reading} {items : List Reading} {fields : List (Json.Scalar × Reading)}
  {ending : Json.Ending} {k : Kind} {q : Query}

theorem shaped_eq_ok {α : Type} {x : Option α} {a : α} : shaped x = .ok a ↔ x = some a := by
  cases x with
  | none =>
    constructor
    · intro h
      cases h
    · intro h
      cases h
  | some b =>
    exact ⟨fun h => congrArg some (Except.ok.inj h), fun h => congrArg _ (Option.some.inj h)⟩

theorem kindDecoder_eq_ok :
    kindDecoder depth r = .ok k ↔ r.buffer depth = .ok (.string k.word) := by
  cases r with
  | broken p =>
    constructor
    · intro h
      cases h
    · intro h
      cases h
  | scalar s =>
    show _ ↔ s.taken = .ok (.string k.word)
    rw [kindDecoder, bind_eq_ok]
    constructor
    · rintro ⟨word, hword, h⟩
      obtain ⟨v, hv, hword⟩ := bind_eq_ok.1 hword
      split at hword
      · rename_i heq
        cases hword
        split at h
        · rename_i hk
          cases h
          rw [hv, Json.string?_eq_some.1 heq, Kind.ofWord?_eq_some.1 hk]
        · cases h
      · cases hword
    · intro h
      refine ⟨k.word, bind_eq_ok.2 ⟨_, h, rfl⟩, ?_⟩
      rw [Kind.ofWord?_eq_some.2 rfl]
      rfl
  | array items ending =>
    constructor
    · intro h
      cases h
    · intro h
      obtain ⟨_, -, -, _, -, h⟩ := Json.buffer_array_eq_ok.1 h
      cases h
  | object fields ending =>
    constructor
    · intro h
      cases h
    · intro h
      obtain ⟨_, -, -, _, -, h⟩ := Json.buffer_object_eq_ok.1 h
      cases h

namespace Draft

variable {d d' d'' : Draft}

def kindFields (d : Draft) : List (String × Json) :=
  d.kind.toList.map fun k => (kindKey, .string k.word)

theorem kindFields_eq_append {before after : List (String × Json)} {f : String × Json}
    (h : d.kindFields = before ++ f :: after) :
    before = [] ∧ after = [] ∧ ∃ k, d.kind = some k ∧ f = (kindKey, .string k.word) := by
  rw [kindFields] at h
  cases hkind : d.kind with
  | none =>
    rw [hkind] at h
    exact absurd h.symm (List.append_ne_nil_of_right_ne_nil _ (List.cons_ne_nil _ _))
  | some k =>
    rw [hkind] at h
    replace h : [(kindKey, .string k.word)] = before ++ f :: after := h
    obtain ⟨rfl, hone⟩ | ⟨before, rfl, hnone⟩ := List.cons_eq_append_iff.1 h
    · obtain ⟨rfl, rfl⟩ := List.cons.inj hone
      exact ⟨rfl, rfl, k, rfl, rfl⟩
    · exact absurd hnone.symm (List.append_ne_nil_of_right_ne_nil _ (List.cons_ne_nil _ _))

theorem kindFields_eq_nil : d.kindFields = [] ↔ d.kind = none := by
  rw [kindFields, List.map_eq_nil_iff, Option.toList_eq_nil_iff]

theorem eq_of_kindFields (hkind : d'.kindFields = d.kindFields) (hothers : d'.others = d.others) :
    d' = d := by
  obtain ⟨kind, others⟩ := d
  obtain ⟨kind', others'⟩ := d'
  obtain rfl : others' = others := hothers
  cases kind with
  | none =>
    cases kind' with
    | none => rfl
    | some k' => cases hkind
  | some k =>
    cases kind' with
    | none => cases hkind
    | some k' =>
      injection hkind with hfield
      injection hfield with _ hvalue
      injection hvalue with hword
      have hk : some k' = some k :=
        (Kind.ofWord?_eq_some.2 rfl).symm.trans (Kind.ofWord?_eq_some.2 hword)
      rw [Option.some.inj hk]

/-- What some more fields make of a draft: its kind comes from those under the key of the kind, and
the others are added as they come. -/
structure Follows (d : Draft) (values : List (String × Json)) (d' : Draft) : Prop where
  kind : d'.kindFields = d.kindFields ++ values.filter (·.1 = kindKey)
  others : d'.others = d.others ++ values.filter (·.1 ≠ kindKey)

theorem follows_nil : d.Follows [] d' ↔ d' = d := by
  constructor
  · rintro ⟨hkind, hothers⟩
    exact eq_of_kindFields (hkind.trans (List.append_nil _)) (hothers.trans (List.append_nil _))
  · rintro rfl
    exact ⟨(List.append_nil _).symm, (List.append_nil _).symm⟩

theorem follows_kind {v : Json} : d.Follows [(kindKey, v)] d' ↔
    d.kind = none ∧ ∃ k, v = .string k.word ∧ d' = { d with kind := some k } := by
  constructor
  · rintro ⟨hkind, hothers⟩
    replace hkind : d'.kindFields = d.kindFields ++ [(kindKey, v)] := hkind
    replace hothers : d'.others = d.others ++ [] := hothers
    obtain ⟨hnone, -, k, hk, hfield⟩ := kindFields_eq_append hkind
    refine ⟨kindFields_eq_nil.1 hnone, k, congrArg Prod.snd hfield, eq_of_kindFields ?_ ?_⟩
    · rw [hkind, hnone, hfield]
      rfl
    · rw [hothers, List.append_nil]
  · rintro ⟨hnone, k, rfl, rfl⟩
    constructor
    · rw [kindFields_eq_nil.2 hnone]
      rfl
    · exact (List.append_nil _).symm

theorem follows_other {key : String} (hkey : key ≠ kindKey) {v : Json} :
    d.Follows [(key, v)] d' ↔ d' = { d with others := d.others ++ [(key, v)] } := by
  have hin : [(key, v)].filter (·.1 = kindKey) = [] :=
    List.filter_cons_of_neg fun h => hkey (of_decide_eq_true h)
  have hout : [(key, v)].filter (·.1 ≠ kindKey) = [(key, v)] :=
    List.filter_cons_of_pos (decide_eq_true hkey)
  constructor
  · rintro ⟨hkind, hothers⟩
    rw [hin, List.append_nil] at hkind
    rw [hout] at hothers
    exact eq_of_kindFields hkind hothers
  · rintro rfl
    constructor
    · rw [hin, List.append_nil]
      rfl
    · rw [hout]

theorem follows_cons {f : String × Json} {values : List (String × Json)} :
    d.Follows (f :: values) d'' ↔ ∃ d', d.Follows [f] d' ∧ d'.Follows values d'' := by
  constructor
  · rintro ⟨hkind, hothers⟩
    rw [List.filter_cons] at hkind hothers
    by_cases hf : f.1 = kindKey
    · rw [if_pos (decide_eq_true hf)] at hkind
      rw [if_neg fun h => absurd hf (of_decide_eq_true h)] at hothers
      obtain ⟨hnone, -, k, -, rfl⟩ := kindFields_eq_append hkind
      refine ⟨{ d with kind := some k }, follows_kind.2 ⟨kindFields_eq_nil.1 hnone, k, rfl, rfl⟩,
        ?_, hothers⟩
      rw [hkind, hnone]
      rfl
    · rw [if_neg fun h => hf (of_decide_eq_true h)] at hkind
      rw [if_pos (decide_eq_true hf)] at hothers
      refine ⟨{ d with others := d.others ++ [f] }, (follows_other hf).2 rfl, hkind, ?_⟩
      rw [hothers, List.append_assoc]
      rfl
  · rintro ⟨d', ⟨hkind, hothers⟩, ⟨hkind', hothers'⟩⟩
    constructor
    · rw [hkind', hkind, List.append_assoc, ← List.filter_append]
      rfl
    · rw [hothers', hothers, List.append_assoc, ← List.filter_append]
      rfl

theorem read_eq_ok {key : String} :
    Draft.read depth d key r = .ok d' ↔ ∃ v, r.buffer depth = .ok v ∧ d.Follows [(key, v)] d' := by
  rw [Draft.read]
  split
  · rename_i hkey
    subst hkey
    rw [bind_eq_ok]
    constructor
    · rintro ⟨kind, honce, h⟩
      obtain ⟨hnone, k, hk, rfl⟩ := Json.once_eq_ok.1 honce
      exact ⟨_, kindDecoder_eq_ok.1 hk, follows_kind.2 ⟨hnone, k, rfl, (Except.ok.inj h).symm⟩⟩
    · rintro ⟨v, hv, hfollows⟩
      obtain ⟨hnone, k, rfl, rfl⟩ := follows_kind.1 hfollows
      exact ⟨some k, Json.once_eq_ok.2 ⟨hnone, k, kindDecoder_eq_ok.2 hv, rfl⟩, rfl⟩
  · rename_i hkey
    rw [bind_eq_ok]
    refine exists_congr fun v => and_congr_right fun _ => ?_
    rw [follows_other hkey]
    exact ⟨fun h => (Except.ok.inj h).symm, fun h => congrArg _ h.symm⟩

theorem foldFields_eq_ok : Json.foldFields (Draft.read depth) d fields = .ok d' ↔
    ∃ values, Json.bufferFields depth fields = .ok values ∧ d.Follows values d' := by
  induction fields generalizing d with
  | nil =>
    constructor
    · intro h
      exact ⟨[], rfl, follows_nil.2 (Except.ok.inj h).symm⟩
    · rintro ⟨values, hvalues, h⟩
      cases hvalues
      rw [follows_nil.1 h]
      rfl
  | cons f rest ih =>
    obtain ⟨key, r⟩ := f
    rw [Json.foldFields, bind_eq_ok]
    constructor
    · rintro ⟨name, hname, h⟩
      obtain ⟨d₁, hread, h⟩ := bind_eq_ok.1 h
      obtain ⟨v, hv, hstep⟩ := read_eq_ok.1 hread
      obtain ⟨values, hvalues, hrun⟩ := ih.1 h
      refine ⟨(name, v) :: values, ?_, follows_cons.2 ⟨d₁, hstep, hrun⟩⟩
      rw [Json.bufferFields, hname, hv, hvalues]
      rfl
    · rintro ⟨values, hvalues, hfollows⟩
      obtain ⟨name, hname, hvalues⟩ := bind_eq_ok.1 hvalues
      obtain ⟨v, hv, hvalues⟩ := bind_eq_ok.1 hvalues
      obtain ⟨more, hmore, hvalues⟩ := bind_eq_ok.1 hvalues
      obtain rfl := Except.ok.inj hvalues
      obtain ⟨d₁, hstep, hrun⟩ := follows_cons.1 hfollows
      exact ⟨name, hname,
        bind_eq_ok.2 ⟨d₁, read_eq_ok.2 ⟨v, hv, hstep⟩, ih.2 ⟨more, hmore, hrun⟩⟩⟩

theorem finish_eq_ok : d.finish = .ok q ↔
    d.kind = some q.kind ∧ ∃ v, d.others.filter (·.1 = q.kind.fieldKey) = [(q.kind.fieldKey, v)] ∧
      q.IsField v := by
  rw [finish, bind_eq_ok]
  constructor
  · rintro ⟨k, hk, h⟩
    obtain ⟨v, hv, h⟩ := Option.bind_eq_some_iff.1 (shaped_eq_ok.1 h)
    obtain ⟨rfl, hfield⟩ := Kind.query?_eq_some.1 h
    exact ⟨shaped_eq_ok.1 hk, v, Json.field?_eq_some.1 hv, hfield⟩
  · rintro ⟨hk, v, hv, hfield⟩
    exact ⟨q.kind, shaped_eq_ok.2 hk, shaped_eq_ok.2 (Option.bind_eq_some_iff.2
      ⟨v, Json.field?_eq_some.2 hv, Kind.query?_eq_some.2 ⟨rfl, hfield⟩⟩)⟩

end Draft

theorem isForm_object {values : List (String × Json)} : q.IsForm (.object values) ↔
    ∃ d : Draft, Draft.Follows ⟨none, []⟩ values d ∧ d.finish = .ok q := by
  have hkey := q.kind.fieldKey_ne_kindKey
  have hfilter : (values.filter (·.1 ≠ kindKey)).filter (·.1 = q.kind.fieldKey) =
      values.filter (·.1 = q.kind.fieldKey) := by
    rw [List.filter_filter]
    refine List.filter_congr fun f _ => ?_
    by_cases hf : f.1 = q.kind.fieldKey
    · rw [decide_eq_true hf, Bool.true_and, hf]
      exact decide_eq_true hkey
    · rw [decide_eq_false hf, Bool.false_and]
  constructor
  · intro h
    cases h with
    | object hkind hfield hv =>
      refine ⟨⟨some q.kind, values.filter (·.1 ≠ kindKey)⟩, ⟨?_, rfl⟩, ?_⟩
      · rw [hkind]
        rfl
      · exact Draft.finish_eq_ok.2 ⟨rfl, _, hfilter.trans hfield, hv⟩
  · rintro ⟨d, ⟨hkind, hothers⟩, hfinish⟩
    obtain ⟨hk, v, hfield, hv⟩ := Draft.finish_eq_ok.1 hfinish
    refine .object ?_ ?_ hv
    · rw [Draft.kindFields, hk] at hkind
      exact hkind.symm
    · rw [← hfilter, ← hfield, hothers]
      rfl

theorem object_eq_ok :
    Json.Decoder.object ⟨none, []⟩ Draft.read Draft.finish depth (.object fields ending) = .ok q ↔
      ∃ v, (Reading.object fields ending).buffer depth = .ok v ∧ q.IsForm v := by
  rw [Json.Decoder.object, bind_eq_ok]
  constructor
  · rintro ⟨inner, henter, h⟩
    obtain ⟨d, hfold, h⟩ := bind_eq_ok.1 h
    obtain ⟨_, hending, hfinish⟩ := bind_eq_ok.1 h
    obtain ⟨values, hvalues, hfollows⟩ := Draft.foldFields_eq_ok.1 hfold
    exact ⟨_, Json.buffer_object_eq_ok.2 ⟨inner, henter, hending, values, hvalues, rfl⟩,
      isForm_object.2 ⟨d, hfollows, hfinish⟩⟩
  · rintro ⟨v, hv, hform⟩
    obtain ⟨inner, henter, hending, values, hvalues, rfl⟩ := Json.buffer_object_eq_ok.1 hv
    obtain ⟨d, hfollows, hfinish⟩ := isForm_object.1 hform
    exact ⟨inner, henter, bind_eq_ok.2 ⟨d, Draft.foldFields_eq_ok.2 ⟨values, hvalues, hfollows⟩,
      bind_eq_ok.2 ⟨(), hending, hfinish⟩⟩⟩

theorem isForm_array {values : List Json} : q.IsForm (.array values) ↔
    ∃ v, values = [.string q.kind.word, v] ∧ q.IsField v := by
  constructor
  · intro h
    cases h with
    | array h => exact ⟨_, rfl, h⟩
  · rintro ⟨v, rfl, h⟩
    exact .array h

theorem ofItems_eq_ok :
    ofItems depth items ending = .ok q ↔
      ending.check = .ok () ∧
        ∃ values, Json.bufferItems depth items = .ok values ∧ q.IsForm (.array values) := by
  cases items with
  | nil =>
    constructor
    · intro h
      obtain ⟨_, -, h⟩ := bind_eq_ok.1 h
      cases h
    · rintro ⟨-, values, hvalues, hform⟩
      cases hvalues
      cases hform
  | cons first rest =>
    rw [ofItems, bind_eq_ok]
    constructor
    · rintro ⟨k, hk, h⟩
      obtain ⟨values, hvalues, h⟩ := bind_eq_ok.1 h
      obtain ⟨_, hending, h⟩ := bind_eq_ok.1 h
      split at h
      · obtain ⟨rfl, hfield⟩ := Kind.query?_eq_some.1 (shaped_eq_ok.1 h)
        refine ⟨hending, _, ?_, .array hfield⟩
        rw [Json.bufferItems, kindDecoder_eq_ok.1 hk, hvalues]
        rfl
      · cases h
    · rintro ⟨hending, values, hvalues, hform⟩
      obtain ⟨v, rfl, hfield⟩ := isForm_array.1 hform
      obtain ⟨w, hw, hvalues⟩ := bind_eq_ok.1 hvalues
      obtain ⟨more, hmore, hvalues⟩ := bind_eq_ok.1 hvalues
      obtain ⟨rfl, rfl⟩ := List.cons.inj (Except.ok.inj hvalues)
      exact ⟨q.kind, kindDecoder_eq_ok.2 hw, bind_eq_ok.2 ⟨[v], hmore, bind_eq_ok.2 ⟨(), hending,
        shaped_eq_ok.2 (Kind.query?_eq_some.2 ⟨rfl, hfield⟩)⟩⟩⟩

theorem decoder_eq_ok (hplain : ∀ s, r = .scalar s → s.Plain) :
    decoder depth r = .ok q ↔ ∃ v, r.buffer depth = .ok v ∧ q.IsForm v := by
  cases r with
  | broken p =>
    constructor
    · intro h
      cases h
    · rintro ⟨v, hv, -⟩
      cases hv
  | scalar s =>
    constructor
    · intro h
      obtain ⟨_, -, h⟩ := bind_eq_ok.1 h
      cases h
    · rintro ⟨v, hv, hform⟩
      have hv := hplain s rfl v hv
      cases hform with
      | object => cases hv
      | array => cases hv
  | array items ending =>
    rw [decoder, bind_eq_ok]
    constructor
    · rintro ⟨inner, henter, h⟩
      obtain ⟨hending, values, hvalues, hform⟩ := ofItems_eq_ok.1 h
      exact ⟨_, Json.buffer_array_eq_ok.2 ⟨inner, henter, hending, values, hvalues, rfl⟩, hform⟩
    · rintro ⟨v, hv, hform⟩
      obtain ⟨inner, henter, hending, values, hvalues, rfl⟩ := Json.buffer_array_eq_ok.1 hv
      exact ⟨inner, henter, ofItems_eq_ok.2 ⟨hending, values, hvalues, hform⟩⟩
  | object fields ending => exact object_eq_ok

/-- A text is decoded as a query if the value that it spells is a form of the query. -/
theorem ofText_eq_ok {text : String} :
    ofText text = .ok q ↔ ∃ v, Json.ofText text = .ok v ∧ q.IsForm v := by
  rw [ofText, Json.decode_eq_ok, decoder_eq_ok fun _ => Json.readAll_scalar]
  constructor
  · rintro ⟨⟨v, hv, hform⟩, hend⟩
    exact ⟨v, Json.decode_eq_ok.2 ⟨hv, hend⟩, hform⟩
  · rintro ⟨v, hv, hform⟩
    obtain ⟨hv, hend⟩ := Json.decode_eq_ok.1 hv
    exact ⟨⟨v, hv, hform⟩, hend⟩

end Reading

/-- Queries survive JSON. What is printed for a query is decoded as this query. Whatever text is
decoded as a query, it is still decoded as the same one after it was printed anew. And the texts
that are decoded as a query are those that spell one of its forms. -/
theorem queries_survive_json :
    (∀ q : Query, ofText q.toText = .ok q) ∧
      (∀ text : String, (do ofText (← ofText text).toText) = ofText text) ∧
      ∀ (text : String) (q : Query),
        ofText text = .ok q ↔ ∃ v, Json.ofText text = .ok v ∧ q.IsForm v := by
  have hprinted : ∀ q : Query, ofText q.toText = .ok q := fun q =>
    ofText_eq_ok.2 ⟨q.toJson, Json.ofText_compact q.toJson_fits, q.toJson_isForm⟩
  refine ⟨hprinted, fun text => ?_, fun text q => ofText_eq_ok⟩
  cases htext : ofText text with
  | error p => rfl
  | ok q => exact hprinted q

/-- A query for a symbol with a quote in its name. Its kind comes last, a field that no query has
stands in front, and the symbol is an array. -/
def disorderedText : String :=
  "\x7b\"x\":[1,\x7b\x7d],\"symbol\":[\"a.\\\"B\",\x7b\"type\":null\x7d]," ++
    "\"query\":\"location\"\x7d"

def quotedName : Query := .location ⟨"a.\"B", .type⟩

theorem a_disordered_query_survives_json :
    ofText disorderedText = .ok quotedName ∧
      quotedName.toText =
        "\x7b\"query\":\"location\",\"symbol\":" ++
          "\x7b\"fq_name\":\"a.\\\"B\",\"kind\":\"type\"\x7d\x7d" ∧
      ofText quotedName.toText = ofText disorderedText ∧
      ∃ v, Json.ofText disorderedText = .ok v ∧ quotedName.IsForm v := by
  have hread : ofText disorderedText = .ok quotedName := eq_ok_of_toOption (by decide +kernel)
  obtain ⟨-, hagain, hforms⟩ := queries_survive_json
  refine ⟨hread, by decide, ?_, (hforms _ _).1 hread⟩
  have hsame := hagain disorderedText
  rw [hread] at hsame ⊢
  exact hsame

end ClasspathSymbols.Query
