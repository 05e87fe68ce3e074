import ClasspathSymbols.Json.Decode
import ClasspathSymbols.Proofs.FirstError

/-! # When decoding succeeds

Each part of a decoder succeeds exactly if what it asks for is there: an array or object that may be
entered and is closed, a field that did not come before, a text with nothing behind its value. -/
namespace ClasspathSymbols.Json

theorem string?_eq_some {v : Json} {s : String} : string? v = some s ↔ v = .string s := by
  constructor
  · intro h
    cases v with
    | string t => rw [Option.some.inj h]
    | null => cases h
    | bool b => cases h
    | number spelling => cases h
    | array items => cases h
    | object fields => cases h
  · rintro rfl
    rfl

theorem once_eq_ok {α : Type} {old new : Option α} {read : Except Problem α} :
    once old read = .ok new ↔ old = none ∧ ∃ a, read = .ok a ∧ some a = new := by
  cases old with
  | none => rw [once, map_eq_ok, and_iff_right rfl]
  | some a =>
    constructor
    · intro h
      cases h
    · rintro ⟨h, -⟩
      cases h

section Buffer

variable {depth : Nat} {items : List Reading} {fields : List (Scalar × Reading)} {ending : Ending}

theorem closed_eq_ok {α β : Type} {inside : Nat → Except Problem α} {f : α → β} {b : β} :
    (do
      let values ← inside (← enter depth)
      ending.check
      return f values) = Except.ok b ↔
    ∃ inner, enter depth = .ok inner ∧ ending.check = .ok () ∧
      ∃ values, inside inner = .ok values ∧ b = f values := by
  rw [bind_eq_ok]
  refine exists_congr fun inner => and_congr_right fun _ => ?_
  rw [bind_eq_ok]
  constructor
  · rintro ⟨values, hvalues, h⟩
    obtain ⟨_, hending, h⟩ := bind_eq_ok.1 h
    exact ⟨hending, values, hvalues, (Except.ok.inj h).symm⟩
  · rintro ⟨hending, values, hvalues, rfl⟩
    exact ⟨values, hvalues, bind_eq_ok.2 ⟨(), hending, rfl⟩⟩

theorem buffer_array_eq_ok {v : Json} : (Reading.array items ending).buffer depth = .ok v ↔
    ∃ inner, enter depth = .ok inner ∧ ending.check = .ok () ∧
      ∃ values, bufferItems inner items = .ok values ∧ v = .array values := by
  rw [Reading.buffer]
  exact closed_eq_ok

theorem buffer_object_eq_ok {v : Json} : (Reading.object fields ending).buffer depth = .ok v ↔
    ∃ inner, enter depth = .ok inner ∧ ending.check = .ok () ∧
      ∃ values, bufferFields inner fields = .ok values ∧ v = .object values := by
  rw [Reading.buffer]
  exact closed_eq_ok

end Buffer

theorem decode_eq_ok {α : Type} {d : Decoder α} {text : String} {a : α} :
    decode d text = .ok a ↔ d 0 (readAll text).1 = .ok a ∧ (readAll text).2 = false := by
  rw [decode, bind_eq_ok]
  constructor
  · rintro ⟨b, hb, h⟩
    cases htrailing : (readAll text).2 with
    | true =>
      rw [htrailing] at h
      cases h
    | false =>
      rw [htrailing] at h
      cases h
      exact ⟨hb, rfl⟩
  · rintro ⟨ha, htrailing⟩
    refine ⟨a, ha, ?_⟩
    rw [htrailing]
    rfl

end ClasspathSymbols.Json
