import ClasspathSymbols.Json.Reading
import ClasspathSymbols.Proofs.FirstError

/-! # What a scalar of a text spells

A scalar carries what is taken for it. Of a text it is read from one token, and no token spells an
array or an object. -/
namespace ClasspathSymbols.Json

def isScalar : Json → Bool
  | .array _ | .object _ => false
  | _ => true

def Scalar.Plain (s : Scalar) : Prop := ∀ v, s.taken = .ok v → v.isScalar

def Token.Plain : Token → Prop
  | .text s | .atom s => s.Plain
  | _ => True

theorem textScalar_plain (s : List Char) : (textScalar s).1.Plain := by
  intro v hv
  have htaken : (textScalar s).1.taken = (readText s).map fun t => .string (String.ofList t) := by
    rw [textScalar]
    split
    · rfl
    · rfl
  rw [htaken] at hv
  obtain ⟨t, -, rfl⟩ := map_eq_ok.1 hv
  rfl

theorem wordScalar_plain {value : Json} (h : value.isScalar) (word s : List Char) :
    (wordScalar value word s).1.Plain := by
  intro v hv
  rw [wordScalar] at hv
  split at hv
  · cases hv
    exact h
  · cases hv

theorem numberScalar_plain (s : List Char) : (numberScalar s).1.Plain := by
  intro v hv
  rw [numberScalar] at hv
  split at hv
  · rename_i n _ _
    replace hv : n.taken = .ok v := hv
    rw [Numeral.taken] at hv
    split at hv
    · cases hv
      rfl
    · cases hv
  · cases hv

theorem readToken_plain (c : Char) (rest : List Char) : (readToken c rest).1.Plain := by
  unfold readToken
  split
  case h_7 => exact textScalar_plain rest
  case h_8 => exact wordScalar_plain rfl _ rest
  case h_9 => exact wordScalar_plain rfl _ rest
  case h_10 => exact wordScalar_plain rfl _ rest
  case h_11 =>
    split
    · exact numberScalar_plain _
    · trivial
  all_goals trivial

theorem tokens_plain (s : List Char) : ∀ t ∈ tokens s, t.Plain := by
  fun_induction tokens s with
  | case1 => exact fun _ h => nomatch h
  | case2 c rest _ ih => exact ih
  | case3 c rest =>
    intro t ht
    rw [List.mem_singleton.1 ht]
    exact readToken_plain c rest
  | case4 c rest _ _ _ _ ih =>
    intro t ht
    obtain rfl | ht := List.mem_cons.1 ht
    · exact readToken_plain c rest
    · exact ih t ht

theorem breakOff_ne_scalar (p : Problem) (ph : Phase) (frames : List Frame) (s : Scalar) :
    ph.breakOff p frames ≠ .scalar s := by
  have hframes : ∀ (frames : List Frame) (v : Reading), breakOff p v frames = .scalar s →
      v = .scalar s := by
    intro frames
    induction frames with
    | nil => exact fun v h => h
    | cons f frames ih =>
      intro v h
      cases f with
      | array before => exact nomatch ih _ h
      | object before key => exact nomatch ih _ h
  intro h
  have hph := hframes _ _ h
  cases ph with
  | value => cases hph
  | inArray before => cases hph
  | inObject before => cases hph
  | afterComma before => cases hph
  | afterKey before key => cases hph

theorem move_eq_complete_scalar {frames frames' : List Frame} {ph : Phase} {t : Token} {s : Scalar}
    (h : move frames ph t = .complete (.scalar s) frames') : t = .text s ∨ t = .atom s := by
  have hvalue : ∀ frames : List Frame, moveAtValue frames t = .complete (.scalar s) frames' →
      t = .text s ∨ t = .atom s := by
    intro frames h
    cases t with
    | text s' =>
      cases h
      exact .inl rfl
    | atom s' =>
      cases h
      exact .inr rfl
    | opening isObject => cases isObject <;> cases h
    | closing isObject => cases h
    | comma => cases h
    | colon => cases h
    | unknown => cases h
  have hkey : ∀ before, moveAtKey frames before t ≠ .complete (.scalar s) frames' := by
    intro before h
    cases t <;> cases h
  unfold move at h
  split at h
  case h_1 => exact hvalue _ h
  case h_3 => exact hvalue _ h
  case h_6 => exact absurd h (hkey _)
  case h_8 => exact absurd h (hkey _)
  all_goals cases h

theorem read_eq_scalar {toks : List Token} {frames : List Frame} {ph : Phase} {s : Scalar}
    (h : (read frames ph toks).1 = .scalar s) : ∃ t ∈ toks, t = .text s ∨ t = .atom s := by
  induction toks generalizing frames ph with
  | nil => exact absurd h (breakOff_ne_scalar _ _ _ _)
  | cons t rest ih =>
    rw [read] at h
    split at h
    · obtain ⟨u, hu, hs⟩ := ih h
      exact ⟨u, List.mem_cons_of_mem t hu, hs⟩
    · exact absurd h (breakOff_ne_scalar _ _ _ _)
    · rename_i hmove
      obtain rfl : _ = Reading.scalar s := h
      exact ⟨t, List.mem_cons_self, move_eq_complete_scalar hmove⟩
    · obtain ⟨u, hu, hs⟩ := ih h
      exact ⟨u, List.mem_cons_of_mem t hu, hs⟩

theorem readAll_scalar {text : String} {s : Scalar} (h : (readAll text).1 = .scalar s) :
    s.Plain := by
  obtain ⟨t, ht, hs⟩ := read_eq_scalar h
  have hplain := tokens_plain _ t ht
  obtain rfl | rfl := hs
  · exact hplain
  · exact hplain

end ClasspathSymbols.Json
