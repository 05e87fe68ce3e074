import ClasspathSymbols.Proofs.Json.Decode
import ClasspathSymbols.Proofs.Json.Printer

/-! # A printed value is read as itself

The reader keeps what lies around a value in frames. A row of tokens that is a value leaves the
frames alone and hands its reading to the innermost of them, whatever follows the row. -/
namespace ClasspathSymbols.Json

mutual

def Reading.of : Json → Reading
  | .null => .scalar (.of .null)
  | .bool b => .scalar (.of (.bool b))
  | .number spelling => .scalar (.of (.number spelling))
  | .string s => .scalar (.of (.string s))
  | .array items => .array (itemReadings items) .closed
  | .object fields => .object (fieldReadings fields) .closed

def itemReadings : List Json → List Reading
  | [] => []
  | v :: rest => .of v :: itemReadings rest

def fieldReadings : List (String × Json) → List (Scalar × Reading)
  | [] => []
  | (key, v) :: rest => (.of (.string key), .of v) :: fieldReadings rest

end

def resume (v : Reading) (frames : List Frame) (rest : List Token) : Reading × Bool :=
  match frames with
  | [] => (v, !rest.isEmpty)
  | f :: frames => read frames (plug v f) rest

theorem read_complete {frames frames' : List Frame} {ph : Phase} {t : Token} {v : Reading}
    (h : move frames ph t = .complete v frames') (rest : List Token) :
    read frames ph (t :: rest) = resume v frames' rest := by
  rw [read, h]
  cases frames' with
  | nil => rfl
  | cons f frames' => rfl

theorem read_go {frames frames' : List Frame} {ph ph' : Phase} {t : Token}
    (h : move frames ph t = .go frames' ph') (rest : List Token) :
    read frames ph (t :: rest) = read frames' ph' rest := by
  rw [read, h]

def Token.beginsValue : Token → Bool
  | .opening _ | .text _ | .atom _ => true
  | _ => false

theorem row_begins (v : Json) : ∃ t rest, v.row = t :: rest ∧ t.beginsValue := by
  cases v with
  | null => exact ⟨_, _, rfl, rfl⟩
  | bool b => exact ⟨_, _, rfl, rfl⟩
  | number spelling => exact ⟨_, _, rfl, rfl⟩
  | string s => exact ⟨_, _, rfl, rfl⟩
  | array items => exact ⟨_, _, rfl, rfl⟩
  | object fields => exact ⟨_, _, rfl, rfl⟩

theorem itemsRow_begins (v : Json) (items : List Json) :
    ∃ t rest, itemsRow (v :: items) = t :: rest ∧ t.beginsValue := by
  obtain ⟨t, rest, hrow, ht⟩ := row_begins v
  cases items with
  | nil => exact ⟨t, rest, hrow, ht⟩
  | cons w items =>
    refine ⟨t, rest ++ .comma :: itemsRow (w :: items), ?_, ht⟩
    rw [itemsRow, hrow, List.cons_append]

theorem read_first_item {t : Token} (ht : t.beginsValue) (frames : List Frame)
    (rest : List Token) :
    read frames (.inArray []) (t :: rest) = read (.array [] :: frames) .value (t :: rest) := by
  cases t with
  | opening isObject =>
    cases isObject with
    | false => rfl
    | true => rfl
  | text s => rfl
  | atom s => rfl
  | closing isObject => cases ht
  | comma => cases ht
  | colon => cases ht
  | unknown => cases ht

mutual

theorem read_row : ∀ (v : Json) (frames : List Frame) (rest : List Token),
    read frames .value (v.row ++ rest) = resume (.of v) frames rest
  | .null, _, _ => read_complete rfl _
  | .bool _, _, _ => read_complete rfl _
  | .number _, _, _ => read_complete rfl _
  | .string _, _, _ => read_complete rfl _
  | .array [], frames, rest => by
    show read frames .value (.opening false :: .closing false :: rest) = _
    rw [read_go rfl, read_complete rfl]
    rfl
  | .array (v :: items), frames, rest => by
    obtain ⟨t, tail, hrow, ht⟩ := itemsRow_begins v items
    rw [row, List.append_assoc, List.cons_append, List.singleton_append, read_go rfl, hrow,
      List.cons_append, read_first_item ht, ← List.cons_append, ← hrow,
      read_itemsRow (v :: items) [] frames rest (List.cons_ne_nil _ _)]
    rfl
  | .object [], frames, rest => by
    show read frames .value (.opening true :: .closing true :: rest) = _
    rw [read_go rfl, read_complete rfl]
    rfl
  | .object (f :: fields), frames, rest => by
    rw [row, List.append_assoc, List.cons_append, List.singleton_append, read_go rfl,
      read_fieldsRow (f :: fields) (.inObject []) [] frames rest (fun _ => rfl)
        (List.cons_ne_nil _ _)]
    rfl

theorem read_itemsRow : ∀ (items : List Json) (before : List Reading) (frames : List Frame)
    (rest : List Token), items ≠ [] →
    read (.array before :: frames) .value (itemsRow items ++ .closing false :: rest) =
      resume (.array (before.reverse ++ itemReadings items) .closed) frames rest
  | [], _, _, _, h => absurd rfl h
  | [v], before, frames, rest, _ => by
    rw [itemsRow, read_row v]
    show read frames (.inArray (.of v :: before)) (.closing false :: rest) = _
    rw [read_complete rfl, List.reverse_cons]
    rfl
  | v :: w :: items, before, frames, rest, _ => by
    rw [itemsRow, List.append_assoc, List.cons_append, read_row v]
    show read frames (.inArray (.of v :: before)) (.comma :: _) = _
    rw [read_go rfl, read_itemsRow (w :: items) (.of v :: before) frames rest
      (List.cons_ne_nil _ _), List.reverse_cons, List.append_assoc, List.singleton_append]
    rfl

theorem read_fieldsRow : ∀ (fields : List (String × Json)) (ph : Phase)
    (before : List (Scalar × Reading)) (frames : List Frame) (rest : List Token),
    (∀ key : Scalar, move frames ph (.text key) = .go frames (.afterKey before key)) →
    fields ≠ [] → read frames ph (fieldsRow fields ++ .closing true :: rest) =
      resume (.object (before.reverse ++ fieldReadings fields) .closed) frames rest
  | [], _, _, _, _, _, h => absurd rfl h
  | [(key, v)], ph, before, frames, rest, hph, _ => by
    rw [fieldsRow, List.cons_append, read_go (hph _), List.cons_append, read_go rfl, read_row v]
    show read frames (.inObject ((_, .of v) :: before)) (.closing true :: rest) = _
    rw [read_complete rfl, List.reverse_cons]
    rfl
  | (key, v) :: f :: fields, ph, before, frames, rest, hph, _ => by
    rw [fieldsRow, List.append_assoc, List.cons_append, read_go (hph _), List.cons_append,
      read_go rfl, read_row v, List.cons_append]
    show read frames (.inObject ((_, .of v) :: before)) (.comma :: _) = _
    rw [read_go rfl, read_fieldsRow (f :: fields) (.afterComma _) _ frames rest (fun _ => rfl)
      (List.cons_ne_nil _ _), List.reverse_cons, List.append_assoc, List.singleton_append]
    rfl

end

/-- The whole text of a value is read as this value, with nothing behind it. -/
theorem readAll_compact {v : Json} {depth : Nat} (h : v.Fits depth) :
    readAll v.compact = (.of v, false) := by
  have htokens := tokens_compactChars .nil v h
  rw [List.append_nil] at htokens
  rw [readAll, compact, String.toList_ofList, htokens, tokens, read_row]
  rfl

mutual

theorem buffer_of : ∀ (v : Json) (depth : Nat), v.Fits depth → (Reading.of v).buffer depth = .ok v
  | .null, _, _ => rfl
  | .bool _, _, _ => rfl
  | .number _, _, _ => rfl
  | .string _, _, _ => rfl
  | .array items, depth, h => by
    rw [Reading.of, Reading.buffer, enter, if_pos h.1]
    show (do let values ← bufferItems (depth + 1) (itemReadings items); _) = _
    rw [bufferItems_of items (depth + 1) h.2]
    rfl
  | .object fields, depth, h => by
    rw [Reading.of, Reading.buffer, enter, if_pos h.1]
    show (do let values ← bufferFields (depth + 1) (fieldReadings fields); _) = _
    rw [bufferFields_of fields (depth + 1) h.2]
    rfl

theorem bufferItems_of : ∀ (items : List Json) (depth : Nat), ItemsFit depth items →
    bufferItems depth (itemReadings items) = .ok items
  | [], _, _ => rfl
  | v :: items, depth, h => by
    rw [itemReadings, bufferItems, buffer_of v depth h.1, bufferItems_of items depth h.2]
    rfl

theorem bufferFields_of : ∀ (fields : List (String × Json)) (depth : Nat),
    FieldsFit depth fields → bufferFields depth (fieldReadings fields) = .ok fields
  | [], _, _ => rfl
  | (key, v) :: fields, depth, h => by
    have hkey : keyText (.of (.string key)) = .ok key := rfl
    rw [fieldReadings, bufferFields, hkey, buffer_of v depth h.1,
      bufferFields_of fields depth h.2]
    rfl

end

def ofText (text : String) : Except Problem Json := decode (fun depth r => r.buffer depth) text

theorem ofText_compact {v : Json} (h : v.Fits 0) : ofText v.compact = .ok v := by
  rw [ofText, decode_eq_ok, readAll_compact h]
  exact ⟨buffer_of v 0 h, rfl⟩

end ClasspathSymbols.Json
