import ClasspathSymbols.Proofs.ClassFile.Indices
import ClasspathSymbols.Proofs.ClassFile.Reading

/-! # Constant pools

Reading an encoded pool takes all of it, whatever mixture of constants it holds, and finds at each
index the text that the pool has there. -/
namespace ClasspathSymbols.ClassFile

namespace Constant

def text? : Constant → Option (List UInt8)
  | .utf8 text => some text
  | _ => none

theorem text?_eq_some {c : Constant} {text : List UInt8} :
    c.text? = some text ↔ c = .utf8 text := by
  cases c <;> simp [text?]

theorem width_pos (c : Constant) : 0 < c.width := by
  cases c <;> simp [width]

theorem indexWidth_tag (c : Constant) : indexWidth c.tag.toNat = c.width := by
  cases c <;> rfl

theorem constantSize_tag {c : Constant} (h : c.text? = none) :
    c.tag.toNat ≠ textTag ∧ constantSize? c.tag.toNat = some c.payload.length := by
  cases c <;> simp [text?] at h <;> simp [tag, payload, textTag, constantSize?]

end Constant

/-- The texts that a row of constants adds, the first of them at `index`. -/
def textsFrom (index : Nat) (texts : Texts) : List Constant → Texts
  | [] => texts
  | c :: rest =>
    textsFrom (index + c.width) (match c.text? with
      | some text => (index, text) :: texts
      | none => texts) rest

theorem reads_tag (c : Constant) : Reads (number 1) (u1 c.tag) c.tag.toNat :=
  reads_number c.tag.toNat_lt

theorem reads_other_constant {c : Constant} (hc : c.text? = none) (index : UInt16) :
    Reads (readConstant index) c.encode ⟨none, c.width⟩ := by
  obtain ⟨ht, hsize⟩ := Constant.constantSize_tag hc
  refine (reads_tag c).bind ?_
  rw [if_neg ht, hsize, ← Constant.indexWidth_tag]
  exact (reads_skip rfl).last (Reads.pure _)

theorem reads_text_constant {text : List UInt8} (hl : text.length < 2 ^ 16) (index : UInt16) :
    Reads (readConstant index) (Constant.utf8 text).encode ⟨some text, 1⟩ := by
  refine (reads_tag (.utf8 text)).bind ?_
  rw [if_pos (show (Constant.utf8 text).tag.toNat = textTag from rfl)]
  exact (reads_count hl).bind ((reads_take rfl).last (Reads.pure _))

theorem reads_constant {c : Constant} (hl : ∀ text, c = .utf8 text → text.length < 2 ^ 16)
    (index : UInt16) : Reads (readConstant index) c.encode ⟨c.text?, c.width⟩ := by
  cases hc : c.text? with
  | none => exact reads_other_constant hc index
  | some text =>
    obtain rfl := Constant.text?_eq_some.1 hc
    exact reads_text_constant (hl text rfl) index

section Constants

variable {m : Type → Type} [Monad m] [LawfulMonad m] {advance : UInt16 → Nat → m UInt16}
  {cs : List Constant} {index count : UInt16} {texts : Texts}

theorem readConstants_append (ha : Adds advance) (hcount : index.toNat + widthOf cs ≤ count.toNat)
    (hl : ∀ text, .utf8 text ∈ cs → text.length < 2 ^ 16) (position : Nat) (rest : List UInt8) :
    readConstants advance index count texts ⟨position, encodeConstants cs ++ rest⟩ =
      readConstants advance (index + .ofNat (widthOf cs)) count (textsFrom index.toNat texts cs)
        ⟨position + (encodeConstants cs).length, rest⟩ := by
  induction cs generalizing index texts position with
  | nil =>
    have hzero : index + .ofNat (widthOf []) = index := UInt16.add_zero index
    rw [hzero]
    rfl
  | cons c cs ih =>
    have hw := c.width_pos
    have hlt := count.toNat_lt
    rw [widthOf] at hcount
    have hi : index < count := by
      rw [UInt16.lt_iff_toNat_lt]
      omega
    have hfits : index.toNat + c.width < UInt16.size := by
      have hsize : UInt16.size = 65536 := rfl
      omega
    have hnext := toNat_add_width hfits
    have hc : ∀ text, c = .utf8 text → text.length < 2 ^ 16 := by
      rintro text rfl
      exact hl text List.mem_cons_self
    have hread := reads_constant hc index position (encodeConstants cs ++ rest)
    have hrest := @ih (index + .ofNat c.width) (PoolEntry.addTo ⟨c.text?, c.width⟩ index texts)
      (by omega) (fun text h => hl text (List.mem_cons_of_mem _ h)) (position + c.encode.length)
    rw [encodeConstants] at hread hrest
    rw [encodeConstants, List.flatMap_cons, List.append_assoc, readConstants_of_lt hi, hread]
    dsimp only
    rw [ha index c.width hfits, pure_bind, hrest, hnext, List.length_append, Nat.add_assoc,
      textsFrom, widthOf, UInt16.ofNat_add, UInt16.add_assoc]
    rfl

/-- A pool that fits is taken to its end. -/
theorem readConstants_encode (ha : Adds advance) (hcount : index.toNat + widthOf cs = count.toNat)
    (hl : ∀ text, .utf8 text ∈ cs → text.length < 2 ^ 16) (position : Nat) (rest : List UInt8) :
    readConstants advance index count texts ⟨position, encodeConstants cs ++ rest⟩ =
      pure (.ok (textsFrom index.toNat texts cs,
        ⟨position + (encodeConstants cs).length, rest⟩)) := by
  have hend := @toNat_add_width index (widthOf cs) (hcount ▸ count.toNat_lt)
  rw [readConstants_append ha (Nat.le_of_eq hcount) hl]
  refine readConstants_of_not_lt ?_ _ _
  rw [UInt16.lt_iff_toNat_lt, hend, hcount]
  exact Nat.lt_irrefl _

end Constants

theorem reads_readCount (minor major : UInt16) {count : Nat} (h : count < 2 ^ 16) :
    Reads readCount
      (encodeNumber 4 magic ++ ((u2 minor ++ u2 major) ++ encodeNumber 2 count))
      (.ofNat count) := by
  have hversions : (u2 minor ++ u2 major).length = 4 := by simp
  refine (reads_length (by decide)).bind ?_
  simp only [ne_eq, not_true, if_false]
  exact (reads_skip hversions).bind ((reads_count h).last (Reads.pure _))

theorem runsOver_of_full (minor major : UInt16) {cs : List Constant} {c : Constant}
    (hw : 1 + widthOf cs = 2 ^ 16 - 2) (hc : c.width = 2)
    (hl : ∀ text, .utf8 text ∈ cs → text.length < 2 ^ 16) (rest : List UInt8) :
    RunsOver (encodeNumber 4 magic ++ ((u2 minor ++ u2 major) ++ encodeNumber 2 (2 ^ 16 - 1)) ++
      (encodeConstants cs ++ (c.encode ++ rest))) := by
  have hend := @toNat_add_width 1 (widthOf cs) (by rw [UInt16.toNat_one, hw]; decide)
  rw [UInt16.toNat_one] at hend
  have hwide : ∀ text, c = .utf8 text → text.length < 2 ^ 16 := by
    rintro text rfl
    cases hc
  have hcount : (UInt16.ofNat (2 ^ 16 - 1)).toNat = 2 ^ 16 - 1 := rfl
  rw [RunsOver, isDeprecatedChecked, verdict, Cursor.start,
    reads_readCount minor major (Nat.sub_one_lt (by decide))]
  dsimp only
  rw [readConstants_append adds_checked (by rw [hcount, UInt16.toNat_one]; omega) hl,
    readConstants_of_lt, reads_constant hwide]
  · dsimp only
    rw [checked, if_neg (by rw [hend, hw, hc]; decide)]
    rfl
  · rw [UInt16.lt_iff_toNat_lt]
    omega

theorem text_at_cons {c : Constant} {cs : List Constant} {i index : Nat} {text : List UInt8} :
    (∃ k, (c :: cs)[k]? = some (.utf8 text) ∧ i = index + widthOf ((c :: cs).take k)) ↔
      (c.text? = some text ∧ i = index) ∨
      ∃ k, cs[k]? = some (.utf8 text) ∧ i = index + c.width + widthOf (cs.take k) := by
  constructor
  · rintro ⟨k, hk, rfl⟩
    cases k with
    | zero =>
      obtain rfl : c = .utf8 text := by simpa using hk
      exact Or.inl ⟨rfl, rfl⟩
    | succ k => exact Or.inr ⟨k, hk, by rw [List.take_succ_cons, widthOf, Nat.add_assoc]⟩
  · rintro (⟨hc, rfl⟩ | ⟨k, hk, rfl⟩)
    · obtain rfl := Constant.text?_eq_some.1 hc
      exact ⟨0, rfl, rfl⟩
    · exact ⟨k + 1, hk, by rw [List.take_succ_cons, widthOf, Nat.add_assoc]⟩

theorem lookup_textsFrom {cs : List Constant} {index : Nat} {texts : Texts}
    (hkeys : ∀ i, index ≤ i → texts.lookup i = none) {i : Nat} {text : List UInt8} :
    (textsFrom index texts cs).lookup i = some text ↔
      (∃ k, cs[k]? = some (.utf8 text) ∧ i = index + widthOf (cs.take k)) ∨
      texts.lookup i = some text := by
  induction cs generalizing index texts with
  | nil => simp [textsFrom]
  | cons c cs ih =>
    have hw := c.width_pos
    rw [text_at_cons, textsFrom]
    cases hc : c.text? with
    | none =>
      rw [ih fun j hj => hkeys j (by omega)]
      simp
    | some found =>
      have hnew : ∀ j, index + c.width ≤ j → ((index, found) :: texts).lookup j = none := by
        intro j hj
        have hne : (j == index) = false := by simp; omega
        rw [List.lookup_cons, hne]
        exact hkeys j (by omega)
      rw [ih hnew]
      by_cases hi : i = index
      · subst hi
        simp [hkeys i (Nat.le_refl i), or_comm]
      · have hne : (i == index) = false := by simpa using hi
        simp [List.lookup_cons, hne, hi]

end ClasspathSymbols.ClassFile
