import ClasspathSymbols.Archive.Member
import ClasspathSymbols.Proofs.FirstError

/-! # The limit on the content of a member

Inflating only adds to what has been written, so a limit that is not reached has no part in the
result, and one that is reached ends the reading beyond it. So what a member holds under one limit
it holds under every other that is no less than the content, and is refused under all the rest. -/
namespace ClasspathSymbols.Archive

variable {limit limit' : Nat} {codes : Codes} {out out' : ByteArray} {bits rest : Bits}

theorem size_push (out : ByteArray) (b : UInt8) : (out.push b).size = out.size + 1 :=
  Array.size_push b

theorem size_copyWithin (out : ByteArray) (distance length : Nat) :
    (copyWithin out distance length).size = out.size + length := by
  induction length generalizing out with
  | zero => rfl
  | succ n ih =>
    rw [copyWithin, ih, size_push]
    omega

theorem size_foldl_push (bytes : List UInt8) (out : ByteArray) :
    (bytes.foldl ByteArray.push out).size = out.size + bytes.length := by
  induction bytes generalizing out with
  | nil => rfl
  | cons b bytes ih =>
    rw [List.foldl_cons, ih, size_push, List.length_cons]
    omega

theorem size_readItems (h : readItems limit codes out bits = .ok (out', rest)) :
    out.size ≤ out'.size := by
  fun_induction readItems limit codes out bits with
  | case1 => cases h; exact Nat.le_refl _
  | case2 => cases h
  | case3 => cases h; exact Nat.le_refl _
  | case4 _ _ _ _ _ _ _ ih =>
    have hrest := ih h
    rw [size_push] at hrest
    omega
  | case5 _ _ _ _ _ _ _ _ ih =>
    have hrest := ih h
    rw [size_copyWithin] at hrest
    omega

theorem readItems_step (hgoes : out.size ≤ limit) :
    readItems limit codes out bits = match readItem codes bits with
      | .error e => .error e
      | .ok (.blockEnd, rest) => .ok (out, rest)
      | .ok (.byte b, rest) => readItems limit codes (out.push b) rest
      | .ok (.copy length distance, rest) =>
        readItems limit codes (copyWithin out distance length) rest := by
  rw [readItems, if_neg (Nat.not_lt.2 hgoes)]
  split <;> (rename_i heq; simp only [heq])

theorem readItems_of_fits (h : readItems limit codes out bits = .ok (out', rest))
    (hfits : out'.size ≤ limit) (hfits' : out'.size ≤ limit') :
    readItems limit' codes out bits = .ok (out', rest) := by
  have hgoes : out.size ≤ limit' := Nat.le_trans (size_readItems h) hfits'
  rw [readItems_step hgoes]
  fun_induction readItems limit codes out bits with
  | case1 _ _ hlong =>
    cases h
    omega
  | case2 => cases h
  | case3 _ _ _ _ heq => rw [heq, ← h]
  | case4 _ _ _ _ _ heq _ ih =>
    have hgoes := Nat.le_trans (size_readItems h) hfits'
    rw [heq]
    dsimp only
    rw [readItems_step hgoes]
    exact ih h hgoes
  | case5 _ _ _ _ _ _ heq _ ih =>
    have hgoes := Nat.le_trans (size_readItems h) hfits'
    rw [heq]
    dsimp only
    rw [readItems_step hgoes]
    exact ih h hgoes

theorem size_readStored (h : readStored out bits = .ok (out', rest)) : out.size ≤ out'.size := by
  rw [readStored] at h
  obtain ⟨⟨_, _⟩, -, h⟩ := bind_eq_ok.1 h
  obtain ⟨⟨_, _⟩, -, h⟩ := bind_eq_ok.1 h
  obtain ⟨⟨_, _⟩, -, h⟩ := bind_eq_ok.1 h
  dsimp only at h
  split at h
  · cases h
  · obtain ⟨⟨bytes, _⟩, -, h⟩ := bind_eq_ok.1 h
    cases h
    rw [size_foldl_push]
    exact Nat.le_add_right _ _

theorem size_readBlock {kind : Nat} (h : readBlock limit out kind bits = .ok (out', rest)) :
    out.size ≤ out'.size := by
  unfold readBlock at h
  split at h
  · exact size_readStored h
  · exact size_readItems h
  · obtain ⟨⟨_, _⟩, -, h⟩ := bind_eq_ok.1 h
    exact size_readItems h
  · cases h

theorem readBlock_of_fits {kind : Nat} (h : readBlock limit out kind bits = .ok (out', rest))
    (hfits : out'.size ≤ limit) (hfits' : out'.size ≤ limit') :
    readBlock limit' out kind bits = .ok (out', rest) := by
  unfold readBlock at h ⊢
  split at h
  · exact h
  · exact readItems_of_fits h hfits hfits'
  · obtain ⟨codes, hcodes, h⟩ := bind_eq_ok.1 h
    exact bind_eq_ok.2 ⟨codes, hcodes, readItems_of_fits h hfits hfits'⟩
  · cases h

theorem readBlocks_eq_ok {fuel : Nat} :
    readBlocks limit (fuel + 1) out bits = .ok out' ↔
      ∃ isLast kind block left, readNumber 1 bits = .ok isLast ∧
        readNumber 2 isLast.2 = .ok kind ∧ readBlock limit out kind.1 kind.2 = .ok (block, left) ∧
        ((isLast.1 = 1 ∨ limit < block.size) ∧ block = out' ∨
          (isLast.1 ≠ 1 ∧ block.size ≤ limit) ∧ readBlocks limit fuel block left = .ok out') := by
  rw [readBlocks]
  constructor
  · intro h
    obtain ⟨isLast, hlast, h⟩ := bind_eq_ok.1 h
    obtain ⟨kind, hkind, h⟩ := bind_eq_ok.1 h
    obtain ⟨⟨block, left⟩, hblock, h⟩ := bind_eq_ok.1 h
    refine ⟨isLast, kind, block, left, hlast, hkind, hblock, ?_⟩
    dsimp only at h
    split at h
    · rename_i hends
      exact Or.inl ⟨hends, Except.ok.inj h⟩
    · rename_i hgoes
      exact Or.inr ⟨⟨fun hone => hgoes (Or.inl hone), Nat.not_lt.1 fun hn => hgoes (Or.inr hn)⟩, h⟩
  · rintro ⟨isLast, kind, block, left, hlast, hkind, hblock, h⟩
    refine bind_eq_ok.2 ⟨isLast, hlast, bind_eq_ok.2 ⟨kind, hkind, bind_eq_ok.2 ⟨_, hblock, ?_⟩⟩⟩
    dsimp only
    rcases h with ⟨hends, rfl⟩ | ⟨⟨hmore, hgoes⟩, h⟩
    · exact if_pos hends
    · rwa [if_neg (not_or.2 ⟨hmore, Nat.not_lt.2 hgoes⟩)]

theorem size_readBlocks {fuel : Nat} (h : readBlocks limit fuel out bits = .ok out') :
    out.size ≤ out'.size := by
  induction fuel generalizing out bits with
  | zero => cases h
  | succ fuel ih =>
    obtain ⟨_, _, block, _, -, -, hblock, ⟨-, rfl⟩ | ⟨-, hrest⟩⟩ := readBlocks_eq_ok.1 h
    · exact size_readBlock hblock
    · exact Nat.le_trans (size_readBlock hblock) (ih hrest)

theorem readBlocks_of_fits {fuel : Nat} (h : readBlocks limit fuel out bits = .ok out')
    (hfits : out'.size ≤ limit) (hfits' : out'.size ≤ limit') :
    readBlocks limit' fuel out bits = .ok out' := by
  induction fuel generalizing out bits with
  | zero => cases h
  | succ fuel ih =>
    obtain ⟨isLast, kind, block, left, hlast, hkind, hblock, h⟩ := readBlocks_eq_ok.1 h
    refine readBlocks_eq_ok.2 ⟨isLast, kind, block, left, hlast, hkind, ?_⟩
    rcases h with ⟨hends, rfl⟩ | ⟨⟨hmore, -⟩, hrest⟩
    · have hone : isLast.1 = 1 := hends.resolve_right (Nat.not_lt.2 hfits)
      exact ⟨readBlock_of_fits hblock hfits hfits', Or.inl ⟨Or.inl hone, rfl⟩⟩
    · have hgrows := size_readBlocks hrest
      have hgoes' : block.size ≤ limit' := Nat.le_trans hgrows hfits'
      exact ⟨readBlock_of_fits hblock (Nat.le_trans hgrows hfits) hgoes',
        Or.inr ⟨⟨hmore, hgoes'⟩, ih hrest⟩⟩

/-- A limit that the whole text fits in has no part in what it inflates to. -/
theorem inflate_of_fits {bytes : List UInt8} (h : inflate limit bytes = .ok out)
    (hfits : out.size ≤ limit) (hfits' : out.size ≤ limit') : inflate limit' bytes = .ok out :=
  readBlocks_of_fits h hfits hfits'

theorem unpack_of_fits {method : Method} {packed : ByteArray}
    (h : unpack limit method packed = .ok out) (hfits : out.size ≤ limit)
    (hfits' : out.size ≤ limit') : unpack limit' method packed = .ok out := by
  cases method with
  | deflated =>
    rw [unpack] at h ⊢
    split at h
    · rename_i content hcontent
      obtain rfl := Except.ok.inj h
      rw [inflate_of_fits hcontent hfits hfits']
    · cases h
    · cases h
  | stored => exact h
  | other => exact h

theorem readItems_of_long (h : readItems limit codes out bits = .ok (out', rest))
    (hfits : out'.size ≤ limit) (hlong : limit' < out'.size) :
    ∃ next left, readItems limit' codes out bits = .ok (next, left) ∧ limit' < next.size := by
  have hstop : ∀ {out : ByteArray} {bits : Bits}, limit' < out.size →
      ∃ next left, readItems limit' codes out bits = .ok (next, left) ∧ limit' < next.size := by
    intro out bits hreached
    exact ⟨out, bits, by rw [readItems, if_pos hreached], hreached⟩
  fun_induction readItems limit codes out bits with
  | case1 _ _ hreached =>
    cases h
    omega
  | case2 => cases h
  | case3 =>
    cases h
    exact hstop hlong
  | case4 out _ _ _ _ heq _ ih =>
    rcases Nat.lt_or_ge limit' out.size with hreached | hgoes
    · exact hstop hreached
    · rw [readItems_step hgoes, heq]
      exact ih h
  | case5 out _ _ _ _ _ heq _ ih =>
    rcases Nat.lt_or_ge limit' out.size with hreached | hgoes
    · exact hstop hreached
    · rw [readItems_step hgoes, heq]
      exact ih h

theorem readBlock_of_long {kind : Nat} (h : readBlock limit out kind bits = .ok (out', rest))
    (hfits : out'.size ≤ limit) (hlong : limit' < out'.size) :
    ∃ next left, readBlock limit' out kind bits = .ok (next, left) ∧ limit' < next.size := by
  unfold readBlock at h ⊢
  split at h
  · exact ⟨out', rest, h, hlong⟩
  · exact readItems_of_long h hfits hlong
  · obtain ⟨codes, hcodes, h⟩ := bind_eq_ok.1 h
    obtain ⟨next, left, hitems, hnext⟩ := readItems_of_long h hfits hlong
    exact ⟨next, left, bind_eq_ok.2 ⟨codes, hcodes, hitems⟩, hnext⟩
  · cases h

theorem readBlocks_of_long {fuel : Nat} (h : readBlocks limit fuel out bits = .ok out')
    (hfits : out'.size ≤ limit) (hlong : limit' < out'.size) :
    ∃ next, readBlocks limit' fuel out bits = .ok next ∧ limit' < next.size := by
  induction fuel generalizing out bits with
  | zero => cases h
  | succ fuel ih =>
    obtain ⟨isLast, kind, block, left, hlast, hkind, hblock, h⟩ := readBlocks_eq_ok.1 h
    have hstop : block.size ≤ limit → limit' < block.size →
        ∃ next, readBlocks limit' (fuel + 1) out bits = .ok next ∧ limit' < next.size := by
      intro hfitsBlock hreached
      obtain ⟨next, left', hblock', hnext⟩ := readBlock_of_long hblock hfitsBlock hreached
      exact ⟨next, readBlocks_eq_ok.2 ⟨isLast, kind, next, left', hlast, hkind, hblock',
        Or.inl ⟨Or.inr hnext, rfl⟩⟩, hnext⟩
    rcases h with ⟨-, rfl⟩ | ⟨⟨hmore, hfitsBlock⟩, hrest⟩
    · exact hstop hfits hlong
    · rcases Nat.lt_or_ge limit' block.size with hreached | hgoes
      · exact hstop hfitsBlock hreached
      · obtain ⟨next, hrest', hnext⟩ := ih hrest
        exact ⟨next, readBlocks_eq_ok.2 ⟨isLast, kind, block, left, hlast, hkind,
          readBlock_of_fits hblock hfitsBlock hgoes, Or.inr ⟨⟨hmore, hgoes⟩, hrest'⟩⟩, hnext⟩

theorem unpack_of_long {method : Method} {packed : ByteArray}
    (h : unpack limit method packed = .ok out) (hfits : out.size ≤ limit)
    (hlong : limit' < out.size) :
    ∃ next, unpack limit' method packed = .ok next ∧ limit' < next.size := by
  cases method with
  | deflated =>
    rw [unpack] at h ⊢
    split at h
    · rename_i content hcontent
      obtain rfl := Except.ok.inj h
      obtain ⟨next, hnext, hsize⟩ := readBlocks_of_long hcontent hfits hlong
      refine ⟨next, ?_, hsize⟩
      rw [inflate, hnext]
    · cases h
    · cases h
  | stored => exact ⟨out, h, hlong⟩
  | other => exact ⟨out, h, hlong⟩

namespace Member

theorem content_eq_ok {m : Member} {file : ByteArray} {start : Nat} {content : ByteArray} :
    m.content file start limit = .ok content ↔
      unpack limit m.method (file.extract start (min (start + m.packedSize) file.size)) =
        .ok content ∧ content.size ≤ limit ∧ (Crc32.checksum content).toNat = m.checksum := by
  rw [Member.content, bind_eq_ok]
  constructor
  · rintro ⟨unpacked, hunpack, h⟩
    by_cases hlong : limit < unpacked.size
    · rw [if_pos hlong] at h
      cases h
    · rw [if_neg hlong] at h
      by_cases hsum : (Crc32.checksum unpacked).toNat = m.checksum
      · rw [if_neg (not_not.2 hsum)] at h
        obtain rfl := Except.ok.inj h
        exact ⟨hunpack, Nat.not_lt.1 hlong, hsum⟩
      · rw [if_pos hsum] at h
        cases h
  · rintro ⟨hunpack, hfits, hsum⟩
    refine ⟨content, hunpack, ?_⟩
    rw [if_neg (Nat.not_lt.2 hfits), if_neg (not_not.2 hsum)]
    rfl

def Holds (m : Member) (file content : ByteArray) : Prop :=
  ∃ start limit, m.dataStart file = .ok start ∧ m.content file start limit = .ok content

theorem Holds.of_stored {m : Member} {file content : ByteArray} (start : Nat)
    (hmethod : m.method = .stored) (hstart : m.dataStart file = .ok start)
    (hpacked : file.extract start (min (start + m.packedSize) file.size) = content)
    (hsum : (Crc32.checksum content).toNat = m.checksum) : m.Holds file content := by
  refine ⟨start, content.size, hstart, content_eq_ok.2 ⟨?_, Nat.le_refl _, hsum⟩⟩
  rw [hmethod, hpacked]
  rfl

/-- What a member holds decides what is got under each limit. -/
theorem Holds.outcome {m : Member} {file content : ByteArray} (h : m.Holds file content) :
    ∃ start, m.dataStart file = .ok start ∧ ∀ limit, m.content file start limit =
      if content.size ≤ limit then .ok content else .error (.tooLong limit) := by
  obtain ⟨start, limit, hstart, hcontent⟩ := h
  obtain ⟨hunpack, hfits, hsum⟩ := content_eq_ok.1 hcontent
  refine ⟨start, hstart, fun limit' => ?_⟩
  by_cases hfits' : content.size ≤ limit'
  · rw [if_pos hfits']
    exact content_eq_ok.2 ⟨unpack_of_fits hunpack hfits hfits', hfits', hsum⟩
  · obtain ⟨next, hnext, hsize⟩ := unpack_of_long hunpack hfits (Nat.lt_of_not_le hfits')
    rw [if_neg hfits', Member.content, hnext]
    exact if_pos hsize

end Member

end ClasspathSymbols.Archive
