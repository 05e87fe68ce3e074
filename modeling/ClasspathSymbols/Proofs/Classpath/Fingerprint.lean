import ClasspathSymbols.Classpath
import Mathlib.Data.List.Forall2

/-! # What a fingerprint tells of a class path

The text that is digested has a head for each role and a line for each root as it is written. Where
no root breaks its line or begins like the head of the second role, both lists of roots can be had
from the text. So the fingerprints of two class paths are equal if the roots are written alike, and
otherwise only where the digests of different texts collide. -/
namespace ClasspathSymbols

namespace Sha256

def Separates (x y : List UInt8) : Prop := digest x = digest y → x = y

theorem digitChar_inj {m n : Nat} (hm : m < 16) (hn : n < 16)
    (h : Nat.digitChar m = Nat.digitChar n) : m = n := by
  have hall : ∀ m < 16, ∀ n < 16, Nat.digitChar m = Nat.digitChar n → m = n := by decide
  exact hall m hm n hn h

theorem hexOf_inj {xs ys : List UInt8} : hexOf xs = hexOf ys ↔ xs = ys := by
  refine ⟨fun h => ?_, congrArg hexOf⟩
  rw [hexOf, hexOf, String.ofList_inj] at h
  induction xs generalizing ys with
  | nil =>
    cases ys with
    | nil => rfl
    | cons y ys => cases h
  | cons x xs ih =>
    cases ys with
    | nil => cases h
    | cons y ys =>
      rw [List.flatMap_cons, List.flatMap_cons] at h
      obtain ⟨hhead, htail⟩ := List.append_inj h rfl
      obtain ⟨hhigh, hlow⟩ := List.cons.inj hhead
      have hx := x.toNat_lt
      have hy := y.toNat_lt
      have hdiv := digitChar_inj (by omega) (by omega) hhigh
      have hmod := digitChar_inj (by omega) (by omega) (List.cons.inj hlow).1
      have hxy : x = y := UInt8.toNat_inj.1 (by omega)
      rw [hxy, ih htail]

end Sha256

namespace Classpath

theorem eq_iff {c d : Classpath} : c = d ↔ c.search = d.search ∧ c.source = d.source := by
  cases c
  cases d
  rw [Classpath.mk.injEq]

def message (c : Classpath) : List UInt8 := c.digestText.toUTF8.data.toList

theorem message_inj {c d : Classpath} : c.message = d.message ↔ c.digestText = d.digestText := by
  refine ⟨fun h => ?_, congrArg fun text : String => text.toUTF8.data.toList⟩
  exact String.toByteArray_inj.1 (ByteArray.ext (Array.toList_inj.1 h))

theorem fingerprint_inj {c d : Classpath} (h : Sha256.Separates c.message d.message) :
    c.fingerprint = d.fingerprint ↔ c.message = d.message := by
  have hhex : c.fingerprint = d.fingerprint ↔ Sha256.digest c.message = Sha256.digest d.message :=
    Sha256.hexOf_inj
  rw [hhex]
  exact ⟨h, congrArg Sha256.digest⟩

def line (p : Path) : List Char := p.text.toList ++ ['\n']

def sourceHead : List Char := "source\x00".toList

theorem digestText_toList (c : Classpath) : c.digestText.toList =
    "search\x00".toList ++ (c.search.flatMap line ++ (sourceHead ++ c.source.flatMap line)) := by
  have hlines : ∀ paths : List Path,
      (String.join (paths.map fun p => p.text ++ "\n")).toList = paths.flatMap line := by
    intro paths
    rw [String.toList_join, List.flatMap_map]
    exact List.flatMap_congr fun p _ => String.toList_append
  rw [digestText, roleText, roleText]
  simp only [String.toList_append, hlines, List.append_assoc]
  rfl

theorem line_append_inj {p q : Path} (hp : '\n' ∉ p.text.toList) (hq : '\n' ∉ q.text.toList)
    {s t : List Char} (h : line p ++ s = line q ++ t) : p = q ∧ s = t := by
  rw [line, line, List.append_assoc, List.append_assoc] at h
  rcases List.append_eq_append_iff.1 h with ⟨x, hqx, hs⟩ | ⟨x, hpx, ht⟩
  · cases x with
    | nil => exact ⟨congrArg Path.mk (String.toList_injective (by simpa using hqx.symm)),
        (List.cons.inj hs).2⟩
    | cons c x =>
      obtain ⟨rfl, -⟩ := List.cons.inj hs
      exact absurd (hqx ▸ List.mem_append_right _ List.mem_cons_self) hq
  · cases x with
    | nil => exact ⟨congrArg Path.mk (String.toList_injective (by simpa using hpx)),
        (List.cons.inj ht).2.symm⟩
    | cons c x =>
      obtain ⟨rfl, -⟩ := List.cons.inj ht
      exact absurd (hpx ▸ List.mem_append_right _ List.mem_cons_self) hp

/-- Lines can be had from a text that goes on with none of them. -/
theorem lines_append_inj {ps qs : List Path} {s t : List Char}
    (hps : ∀ p ∈ ps, '\n' ∉ p.text.toList ∧ ¬ line p <+: t)
    (hqs : ∀ q ∈ qs, '\n' ∉ q.text.toList ∧ ¬ line q <+: s)
    (h : ps.flatMap line ++ s = qs.flatMap line ++ t) : ps = qs ∧ s = t := by
  -- Where one row ends and the other does not, the rest of the text would begin with a line.
  induction ps generalizing qs with
  | nil =>
    cases qs with
    | nil => exact ⟨rfl, h⟩
    | cons q qs =>
      rw [List.flatMap_cons, List.append_assoc] at h
      exact absurd ⟨_, h.symm⟩ (hqs q List.mem_cons_self).2
  | cons p ps ih =>
    rw [List.flatMap_cons, List.append_assoc] at h
    cases qs with
    | nil => exact absurd ⟨_, h⟩ (hps p List.mem_cons_self).2
    | cons q qs =>
      rw [List.flatMap_cons, List.append_assoc] at h
      obtain ⟨rfl, hrest⟩ := line_append_inj (hps p List.mem_cons_self).1
        (hqs q List.mem_cons_self).1 h
      obtain ⟨rfl, hst⟩ := ih (fun r hr => hps r (List.mem_cons_of_mem p hr))
        (fun r hr => hqs r (List.mem_cons_of_mem p hr)) hrest
      exact ⟨rfl, hst⟩

/-- Every root takes one line, and none is taken for the head of the second role. -/
structure Plain (c : Classpath) : Prop where
  unbroken : ∀ p ∈ c.search ++ c.source, '\n' ∉ p.text.toList
  noHead : ∀ p ∈ c.search, ¬ sourceHead <+: p.text.toList

theorem not_line_prefix {p : Path} (h : ¬ sourceHead <+: p.text.toList) (rest : List Char) :
    ¬ line p <+: sourceHead ++ rest := by
  rintro ⟨after, heq⟩
  rw [line, List.append_assoc] at heq
  rcases List.append_eq_append_iff.1 heq with ⟨x, hhead, hrest⟩ | ⟨x, hp, -⟩
  · cases x with
    | nil => exact h (hhead ▸ by simp)
    | cons c x =>
      obtain ⟨rfl, -⟩ := List.cons.inj hrest
      have hmem : '\n' ∈ sourceHead := hhead ▸ List.mem_append_right _ List.mem_cons_self
      exact absurd hmem (by decide)
  · exact h ⟨x, hp.symm⟩

theorem digestText_inj {c d : Classpath} (hc : c.Plain) (hd : d.Plain) :
    c.digestText = d.digestText ↔ c = d := by
  refine ⟨fun h => ?_, congrArg digestText⟩
  have htext := congrArg String.toList h
  rw [digestText_toList, digestText_toList, List.append_cancel_left_eq] at htext
  obtain ⟨hsearch, htext⟩ := lines_append_inj
    (fun p hp => ⟨hc.unbroken p (List.mem_append_left _ hp), not_line_prefix (hc.noHead p hp) _⟩)
    (fun q hq => ⟨hd.unbroken q (List.mem_append_left _ hq), not_line_prefix (hd.noHead q hq) _⟩)
    htext
  have hnone : ∀ p : Path, ¬ line p <+: [] := by
    intro p hp
    exact List.append_ne_nil_of_right_ne_nil _ (List.cons_ne_nil _ _) (List.prefix_nil.1 hp)
  have hlines := List.append_cancel_left htext
  rw [← List.append_nil (c.source.flatMap line),
    ← List.append_nil (d.source.flatMap line)] at hlines
  obtain ⟨hsource, -⟩ := lines_append_inj
    (fun p hp => ⟨hc.unbroken p (List.mem_append_right _ hp), hnone p⟩)
    (fun q hq => ⟨hd.unbroken q (List.mem_append_right _ hq), hnone q⟩) hlines
  exact eq_iff.2 ⟨hsearch, hsource⟩

/-- The message of a class path tells its roots as they are written, and so does the fingerprint
unless two messages collide. -/
theorem fingerprint_tells_written_roots {r s : Roots} (hr : r.classpath.Plain)
    (hs : s.classpath.Plain) :
    (r.classpath.message = s.classpath.message ↔
      r.classpath.search = s.classpath.search ∧ r.classpath.source = s.classpath.source) ∧
    (Sha256.Separates r.classpath.message s.classpath.message →
      (r.classpath.fingerprint = s.classpath.fingerprint ↔
        r.classpath.search = s.classpath.search ∧ r.classpath.source = s.classpath.source)) := by
  have hmessage : r.classpath.message = s.classpath.message ↔
      r.classpath.search = s.classpath.search ∧ r.classpath.source = s.classpath.source :=
    message_inj.trans ((digestText_inj hr hs).trans eq_iff)
  exact ⟨hmessage, fun hdigest => (fingerprint_inj hdigest).trans hmessage⟩

def searchedRoots : Roots := ⟨[⟨"x.jar"⟩], [], [⟨"y.jar"⟩]⟩

def movedRoots : Roots := ⟨[⟨"x.jar"⟩], [⟨"y.jar"⟩], []⟩

theorem a_moved_root_changes_the_fingerprint :
    (searchedRoots.classpath.Plain ∧ movedRoots.classpath.Plain ∧
      Sha256.Separates searchedRoots.classpath.message movedRoots.classpath.message) ∧
    searchedRoots.classpath.fingerprint ≠ movedRoots.classpath.fingerprint := by
  have hsearched : searchedRoots.classpath.Plain := ⟨by decide, by decide⟩
  have hmoved : movedRoots.classpath.Plain := ⟨by decide, by decide⟩
  have hdigest : Sha256.Separates searchedRoots.classpath.message movedRoots.classpath.message := by
    unfold Sha256.Separates
    decide +kernel
  obtain ⟨-, hfingerprint⟩ := fingerprint_tells_written_roots hsearched hmoved
  refine ⟨⟨hsearched, hmoved, hdigest⟩, fun heq => ?_⟩
  exact absurd ((hfingerprint hdigest).1 heq) (by decide)

/-- Two spellings of one root have two fingerprints, and a root with a line feed in it has the
fingerprint of two roots. -/
theorem spellings_and_line_feeds_mislead :
    (List.Forall₂ Path.Same (Roots.classpath ⟨[⟨"a"⟩], [], []⟩).search
        (Roots.classpath ⟨[⟨"a/"⟩], [], []⟩).search ∧
      List.Forall₂ Path.Same (Roots.classpath ⟨[⟨"a"⟩], [], []⟩).source
        (Roots.classpath ⟨[⟨"a/"⟩], [], []⟩).source ∧
      (Roots.classpath ⟨[⟨"a"⟩], [], []⟩).fingerprint ≠
        (Roots.classpath ⟨[⟨"a/"⟩], [], []⟩).fingerprint) ∧
    ((Roots.classpath ⟨[⟨"a\nb"⟩], [], []⟩).fingerprint =
        (Roots.classpath ⟨[⟨"a"⟩, ⟨"b"⟩], [], []⟩).fingerprint ∧
      ¬ List.Forall₂ Path.Same (Roots.classpath ⟨[⟨"a\nb"⟩], [], []⟩).search
        (Roots.classpath ⟨[⟨"a"⟩, ⟨"b"⟩], [], []⟩).search) := by
  decide +kernel

end Classpath

end ClasspathSymbols
