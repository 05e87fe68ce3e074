import Mathlib.Data.List.DropRight
import ClasspathSymbols.CommandLine
import ClasspathSymbols.Proofs.Text.Parts

/-! # Normalised class names

A normalised name has no blanks, so of all that normalisation does, only the removal of semicolons
can still find something in it. It does so if a semicolon was left over, and this happens to the
names with a blank among the semicolons at their end. -/
namespace ClasspathSymbols.ClassName

open Text (isBlank trim)
open CommandLine.Desk (symbolOf)

def Blanks (s : List Char) : Prop := ∀ c ∈ s, isBlank c

/-- Among the blanks and semicolons at the end a blank stands between two semicolons. -/
def SplitSemicolons (s : List Char) : Prop :=
  ∃ before blank rest, s = before ++ ';' :: blank :: rest ∧ isBlank blank ∧ ';' ∈ rest ∧
    ∀ c ∈ rest, isBlank c ∨ c = ';'

/-- No blanks, and no semicolon at the end. -/
structure IsNormal (s : List Char) : Prop where
  unspaced : ∀ c ∈ s, ¬ isBlank c
  ended : s.getLast? ≠ some ';'

def bare (s : List Char) : List Char := dropWord staticWord (dropWord importWord (trim s))

def withoutBlanks (s : List Char) : List Char := s.filter (!isBlank ·)

def withoutSemicolons (s : List Char) : List Char := s.rdropWhile (· = ';')

/-- What is left of a text when something without semicolons has been taken away in front and
blanks have been taken away behind, so that none is left there. -/
structure IsCore (s core : List Char) : Prop where
  around : ∃ front back, s = front ++ (core ++ back) ∧ ';' ∉ front ∧ Blanks back
  ending : ∀ c, core.getLast? = some c → ¬ isBlank c

theorem semicolon_not_blank : ¬ isBlank ';' := by decide

theorem Blanks.semicolon_not_mem {s : List Char} (h : Blanks s) : ';' ∉ s :=
  fun hm => semicolon_not_blank (h _ hm)

theorem cut_behind {front s before rest : List Char} {c : Char}
    (h : front ++ s = before ++ c :: rest) (hc : c ∉ front) :
    ∃ more, before = front ++ more ∧ s = more ++ c :: rest := by
  rcases List.append_eq_append_iff.1 h with ⟨more, hbefore, hs⟩ | ⟨more, rfl, hs⟩
  · exact ⟨more, hbefore, hs⟩
  · cases more with
    | nil => exact ⟨[], by simp, hs.symm⟩
    | cons d more =>
      obtain ⟨rfl, -⟩ := List.cons.inj hs
      exact absurd (List.mem_append_right before List.mem_cons_self) hc

theorem cut_before {s back before rest : List Char} {c : Char}
    (h : s ++ back = before ++ c :: rest) (hc : c ∉ back) :
    ∃ more, s = before ++ c :: more ∧ rest = more ++ back := by
  have hreverse : back.reverse ++ s.reverse = rest.reverse ++ c :: before.reverse := by
    simpa using congrArg List.reverse h
  obtain ⟨more, hrest, hs⟩ := cut_behind hreverse (mt List.mem_reverse.1 hc)
  refine ⟨more.reverse, ?_, ?_⟩
  · simpa using congrArg List.reverse hs
  · simpa using congrArg List.reverse hrest

theorem not_of_getLast?_rdropWhile {p : Char → Bool} {s : List Char} {c : Char}
    (h : (s.rdropWhile p).getLast? = some c) : ¬ p c := by
  obtain ⟨init, hinit⟩ := List.getLast?_eq_some_iff.1 h
  have hne : s.rdropWhile p ≠ [] := by rw [hinit]; simp
  have hlast := List.rdropWhile_last_not p s hne
  simpa [hinit] using hlast

theorem isCore_trim (s : List Char) : IsCore s (trim s) where
  around := by
    refine ⟨s.takeWhile isBlank, (s.dropWhile isBlank).rtakeWhile isBlank, ?_, ?_, ?_⟩
    · change s = _ ++ ((s.dropWhile isBlank).rdropWhile isBlank ++ _)
      rw [List.rdropWhile_append_rtakeWhile, List.takeWhile_append_dropWhile]
    · exact Blanks.semicolon_not_mem fun c hc => List.mem_takeWhile_imp hc
    · exact fun c hc => List.mem_rtakeWhile_imp hc
  ending := fun c hc => not_of_getLast?_rdropWhile (s := s.dropWhile isBlank) hc

theorem IsCore.trans {s t u : List Char} (h : IsCore s t) (k : IsCore t u) : IsCore s u where
  around := by
    obtain ⟨front, back, rfl, hfront, hback⟩ := h.around
    obtain ⟨front', back', rfl, hfront', hback'⟩ := k.around
    refine ⟨front ++ front', back' ++ back, by simp only [List.append_assoc], ?_, ?_⟩
    · exact fun hm => (List.mem_append.1 hm).elim hfront hfront'
    · exact fun c hm => (List.mem_append.1 hm).elim (hback' c) (hback c)
  ending := k.ending

theorem IsCore.dropWord {s core word : List Char} (h : IsCore s core) (hword : ';' ∉ word) :
    IsCore s (dropWord word core) := by
  rw [ClassName.dropWord]
  split
  · rename_i hprefix
    obtain ⟨rest, rfl⟩ := List.isPrefixOf_iff_prefix.1 hprefix
    rw [List.drop_left]
    obtain ⟨front, back, hrest, hfront, hback⟩ := (isCore_trim rest).around
    refine h.trans ⟨⟨word ++ front, back, ?_, ?_, hback⟩, (isCore_trim rest).ending⟩
    · rw [List.append_assoc, ← hrest]
    · exact fun hm => (List.mem_append.1 hm).elim hword hfront
  · exact h

theorem isCore_bare (s : List Char) : IsCore s (bare s) :=
  ((isCore_trim s).dropWord (by decide)).dropWord (by decide)

theorem splitSemicolons_append {front s : List Char} (h : ';' ∉ front) :
    SplitSemicolons (front ++ s) ↔ SplitSemicolons s := by
  constructor
  · rintro ⟨before, blank, rest, hs, hblank, hmem, hrest⟩
    obtain ⟨more, -, hs⟩ := cut_behind hs h
    exact ⟨more, blank, rest, hs, hblank, hmem, hrest⟩
  · rintro ⟨before, blank, rest, rfl, hblank, hmem, hrest⟩
    exact ⟨front ++ before, blank, rest, (List.append_assoc _ _ _).symm, hblank, hmem, hrest⟩

theorem splitSemicolons_append_blanks {s back : List Char} (h : Blanks back) :
    SplitSemicolons (s ++ back) ↔ SplitSemicolons s := by
  constructor
  · rintro ⟨before, blank, rest, hs, hblank, hmem, hrest⟩
    obtain ⟨middle, last, rfl, -⟩ := Text.exists_last hmem
    have hcut : s ++ back = (before ++ ';' :: blank :: middle) ++ ';' :: last := by
      rw [hs, List.append_assoc, List.cons_append, List.cons_append]
    obtain ⟨more, rfl, rfl⟩ := cut_before hcut h.semicolon_not_mem
    refine ⟨before, blank, middle ++ ';' :: more, by simp, hblank, by simp, fun c hc => ?_⟩
    apply hrest
    rw [← List.cons_append, ← List.append_assoc]
    exact List.mem_append_left back hc
  · rintro ⟨before, blank, rest, rfl, hblank, hmem, hrest⟩
    refine ⟨before, blank, rest ++ back, by simp, hblank, List.mem_append_left _ hmem, ?_⟩
    exact fun c hc => (List.mem_append.1 hc).elim (hrest c) fun hc => Or.inl (h c hc)

theorem IsCore.splitSemicolons_iff {s core : List Char} (h : IsCore s core) :
    SplitSemicolons s ↔ SplitSemicolons core := by
  obtain ⟨front, back, rfl, hfront, hback⟩ := h.around
  rw [splitSemicolons_append hfront, splitSemicolons_append_blanks hback]

theorem withoutBlanks_append (s t : List Char) :
    withoutBlanks (s ++ t) = withoutBlanks s ++ withoutBlanks t := List.filter_append s t

theorem mem_withoutBlanks {s : List Char} {c : Char} :
    c ∈ withoutBlanks s ↔ c ∈ s ∧ ¬ isBlank c := by
  rw [withoutBlanks, List.mem_filter, Bool.not_eq_true, Bool.not_eq_true']

theorem withoutBlanks_eq_nil {s : List Char} : withoutBlanks s = [] ↔ Blanks s := by
  simp [withoutBlanks, Blanks]

theorem withoutBlanks_of_unspaced {s : List Char} (h : ∀ c ∈ s, ¬ isBlank c) :
    withoutBlanks s = s := by
  rw [withoutBlanks, List.filter_eq_self]
  simpa using h

theorem withoutBlanks_trim (s : List Char) : withoutBlanks (trim s) = withoutBlanks s := by
  have hfront : withoutBlanks (s.takeWhile isBlank) = [] :=
    withoutBlanks_eq_nil.2 fun c hc => List.mem_takeWhile_imp hc
  have hback : withoutBlanks ((s.dropWhile isBlank).rtakeWhile isBlank) = [] :=
    withoutBlanks_eq_nil.2 fun c hc => List.mem_rtakeWhile_imp hc
  have hend : withoutBlanks (s.dropWhile isBlank) = withoutBlanks (trim s) := by
    have hcut : trim s ++ (s.dropWhile isBlank).rtakeWhile isBlank = s.dropWhile isBlank :=
      List.rdropWhile_append_rtakeWhile
    rw [← hcut, withoutBlanks_append, hback, List.append_nil]
  rw [← hend, ← List.nil_append (withoutBlanks _), ← hfront, ← withoutBlanks_append,
    List.takeWhile_append_dropWhile]

theorem withoutSemicolons_eq_self {s : List Char} :
    withoutSemicolons s = s ↔ s.getLast? ≠ some ';' := by
  constructor
  · intro h hlast
    rw [← h] at hlast
    exact not_of_getLast?_rdropWhile hlast (by decide)
  · intro h
    refine List.rdropWhile_eq_self_iff.2 fun hne hp => h ?_
    rw [List.getLast?_eq_some_getLast hne, of_decide_eq_true hp]

theorem withoutBlanks_dropSemicolons (s : List Char) :
    withoutBlanks (dropSemicolons s) = withoutBlanks (withoutSemicolons s) := by
  rw [dropSemicolons]
  split
  · exact withoutBlanks_trim _
  · rename_i hlast
    rw [withoutSemicolons_eq_self.2 hlast]

theorem normalizeChars_eq (s : List Char) :
    normalizeChars s = withoutBlanks (withoutSemicolons (bare s)) :=
  withoutBlanks_dropSemicolons (bare s)

theorem unspaced_normalizeChars (s : List Char) : ∀ c ∈ normalizeChars s, ¬ isBlank c :=
  fun _ hc => (mem_withoutBlanks.1 hc).2

theorem trim_of_unspaced {s : List Char} (h : ∀ c ∈ s, ¬ isBlank c) : trim s = s := by
  have htrim : ∀ c ∈ trim s, ¬ isBlank c := by
    obtain ⟨front, back, hs, -, -⟩ := (isCore_trim s).around
    intro c hc
    refine h c ?_
    rw [hs]
    exact List.mem_append_right front (List.mem_append_left back hc)
  rw [← withoutBlanks_of_unspaced htrim, withoutBlanks_trim, withoutBlanks_of_unspaced h]

theorem dropWord_of_unspaced {word s : List Char} (hword : ' ' ∈ word)
    (h : ∀ c ∈ s, ¬ isBlank c) : dropWord word s = s := by
  refine if_neg fun hprefix => ?_
  obtain ⟨rest, rfl⟩ := List.isPrefixOf_iff_prefix.1 hprefix
  exact h ' ' (List.mem_append_left rest hword) (by decide)

theorem normalizeChars_of_unspaced {s : List Char} (h : ∀ c ∈ s, ¬ isBlank c) :
    normalizeChars s = withoutSemicolons s := by
  have hbare : bare s = s := by
    rw [bare, trim_of_unspaced h, dropWord_of_unspaced (by decide) h,
      dropWord_of_unspaced (by decide) h]
  have hstart : withoutSemicolons s <+: s := List.rdropWhile_prefix _ s
  rw [normalizeChars_eq, hbare, withoutBlanks_of_unspaced fun c hc => h c (hstart.subset hc)]

theorem normalizeChars_eq_self_iff {s : List Char} : normalizeChars s = s ↔ IsNormal s := by
  constructor
  · intro h
    have hunspaced : ∀ c ∈ s, ¬ isBlank c := h ▸ unspaced_normalizeChars s
    rw [normalizeChars_of_unspaced hunspaced] at h
    exact ⟨hunspaced, withoutSemicolons_eq_self.1 h⟩
  · rintro ⟨hunspaced, hended⟩
    rw [normalizeChars_of_unspaced hunspaced, withoutSemicolons_eq_self.2 hended]

theorem isNormal_normalizeChars_normalizeChars (s : List Char) :
    IsNormal (normalizeChars (normalizeChars s)) where
  unspaced := unspaced_normalizeChars _
  ended := by
    rw [normalizeChars_of_unspaced (unspaced_normalizeChars s)]
    exact fun hlast => not_of_getLast?_rdropWhile hlast (by decide)

theorem exists_of_getLast?_withoutBlanks {s : List Char} {c : Char}
    (h : (withoutBlanks s).getLast? = some c) :
    ∃ front gap, s = front ++ c :: gap ∧ Blanks gap := by
  obtain ⟨init, hinit⟩ := List.getLast?_eq_some_iff.1 h
  obtain ⟨first, second, rfl, -, hsecond⟩ := List.filter_eq_append_iff.1 hinit
  obtain ⟨blanks, gap, rfl, -, -, hgap⟩ := List.filter_eq_cons_iff.1 hsecond
  exact ⟨first ++ blanks, gap, (List.append_assoc _ _ _).symm, withoutBlanks_eq_nil.1 hgap⟩

theorem eq_nil_of_ending {front gap : List Char}
    (hending : ∀ c, (front ++ gap).getLast? = some c → ¬ isBlank c) (hgap : Blanks gap) :
    gap = [] := by
  by_contra hne
  have hlast : (front ++ gap).getLast? = some (gap.getLast hne) := by
    rw [List.getLast?_append_of_ne_nil _ hne, List.getLast?_eq_some_getLast hne]
  exact hending _ hlast (hgap _ (List.getLast_mem hne))

theorem exists_semicolons (s : List Char) :
    ∃ semicolons, withoutSemicolons s ++ semicolons = s ∧ ∀ c ∈ semicolons, c = ';' :=
  ⟨s.rtakeWhile (· = ';'), List.rdropWhile_append_rtakeWhile, fun _ hc =>
    of_decide_eq_true (List.mem_rtakeWhile_imp (p := fun c => decide (c = ';')) hc)⟩

theorem splitSemicolons_of_left_over {s : List Char}
    (hending : ∀ c, s.getLast? = some c → ¬ isBlank c)
    (hlast : (withoutBlanks (withoutSemicolons s)).getLast? = some ';') : SplitSemicolons s := by
  obtain ⟨semicolons, hs, hsemicolons⟩ := exists_semicolons s
  obtain ⟨front, gap, hkept, hgap⟩ := exists_of_getLast?_withoutBlanks hlast
  cases gap with
  | nil =>
    -- The last of all would have been removed.
    have hsemicolon : (withoutSemicolons s).getLast? = some ';' := by
      rw [hkept, List.getLast?_append_cons, List.getLast?_singleton]
    exact absurd (by decide) (not_of_getLast?_rdropWhile hsemicolon)
  | cons blank gap =>
    have hsome : semicolons ≠ [] := by
      rintro rfl
      rw [← hs, List.append_nil, hkept, List.append_cons] at hending
      exact List.cons_ne_nil blank gap (eq_nil_of_ending hending hgap)
    refine ⟨front, blank, gap ++ semicolons, ?_, hgap blank List.mem_cons_self, ?_, ?_⟩
    · rw [← hs, hkept]; simp
    · obtain ⟨c, hc⟩ := List.exists_mem_of_ne_nil semicolons hsome
      exact List.mem_append_right gap (hsemicolons c hc ▸ hc)
    · intro c hc
      rcases List.mem_append.1 hc with hc | hc
      · exact Or.inl (hgap c (List.mem_cons_of_mem blank hc))
      · exact Or.inr (hsemicolons c hc)

theorem SplitSemicolons.left_over {s : List Char} (h : SplitSemicolons s) :
    (withoutBlanks (withoutSemicolons s)).getLast? = some ';' := by
  obtain ⟨semicolons, hs, hsemicolons⟩ := exists_semicolons s
  obtain ⟨before, blank, rest, hsplit, hblank, -, hrest⟩ := h
  have hcut : withoutSemicolons s ++ semicolons = (before ++ [';']) ++ blank :: rest := by
    rw [hs, hsplit, List.append_assoc, List.singleton_append]
  have hkept : blank ∉ semicolons := by
    intro hmem
    rw [hsemicolons blank hmem] at hblank
    exact semicolon_not_blank hblank
  obtain ⟨more, hmore, rfl⟩ := cut_before hcut hkept
  have hall : ∀ c ∈ ';' :: withoutBlanks more, c = ';' := by
    intro c hc
    rcases List.mem_cons.1 hc with rfl | hc
    · rfl
    · obtain ⟨hc, hplain⟩ := mem_withoutBlanks.1 hc
      exact (hrest c (List.mem_append_left semicolons hc)).resolve_left hplain
  have hblanks : withoutBlanks (withoutSemicolons s) =
      withoutBlanks before ++ ';' :: withoutBlanks more := by
    rw [hmore, List.append_assoc, withoutBlanks_append]
    congr 1
    simp [withoutBlanks, hblank, semicolon_not_blank]
  rw [hblanks, List.getLast?_append_cons, List.getLast?_eq_some_getLast (List.cons_ne_nil _ _),
    hall _ (List.getLast_mem _)]

theorem getLast?_normalizeChars {s : List Char} :
    (normalizeChars s).getLast? = some ';' ↔ SplitSemicolons s := by
  rw [normalizeChars_eq, (isCore_bare s).splitSemicolons_iff]
  exact ⟨splitSemicolons_of_left_over (isCore_bare s).ending, SplitSemicolons.left_over⟩

theorem toList_normalize (raw : String) : (normalize raw).toList = normalizeChars raw.toList :=
  String.toList_ofList

theorem normalize_eq_self_iff (raw : String) : normalize raw = raw ↔ IsNormal raw.toList := by
  rw [← String.toList_inj, toList_normalize, normalizeChars_eq_self_iff]

theorem isNormal_normalize_iff (raw : String) :
    IsNormal (normalize raw).toList ↔ ¬ SplitSemicolons raw.toList := by
  rw [toList_normalize, ← getLast?_normalizeChars]
  exact ⟨IsNormal.ended, fun hended => ⟨unspaced_normalizeChars _, hended⟩⟩

theorem symbolOf_eq_iff (raw raw' : String) (isPackage : Bool) :
    symbolOf raw isPackage = symbolOf raw' isPackage ↔ normalize raw = normalize raw' := by
  simp [symbolOf]

/-- The name that comes of normalising has no blanks, whatever it is made of. It ends in a semicolon
if and only if semicolons were split by a blank, and in every other case it is the name of the same
symbol and stays as it is when it is normalised again. What has been normalised twice stays as it is
always, and so does every text that has no blanks and ends in no semicolon, and no other. -/
theorem names_are_normal_but_for_split_semicolons (raw : String) :
    (∀ c ∈ (normalize raw).toList, ¬ isBlank c) ∧
    ((normalize raw).toList.getLast? = some ';' ↔ SplitSemicolons raw.toList) ∧
    (normalize (normalize raw) = normalize raw ↔ ¬ SplitSemicolons raw.toList) ∧
    (∀ isPackage, symbolOf (normalize raw) isPackage = symbolOf raw isPackage ↔
      ¬ SplitSemicolons raw.toList) ∧
    normalize (normalize (normalize raw)) = normalize (normalize raw) ∧
    (normalize raw = raw ↔ IsNormal raw.toList) := by
  have hagain : normalize (normalize raw) = normalize raw ↔ ¬ SplitSemicolons raw.toList :=
    (normalize_eq_self_iff _).trans (isNormal_normalize_iff raw)
  refine ⟨?_, ?_, hagain, fun isPackage => ?_, ?_, normalize_eq_self_iff raw⟩
  · rw [toList_normalize]
    exact unspaced_normalizeChars _
  · rw [toList_normalize]
    exact getLast?_normalizeChars
  · rw [symbolOf_eq_iff, hagain]
  · rw [normalize_eq_self_iff, toList_normalize, toList_normalize]
    exact isNormal_normalizeChars_normalizeChars _

theorem an_imported_name_is_normal :
    normalize "import java.util. Map ;; " = "java.util.Map" ∧
    ¬ SplitSemicolons "import java.util. Map ;; ".toList ∧
    normalize "java.util.Map" = "java.util.Map" ∧ ¬ isBlank 'M' := by
  have hname : normalize "import java.util. Map ;; " = "java.util.Map" := by decide
  obtain ⟨hunspaced, hended, hagain, -⟩ :=
    names_are_normal_but_for_split_semicolons "import java.util. Map ;; "
  rw [hname] at hunspaced hended hagain
  have hsplit := mt hended.2 (by decide)
  exact ⟨hname, hsplit, hagain.2 hsplit, hunspaced 'M' (by decide)⟩

/-- One semicolon is left of two, and the name without it is another one. -/
theorem a_split_semicolon_is_left_over :
    normalize "java.util.Map; ;" = "java.util.Map;" ∧
    normalize (normalize "java.util.Map; ;") = "java.util.Map" := by
  decide

end ClasspathSymbols.ClassName
