import ClasspathSymbols.Proofs.Files.Names
import Mathlib.Data.String.Basic

/-! # Spellings of a path

Spellings of one path have the same components, and what a path leads to is decided by these. But
not every spelling leads there: an empty part or a dot asks for a directory in front of it, and a
spelling may be too long. -/
namespace ClasspathSymbols

namespace Path

variable {p q root : Path} {rest : String}

theorem extension?_congr (h : p.Same q) : p.extension? = q.extension? := by
  rw [extension?, extension?, h]

theorem isArchive_congr (h : p.Same q) : p.isArchive = q.isArchive := by
  rw [isArchive, isArchive, extension?_congr h]

def parts (p : Path) : List Component := p.segments.filterMap Component.ofSegment

theorem ofSegment_isPart {segment : List Char} {c : Component}
    (h : Component.ofSegment segment = some c) : c ≠ .root ∧ c ≠ .here := by
  rw [Component.ofSegment] at h
  split at h
  · cases h
  · split at h <;> (cases h; simp)

theorem parts_eq_filter (p : Path) :
    p.parts = p.components.filter fun c => c ≠ .root ∧ c ≠ .here := by
  have hself : p.parts.filter (fun c => c ≠ .root ∧ c ≠ .here) = p.parts := by
    rw [List.filter_eq_self]
    intro c hc
    obtain ⟨segment, -, hs⟩ := List.mem_filterMap.1 hc
    exact decide_eq_true (ofSegment_isPart hs)
  rw [← hself, components, ← parts]
  split
  · rw [List.filter_cons_of_neg (by simp), hself]
  · split
    · rw [List.filter_cons_of_neg (by simp), hself]
    · rw [hself]

theorem parts_congr (h : p.Same q) : p.parts = q.parts := by
  rw [parts_eq_filter, parts_eq_filter, h]

theorem isAbsolute_iff_components : p.IsAbsolute ↔ p.components.head? = some .root := by
  rw [components]
  split
  · simpa
  · rename_i habs
    refine iff_of_false habs ?_
    split
    · simp
    · intro hhead
      obtain ⟨segment, -, hs⟩ := List.mem_filterMap.1 (List.mem_of_head? hhead)
      exact (ofSegment_isPart hs).1 rfl

theorem isAbsolute_congr (h : p.Same q) : p.IsAbsolute ↔ q.IsAbsolute := by
  rw [isAbsolute_iff_components, isAbsolute_iff_components, h]

theorem components_join (hroot : root.text ≠ "") (hrest : rest.toList.head? ≠ some '/') :
    (root.join rest).components =
      root.components ++ (rest.toList.splitOn '/').filterMap Component.ofSegment := by
  obtain ⟨front, hne, hfront, hjoin⟩ := segments_join hroot hrest
  have hparts : root.segments.filterMap Component.ofSegment =
      front.filterMap Component.ofSegment := by
    rcases hfront with h | h
    · rw [h]
    · rw [h, List.filterMap_append]
      exact List.append_nil _
  have hhead : root.segments.head? = front.head? := by
    rcases hfront with h | h
    · rw [h]
    · rw [h, List.head?_append_of_ne_nil _ hne]
  have hjoinHead : (front ++ rest.toList.splitOn '/').head? = front.head? :=
    List.head?_append_of_ne_nil _ hne
  simp only [components, isAbsolute_join hroot hrest, hjoin, hjoinHead, hhead, hparts,
    List.filterMap_append]
  split
  · rfl
  · split <;> rfl

theorem same_join (hp : p.text ≠ "") (hq : q.text ≠ "") (h : p.Same q) (rest : String) :
    (p.join rest).Same (q.join rest) := by
  by_cases hrest : rest.toList.head? = some '/'
  · rw [join, join, if_pos hrest, if_pos hrest]
    rfl
  · rw [Same, components_join hp hrest, components_join hq hrest, h]

theorem components_eq_nil : p.components = [] ↔ p.text = "" := by
  constructor
  · intro h
    by_contra hne
    obtain ⟨c, cs, hcs⟩ := List.exists_cons_of_ne_nil (mt String.toList_eq_nil_iff.1 hne)
    rw [components] at h
    split at h
    · cases h
    · rename_i habs
      have hc : c ≠ '/' := by
        rintro rfl
        exact habs (congrArg List.head? hcs)
      obtain ⟨first, others, hs⟩ := List.exists_cons_of_ne_nil (List.splitOn_ne_nil '/' cs)
      have hsegments : p.segments = (c :: first) :: others := by
        rw [segments, hcs, List.splitOn_cons_eq_if_modifyHead, hs, if_neg (by simpa using hc)]
        rfl
      split at h
      · cases h
      · rename_i hhere
        rw [hsegments, List.head?_cons, Option.some.injEq] at hhere
        rw [hsegments, List.filterMap_eq_nil_iff] at h
        have hnone := h _ List.mem_cons_self
        rw [Component.ofSegment, if_neg (not_or.2 ⟨List.cons_ne_nil _ _, hhere⟩)] at hnone
        split at hnone <;> cases hnone
  · intro h
    obtain ⟨text⟩ := p
    obtain rfl : text = "" := h
    rfl

theorem mem_text {c : Char} (hslash : c ≠ '/') (hdot : c ≠ '.') :
    c ∈ p.text.toList ↔ ∃ text, .name text ∈ p.components ∧ c ∈ text.toList := by
  have hparts : ∀ text, .name text ∈ p.components ↔
      .name text ∈ p.segments.filterMap Component.ofSegment := by
    intro text
    rw [← parts, parts_eq_filter, List.mem_filter]
    simp
  simp only [hparts, List.mem_filterMap]
  rw [Text.mem_parts hslash, ← segments]
  constructor
  · rintro ⟨segment, hmem, hc⟩
    refine ⟨String.ofList segment, ⟨segment, hmem, ?_⟩, by rwa [String.toList_ofList]⟩
    rw [Component.ofSegment, if_neg, if_neg]
    · rintro rfl
      simp [hdot] at hc
    · rintro (rfl | rfl) <;> simp [hdot] at hc
  · rintro ⟨text, ⟨segment, hmem, hs⟩, hc⟩
    have hname := isName_of_segment (not_mem_segment hmem) hs
    rw [Component.ofSegment] at hs
    split at hs
    · cases hs
    · split at hs
      · cases hs
      · cases hs
        exact ⟨segment, hmem, by rwa [String.toList_ofList] at hc⟩

theorem splitOn_slashes (n : Nat) :
    (List.replicate n '/').splitOn '/' = List.replicate (n + 1) [] := by
  induction n with
  | zero => rfl
  | succ n ih =>
    rw [List.replicate_succ, List.splitOn_cons_eq_if_modifyHead, if_pos (beq_self_eq_true '/'), ih,
      ← List.replicate_succ]

theorem same_slashes {p : Path} (hp : p.text ≠ "") (n : Nat) :
    Same ⟨p.text ++ String.ofList (List.replicate n '/')⟩ p := by
  obtain ⟨c, cs, hcs⟩ := List.exists_cons_of_ne_nil (mt String.toList_eq_nil_iff.1 hp)
  have hsegments : ∃ m, segments ⟨p.text ++ String.ofList (List.replicate n '/')⟩ =
      p.segments ++ List.replicate m [] := by
    cases n with
    | zero => exact ⟨0, by simp [segments]⟩
    | succ n =>
      refine ⟨n + 1, ?_⟩
      rw [segments, String.toList_append, String.toList_ofList, List.replicate_succ,
        List.splitOn_append_cons_self, splitOn_slashes, ← segments]
  obtain ⟨m, hm⟩ := hsegments
  have habsolute : IsAbsolute ⟨p.text ++ String.ofList (List.replicate n '/')⟩ ↔ p.IsAbsolute := by
    simp [IsAbsolute, hcs]
  have hhead : (p.segments ++ List.replicate m []).head? = p.segments.head? :=
    List.head?_append_of_ne_nil _ (List.splitOn_ne_nil _ _)
  have hparts : (List.replicate m ([] : List Char)).filterMap Component.ofSegment = [] := by
    rw [List.filterMap_eq_nil_iff]
    intro segment hs
    rw [List.eq_of_mem_replicate hs]
    rfl
  simp only [Same, components, hm, habsolute, hhead, List.filterMap_append, hparts, List.append_nil]

theorem size_join {root : Path} {rest : String} (hrest : rest.toList.head? ≠ some '/') :
    root.text.utf8ByteSize + rest.utf8ByteSize ≤ (root.join rest).text.utf8ByteSize := by
  rw [join, if_neg hrest]
  split
  · exact Nat.le_of_eq String.utf8ByteSize_append.symm
  · simp only [String.utf8ByteSize_append]
    omega

theorem size_join_le_add {root : Path} {rest : String} (hrest : rest.toList.head? ≠ some '/') :
    (root.join rest).text.utf8ByteSize ≤ root.text.utf8ByteSize + 1 + rest.utf8ByteSize := by
  have hslash : "/".utf8ByteSize = 1 := rfl
  rw [join, if_neg hrest]
  split <;> simp only [String.utf8ByteSize_append] <;> omega

theorem size_join_le {root : Path} {rest more : String} (hrest : rest.toList.head? ≠ some '/')
    (hmore : more.toList.head? ≠ some '/') (h : rest.utf8ByteSize ≤ more.utf8ByteSize) :
    (root.join rest).text.utf8ByteSize ≤ (root.join more).text.utf8ByteSize := by
  rw [join, join, if_neg hrest, if_neg hmore]
  split <;> simp only [String.utf8ByteSize_append] <;> omega

theorem utf8ByteSize_slashes (n : Nat) :
    (String.ofList (List.replicate n '/')).utf8ByteSize = n := by
  induction n with
  | zero => rfl
  | succ n ih =>
    rw [String.utf8ByteSize_ofList] at ih ⊢
    rw [List.replicate_succ, String.utf8Len_cons, ih]
    rfl

end Path

namespace Files

variable {fs : Files} {p q : Path}

theorem startOf_congr (h : p.Same q) : fs.startOf p = fs.startOf q := by
  simp only [startOf, Path.isAbsolute_congr h]

def move (l : Location) : Path.Component → Location
  | .name text => l ++ [text]
  | .up => l.dropLast
  | _ => l

theorem locate_eq (p : Path) : fs.locate p = p.components.foldl move (fs.startOf p) := by
  rw [locate]
  congr 1

theorem locate_congr (h : p.Same q) : fs.locate p = fs.locate q := by
  rw [locate_eq, locate_eq, startOf_congr h, h]

def HasChild (fs : Files) (l : Location) (c : Path.Component) : Prop :=
  ∀ text, c = .name text → text.utf8ByteSize ≤ maxNameBytes ∧ fs.entryAt (l ++ [text]) ≠ none

theorem descend_none {l m : Location} {segment : List Char}
    (hs : Path.Component.ofSegment segment = none) :
    fs.descend l segment = .ok m ↔ fs.entryAt l = some .directory ∧ m = l := by
  rw [descend, hs]
  cases fs.entryAt l with
  | none => simp
  | some e => cases e <;> simp [eq_comm]

theorem descend_some {l m : Location} {segment : List Char} {c : Path.Component}
    (hs : Path.Component.ofSegment segment = some c) :
    fs.descend l segment = .ok m ↔
      fs.entryAt l = some .directory ∧ fs.HasChild l c ∧ m = move l c := by
  rw [descend, hs]
  cases fs.entryAt l with
  | none => simp
  | some e =>
    cases e with
    | file => simp
    | directory =>
      cases c with
      | name text =>
        by_cases hlong : text.utf8ByteSize > maxNameBytes
        · simp [HasChild, hlong, Nat.not_le.2 hlong]
        · by_cases hentry : fs.entryAt (l ++ [text]) = none
          · simp [HasChild, hlong, hentry]
          · simp [HasChild, move, hlong, hentry, Nat.not_lt.1 hlong, @eq_comm _ m]
      | root | here | up => simp [HasChild, move, eq_comm]

/-- The components lead from one location to another. -/
inductive Leads (fs : Files) : Location → List Path.Component → Location → Prop where
  | done (l : Location) : Leads fs l [] l
  | step {l m : Location} {c : Path.Component} {cs : List Path.Component} :
      fs.entryAt l = some .directory → fs.HasChild l c → Leads fs (move l c) cs m →
      Leads fs l (c :: cs) m

theorem Leads.eq_foldl {l m : Location} {cs : List Path.Component} (h : fs.Leads l cs m) :
    m = cs.foldl move l := by
  induction h with
  | done l => rfl
  | step _ _ _ ih => exact ih

theorem leads_of_foldlM {segments : List (List Char)} {l m : Location}
    (h : segments.foldlM fs.descend l = .ok m) :
    fs.Leads l (segments.filterMap Path.Component.ofSegment) m := by
  induction segments generalizing l with
  | nil =>
    obtain rfl := Except.ok.inj h
    exact .done _
  | cons s segments ih =>
    rw [List.foldlM_cons] at h
    obtain ⟨d, hd, h⟩ := bind_eq_ok.1 h
    have hrest := ih h
    cases hs : Path.Component.ofSegment s with
    | none =>
      obtain ⟨-, rfl⟩ := (descend_none hs).1 hd
      rwa [List.filterMap_cons_none hs]
    | some c =>
      obtain ⟨hdir, hchild, rfl⟩ := (descend_some hs).1 hd
      rw [List.filterMap_cons_some hs]
      exact .step hdir hchild hrest

theorem leads_of_resolve {l : Location} (h : fs.resolve p = .ok l) :
    fs.Leads (fs.startOf p) p.parts l := leads_of_foldlM (resolve_eq_ok h).2

/-- Where a path leads is where its components lead. -/
theorem resolve_eq_locate {l : Location} (h : fs.resolve p = .ok l) : l = fs.locate p := by
  have hparts : p.components.foldl move (fs.startOf p) = p.parts.foldl move (fs.startOf p) := by
    rw [Path.components]
    split
    · rfl
    · split <;> rfl
  rw [locate_eq, hparts]
  exact (leads_of_resolve h).eq_foldl

theorem location_unique (h : p.Same q) {l m : Location} (hp : fs.resolve p = .ok l)
    (hq : fs.resolve q = .ok m) : l = m := by
  rw [resolve_eq_locate hp, resolve_eq_locate hq, locate_congr h]

theorem content_unique (h : p.Same q) {e : FileError} {a b : ByteArray}
    (hp : fs.content p e = .ok a) (hq : fs.content q e = .ok b) : a = b := by
  obtain ⟨l, hl, ha⟩ := content_eq_ok.1 hp
  obtain ⟨m, hm, hb⟩ := content_eq_ok.1 hq
  rw [location_unique h hl hm, hb] at ha
  exact (Entry.file.inj (Option.some.inj ha)).symm

theorem isFile_iff : fs.isFile p ↔
    ∃ l content, fs.resolve p = .ok l ∧ fs.entryAt l = some (.file content) := by
  rw [isFile, entry?]
  cases fs.resolve p with
  | error e => simp
  | ok l =>
    simp only [Except.ok.injEq, exists_and_left, exists_eq_left']
    cases fs.entryAt l with
    | none => simp
    | some e => cases e <;> simp

theorem isDirectory_of_leads {segments : List (List Char)} {l m : Location}
    (h : fs.Leads l (segments.filterMap Path.Component.ofSegment) m)
    (hend : fs.entryAt m = some .directory ∨
      (segments.getLast?.bind Path.Component.ofSegment).isSome) :
    fs.entryAt l = some .directory := by
  cases hparts : segments.filterMap Path.Component.ofSegment with
  | cons c cs =>
    rw [hparts] at h
    cases h with
    | step hdir => exact hdir
  | nil =>
    rw [hparts] at h
    cases h
    refine hend.resolve_right fun hlast => ?_
    obtain ⟨c, hc⟩ := Option.isSome_iff_exists.1 hlast
    obtain ⟨s, hs, hsc⟩ := Option.bind_eq_some_iff.1 hc
    rw [List.filterMap_eq_nil_iff] at hparts
    rw [hparts s (List.mem_of_getLast? hs)] at hsc
    cases hsc

theorem foldlM_of_leads {segments : List (List Char)} {l m : Location}
    (h : fs.Leads l (segments.filterMap Path.Component.ofSegment) m)
    (hend : fs.entryAt m = some .directory ∨
      (segments.getLast?.bind Path.Component.ofSegment).isSome) :
    segments.foldlM fs.descend l = .ok m := by
  induction segments generalizing l with
  | nil =>
    cases h
    rfl
  | cons s segments ih =>
    rw [List.foldlM_cons]
    cases hs : Path.Component.ofSegment s with
    | none =>
      rw [List.filterMap_cons_none hs] at h
      have hrest : fs.entryAt m = some .directory ∨
          (segments.getLast?.bind Path.Component.ofSegment).isSome := by
        refine hend.imp_right fun hlast => ?_
        cases segments with
        | nil => simp [hs] at hlast
        | cons t segments => simpa using hlast
      rw [(descend_none hs).2 ⟨isDirectory_of_leads h hrest, rfl⟩]
      exact ih h hrest
    | some c =>
      rw [List.filterMap_cons_some hs] at h
      cases h with
      | step hdir hchild hleads =>
        rw [(descend_some hs).2 ⟨hdir, hchild, rfl⟩]
        cases segments with
        | nil =>
          cases hleads
          rfl
        | cons t segments => exact ih hleads (hend.imp_right fun hlast => by simpa using hlast)

/-- The last part of the path stands for a component, so the path may be that of a file. -/
def EndsInComponent (p : Path) : Prop :=
  (p.segments.getLast?.bind Path.Component.ofSegment).isSome

instance (p : Path) : Decidable (EndsInComponent p) := inferInstanceAs (Decidable (_ = true))

/-- If a spelling leads somewhere, so does every other that fits, unless it asks for a directory
where there is a file. -/
theorem resolve_of_same (h : p.Same q) (hfits : Fits p) {l : Location}
    (hq : fs.resolve q = .ok l)
    (hend : fs.entryAt l = some .directory ∨ EndsInComponent p) : fs.resolve p = .ok l := by
  have hnul : ¬ p.text.toList.contains '\x00' = true := by
    rw [List.contains_iff_mem, Path.mem_text (by decide) (by decide), h,
      ← Path.mem_text (by decide) (by decide), ← List.contains_iff_mem]
    intro hnul
    rw [resolve, if_pos hnul] at hq
    cases hq
  have hnotEmpty : ¬ p.text = "" := by
    rw [← Path.components_eq_nil, h, Path.components_eq_nil]
    exact (resolve_eq_ok hq).1
  rw [resolve, if_neg hnul, if_neg (Nat.not_lt.2 hfits), if_neg hnotEmpty]
  refine foldlM_of_leads ?_ hend
  rw [← Path.parts, Path.parts_congr h, startOf_congr h]
  exact leads_of_resolve hq

theorem not_isFile_of_isDirectory (h : p.Same q) (hp : fs.isDirectory p) : ¬ fs.isFile q := by
  intro hq
  obtain ⟨l, hl, hdir⟩ := isDirectory_iff.1 hp
  obtain ⟨m, content, hm, hfile⟩ := isFile_iff.1 hq
  rw [location_unique h hl hm, hfile] at hdir
  cases hdir

theorem text_ne_empty_of_isDirectory (h : fs.isDirectory p) : p.text ≠ "" := by
  obtain ⟨l, hl, -⟩ := isDirectory_iff.1 h
  exact (resolve_eq_ok hl).1

end Files

end ClasspathSymbols
