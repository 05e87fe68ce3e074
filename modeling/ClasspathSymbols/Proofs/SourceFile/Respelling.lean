import ClasspathSymbols.SourceFile.Declaration
import ClasspathSymbols.Proofs.SourceFile.Bare

/-! # Nodes of sources with the same tokens

The items of a source are told apart by its tokens alone. White space and comments are left only in
the names of packages and of annotations: such a name may be made of several tokens, and is what is
written from the first of them to the last. So sources with the same tokens have the same nodes, up
to the spelling of those names. -/
namespace ClasspathSymbols.SourceFile

/-- The sources differ in nothing but the layout between their tokens. -/
def SameTokens (s t : String) : Prop :=
  (tokensOf s).flatMap Token.bare = (tokensOf t).flatMap Token.bare

instance (s t : String) : Decidable (SameTokens s t) := inferInstanceAs (Decidable (_ = _))

/-- A name as it is written, and the same name without layout. -/
def Bares (name bare : String) : Prop :=
  ∃ ts : List Token, (∀ t ∈ ts, t.Spaced) ∧ name = slice ts ∧
    bare = String.ofList (ts.flatMap Token.text)

theorem slice_eq_spelling {ts : List Token} (h : ∀ t ∈ ts, t.gap = []) :
    slice ts = String.ofList (ts.flatMap Token.spelling) := by
  cases ts with
  | nil => rfl
  | cons t ts =>
    rw [slice, List.flatMap_cons, Token.spelling, h t List.mem_cons_self, List.nil_append]

theorem slice_bare (ts : List Token) :
    slice (ts.flatMap Token.bare) = String.ofList (ts.flatMap Token.text) := by
  have hgap : ∀ u ∈ ts.flatMap Token.bare, u.gap = [] := by
    intro u hu
    obtain ⟨t, -, hu⟩ := List.mem_flatMap.1 hu
    exact Token.gap_of_mem_bare hu
  rw [slice_eq_spelling hgap, List.flatMap_assoc]
  simp only [Token.spelling_bare]

theorem bares_slice {ts : List Token} (h : ∀ t ∈ ts, t.Spaced) :
    Bares (slice ts) (slice (ts.flatMap Token.bare)) :=
  ⟨ts, h, rfl, slice_bare ts⟩

def OnePiece (name : String) : Prop := ∀ c ∈ name.toList, ¬ (isLayout c ∨ c = '/')

instance (name : String) : Decidable (OnePiece name) := List.decidableBAll _ name.toList

theorem Bares.eq_of_onePiece {name bare : String} (h : Bares name bare) (hname : OnePiece name) :
    name = bare := by
  obtain ⟨ts, hspaced, rfl, rfl⟩ := h
  cases ts with
  | nil => rfl
  | cons t ts =>
    have hgap : ∀ u ∈ ts, u.spelling = u.text := by
      intro u hu
      cases heq : u.gap with
      | nil => rw [Token.spelling, heq, List.nil_append]
      | cons c gap =>
        have hc : c ∈ (slice (t :: ts)).toList := by
          rw [slice, String.toList_ofList]
          refine List.mem_append_right _ (List.mem_flatMap.2 ⟨u, hu, ?_⟩)
          rw [Token.spelling, heq]
          exact List.mem_cons_self
        have hlayout := hspaced u (List.mem_cons_of_mem t hu) c (by rw [heq]; rfl)
        exact absurd hlayout (hname c hc)
    rw [slice, List.flatMap_cons, List.flatMap_congr hgap]

def Respells (m n : String) : Prop := ∃ bare, Bares m bare ∧ Bares n bare

theorem Respells.eq_of_onePiece {m n : String} (h : Respells m n) (hm : OnePiece m)
    (hn : OnePiece n) : m = n := by
  obtain ⟨bare, hbm, hbn⟩ := h
  rw [hbm.eq_of_onePiece hm, hbn.eq_of_onePiece hn]

/-- The same nodes, but packages and annotations may have other names. -/
inductive Alike (R : String → String → Prop) : List Node → List Node → Prop where
  | nil : Alike R [] []
  | package {name name' : String} {ms ns : List Node} : R name name' → Alike R ms ns →
      Alike R (.package name :: ms) (.package name' :: ns)
  | type (form : TypeForm) {annotations annotations' : List String} (name : String)
      {members members' ms ns : List Node} : List.Forall₂ R annotations annotations' →
      Alike R members members' → Alike R ms ns →
      Alike R (.type form annotations name members :: ms)
        (.type form annotations' name members' :: ns)
  | behindConstants {members members' ms ns : List Node} : Alike R members members' →
      Alike R ms ns → Alike R (.behindConstants members :: ms) (.behindConstants members' :: ns)
  | other {children children' ms ns : List Node} : Alike R children children' → Alike R ms ns →
      Alike R (.other children :: ms) (.other children' :: ns)

theorem Alike.append {R : String → String → Prop} {ms ns ms' ns' : List Node} (h : Alike R ms ns)
    (h' : Alike R ms' ns') : Alike R (ms ++ ms') (ns ++ ns') := by
  induction h with
  | nil => exact h'
  | package hname _ ih => exact .package hname ih
  | type form name hannotations hmembers _ _ ih => exact .type form name hannotations hmembers ih
  | behindConstants hmembers _ _ ih => exact .behindConstants hmembers ih
  | other hchildren _ _ ih => exact .other hchildren ih

section Meet

variable {R S : String → String → Prop}

theorem forall₂_meet (hS : ∀ l m n, R l n → R m n → S l m) {ls ms ns : List String}
    (h : List.Forall₂ R ls ns) (h' : List.Forall₂ R ms ns) : List.Forall₂ S ls ms := by
  induction h generalizing ms with
  | nil => cases h'; exact .nil
  | cons hname _ ih =>
    cases h' with
    | cons hname' h' => exact .cons (hS _ _ _ hname hname') (ih h')

/-- Two rows of nodes that are alike the same third row are alike each other. -/
theorem Alike.meet (hS : ∀ l m n, R l n → R m n → S l m) {ms ms' ns : List Node}
    (h : Alike R ms ns) (h' : Alike R ms' ns) : Alike S ms ms' := by
  induction h generalizing ms' with
  | nil => cases h'; exact .nil
  | package hname _ ih =>
    cases h' with
    | package hname' h' => exact .package (hS _ _ _ hname hname') (ih h')
  | type form name hannotations _ _ ihmembers ih =>
    cases h' with
    | type _ _ hannotations' hmembers' h' =>
      exact .type form name (forall₂_meet hS hannotations hannotations') (ihmembers hmembers')
        (ih h')
  | behindConstants _ _ ihmembers ih =>
    cases h' with
    | behindConstants hmembers' h' => exact .behindConstants (ihmembers hmembers') (ih h')
  | other _ _ ihchildren ih =>
    cases h' with
    | other hchildren' h' => exact .other (ihchildren hchildren') (ih h')

end Meet

structure Front.Bared (f g : Front) : Prop where
  hidden : f.hidden = g.hidden
  annotations : List.Forall₂ Bares f.annotations g.annotations

/-- An item that has been read as far, the second time without layout. -/
inductive Reading.Bared : Reading → Reading → Prop where
  | front {f g : Front} : f.Bared g → Reading.Bared (.front f) (.front g)
  | annotating {f g : Front} {name : List Token} : f.Bared g → (∀ t ∈ name, t.Spaced) →
      Reading.Bared (.annotating f name) (.annotating g (name.flatMap Token.bare))
  | named {f g : Front} (form : TypeForm) : f.Bared g →
      Reading.Bared (.named f form) (.named g form)
  | maybeRecord {f g : Front} : f.Bared g →
      Reading.Bared (.maybeRecord f none) (.maybeRecord g none)
  | maybeNamed {f g : Front} {name name' : Token} : f.Bared g → name.text = name'.text →
      Reading.Bared (.maybeRecord f (some name)) (.maybeRecord g (some name'))
  | header {f g : Front} (form : TypeForm) {name name' : Token} : f.Bared g →
      name.text = name'.text → Reading.Bared (.header f form name) (.header g form name')
  | package {f g : Front} {name : List Token} : f.Bared g → (∀ t ∈ name, t.Spaced) →
      Reading.Bared (.package f name) (.package g (name.flatMap Token.bare))
  | condition : Reading.Bared .condition .condition
  | rest (inExpression mayBeLabel : Bool) :
      Reading.Bared (.rest inExpression mayBeLabel) (.rest inExpression mayBeLabel)
  | constants : Reading.Bared .constants .constants

theorem Front.bared_start : Front.start.Bared Front.start := ⟨rfl, .nil⟩

theorem Front.bared_inStatement : Front.inStatement.Bared Front.inStatement := ⟨rfl, .nil⟩

theorem Reading.bared_start : Reading.start.Bared Reading.start := .front Front.bared_start

theorem Front.Bared.annotate {f g : Front} (h : f.Bared g) {name : List Token}
    (hspaced : ∀ t ∈ name, t.Spaced) :
    (f.annotate name).Bared (g.annotate (name.flatMap Token.bare)) :=
  ⟨h.hidden, List.rel_append h.annotations (.cons (bares_slice hspaced) .nil)⟩

theorem Front.Bared.wrap {f g : Front} (h : f.Bared g) {m n : Node} (hnode : Alike Bares [m] [n]) :
    Alike Bares [f.wrap m] [g.wrap n] := by
  rw [Front.wrap, Front.wrap, h.hidden]
  split
  · exact .other hnode .nil
  · exact hnode

theorem bared_restLeaf (inExpression mayBeLabel : Bool) (t : Token) :
    (restLeaf inExpression mayBeLabel t).Bared (restLeaf inExpression mayBeLabel t) := by
  rw [restLeaf]
  split_ifs
  · exact Reading.bared_start
  · exact .front Front.bared_inStatement
  · exact .rest _ _

theorem Reading.Bared.ite {p : Prop} [Decidable p] {q q' r r' : Reading} (hq : q.Bared q')
    (hr : r.Bared r') : (if p then q else r).Bared (if p then q' else r') := by
  split
  · exact hq
  · exact hr

theorem Front.Bared.frontLeaf {f g : Front} (h : f.Bared g) (t : Token) :
    (frontLeaf f t).Bared (frontLeaf g t) := by
  rw [SourceFile.frontLeaf, SourceFile.frontLeaf]
  split
  · split_ifs
    · exact .front h
    · exact .maybeRecord h
    · exact .package h (fun _ hmem => absurd hmem List.not_mem_nil)
    · exact .front Front.bared_inStatement
    · exact .condition
    · split
      · exact .named _ h
      · exact .rest _ _
  · split_ifs
    · exact .annotating h (fun _ hmem => absurd hmem List.not_mem_nil)
    · exact bared_restLeaf _ _ _

theorem continuesName_bare (name : List Token) (t : Token) :
    continuesName (name.flatMap Token.bare) t.strip = continuesName name t := by
  obtain rfl | ⟨init, last, rfl⟩ := List.eq_nil_or_concat name
  · rfl
  · rw [List.concat_eq_append, List.flatMap_append, List.flatMap_singleton]
    have hne := last.bare_ne_nil
    have hshape := Token.shape_of_mem_bare (List.getLast_mem hne)
    rw [continuesName, continuesName, List.getLast?_append_of_ne_nil _ hne,
      List.getLast?_eq_some_getLast hne, List.getLast?_concat]
    simp only [hshape]
    rfl

theorem Reading.Bared.stepLeaf {r r' : Reading} (h : r.Bared r') {t : Token} (hspaced : t.Spaced)
    (halone : ¬ t.IsClosers) :
    Alike Bares (stepLeaf r t).1 (stepLeaf r' t.strip).1 ∧
      (stepLeaf r t).2.Bared (stepLeaf r' t.strip).2 := by
  -- Names grow by the same token, so the two stay related.
  have hsnoc : ∀ name : List Token,
      (name ++ [t]).flatMap Token.bare = name.flatMap Token.bare ++ [t.strip] := by
    intro name
    rw [List.flatMap_append, List.flatMap_singleton, Token.bare_of_not_closers halone]
  cases h with
  | front hf => exact ⟨.nil, hf.frontLeaf t⟩
  | @annotating f g name hf hname =>
    rw [SourceFile.stepLeaf, SourceFile.stepLeaf, continuesName_bare, ← hsnoc]
    split
    · exact ⟨.nil, .annotating hf (List.forall_mem_append.2
        ⟨hname, List.forall_mem_singleton.2 hspaced⟩)⟩
    · exact ⟨.nil, (hf.annotate hname).frontLeaf t⟩
  | named form hf => exact ⟨.nil, .ite (.header form hf rfl) (bared_restLeaf _ _ t)⟩
  | maybeRecord hf => exact ⟨.nil, .ite (.maybeNamed hf rfl) (bared_restLeaf _ _ t)⟩
  | maybeNamed hf hname =>
    exact ⟨.nil, .ite (.header .ofRecord hf hname) (bared_restLeaf _ _ t)⟩
  | header form hf hname => exact ⟨.nil, .ite Reading.bared_start (.header form hf hname)⟩
  | @package f g name hf hname =>
    rw [SourceFile.stepLeaf, SourceFile.stepLeaf, ← hsnoc, show t.strip.text = t.text from rfl]
    split
    · exact ⟨hf.wrap (.package (bares_slice hname) .nil), Reading.bared_start⟩
    · exact ⟨.nil, .package hf (List.forall_mem_append.2
        ⟨hname, List.forall_mem_singleton.2 hspaced⟩)⟩
  | condition => exact ⟨.nil, Front.bared_inStatement.frontLeaf t⟩
  | rest inExpression mayBeLabel => exact ⟨.nil, bared_restLeaf _ _ t⟩
  | constants => exact ⟨.nil, .ite Reading.bared_start .constants⟩

def closings : List (List Char) := ['>'] :: Token.closers

def IsClosing (t : Token) : Prop := t.shape = .sign ∧ t.text ∈ closings

theorem isClosing_closer : IsClosing Token.closer := ⟨rfl, List.mem_cons_self⟩

theorem Token.IsClosers.isClosing {t : Token} (h : t.IsClosers) : IsClosing t :=
  ⟨h.1, List.mem_cons_of_mem _ h.2⟩

theorem IsClosing.text_ne {t : Token} (h : IsClosing t) {text : List Char}
    (hother : text ∉ closings) : t.text ≠ text := by
  rintro rfl
  exact hother h.2

theorem IsClosing.word_ne {t : Token} (h : IsClosing t) {word : String}
    (hother : word.toList ∉ closings) : String.ofList t.text ≠ word := by
  rintro rfl
  exact hother (by rw [String.toList_ofList]; exact h.2)

theorem IsClosing.restLeaf {t : Token} (h : IsClosing t) (inExpression mayBeLabel : Bool) :
    restLeaf inExpression mayBeLabel t = .rest inExpression false := by
  have hend : String.ofList t.text ≠ ";" := h.word_ne (by decide)
  have hlabel : String.ofList t.text ≠ ":" := h.word_ne (by decide)
  have hmarks : ∀ mark ∈ expressionMarks, mark.toList ∉ closings := by decide
  have hmark : expressionMarks.contains (String.ofList t.text) = false := by
    rw [List.contains_eq_mem, decide_eq_false_iff_not]
    exact fun hmem => h.word_ne (hmarks _ hmem) rfl
  rw [SourceFile.restLeaf, if_neg hend, if_neg fun hl => hlabel hl.1, hmark, Bool.or_false]

theorem IsClosing.frontLeaf {t : Token} (h : IsClosing t) (f : Front) :
    frontLeaf f t = .rest false false := by
  rw [SourceFile.frontLeaf]
  simp only [h.1]
  rw [if_neg (h.word_ne (by decide)), h.restLeaf]

/-- After a row of closing signs. Only in the name of a package does it matter how many there
are. -/
def Reading.close (r : Reading) (ts : List Token) : Reading :=
  match r with
  | .package f name => .package f (name ++ ts)
  | .header f form name => .header f form name
  | .constants => .constants
  | .rest inExpression _ => .rest inExpression false
  | _ => .rest false false

theorem Reading.close_close (r : Reading) (ts us : List Token) :
    (r.close ts).close us = r.close (ts ++ us) := by
  cases r with
  | package f name => exact congrArg (Reading.package f) (List.append_assoc name ts us)
  | _ => rfl

theorem IsClosing.shape_ne_word {t : Token} (h : IsClosing t) : t.shape ≠ .word := by
  rw [h.1]
  exact Shape.noConfusion

theorem IsClosing.not_continuesName {t : Token} (h : IsClosing t) (name : List Token) :
    continuesName name t = false := by
  have hdot : t.text ≠ ['.'] := h.text_ne (by decide)
  rw [continuesName]
  split
  · simp [h.shape_ne_word, hdot]
  · simp [h.shape_ne_word]

theorem IsClosing.stepLeaf_nodes {t : Token} (h : IsClosing t) (r : Reading) :
    (stepLeaf r t).1 = [] := by
  cases r with
  | annotating f name => rw [stepLeaf, h.not_continuesName, if_neg Bool.false_ne_true]
  | maybeRecord f name => cases name <;> rfl
  | package f name => rw [stepLeaf, if_neg (h.text_ne (by decide))]
  | _ => rfl

theorem IsClosing.stepLeaf_next {t : Token} (h : IsClosing t) (r : Reading) :
    (stepLeaf r t).2 = r.close [t] := by
  have hend : t.text ≠ [';'] := h.text_ne (by decide)
  cases r with
  | front f => exact h.frontLeaf f
  | annotating f name =>
    rw [stepLeaf, h.not_continuesName, if_neg Bool.false_ne_true]
    exact h.frontLeaf _
  | named f form => exact (if_neg h.shape_ne_word).trans (h.restLeaf false false)
  | maybeRecord f name =>
    cases name with
    | none => exact (if_neg h.shape_ne_word).trans (h.restLeaf false true)
    | some name => exact (if_neg (h.text_ne (by decide))).trans (h.restLeaf false false)
  | header f form name => exact if_neg hend
  | package f name => rw [stepLeaf, if_neg hend, Reading.close]
  | condition => exact h.frontLeaf _
  | rest inExpression mayBeLabel => exact h.restLeaf inExpression mayBeLabel
  | constants => exact if_neg hend

theorem Reading.behind_close (r : Reading) (ts : List Token) (nodes : List Node) :
    r.behind (r.close ts) nodes = nodes := by
  cases r <;> rfl

theorem nodesOf_closings {ts : List Token} (hne : ts ≠ []) (h : ∀ t ∈ ts, IsClosing t)
    (r : Reading) (rest : List Tree) :
    nodesOf r (ts.map Tree.leaf ++ rest) = nodesOf (r.close ts) rest := by
  induction ts generalizing r with
  | nil => exact absurd rfl hne
  | cons t ts ih =>
    obtain ⟨ht, hts⟩ := List.forall_mem_cons.1 h
    have hstep : nodesOf r (Tree.leaf t :: (ts.map Tree.leaf ++ rest)) =
        nodesOf (r.close [t]) (ts.map Tree.leaf ++ rest) := by
      simp only [nodesOf, Tree.nodes, ht.stepLeaf_nodes, ht.stepLeaf_next, List.nil_append,
        Reading.behind_close]
    rw [List.map_cons, List.cons_append, hstep]
    by_cases hnil : ts = []
    · rw [hnil, List.map_nil, List.nil_append]
    · rw [ih hnil hts, Reading.close_close, List.singleton_append]

theorem Token.IsClosers.isClosing_bare {t : Token} (h : t.IsClosers) :
    ∀ u ∈ t.bare, IsClosing u := by
  intro u hu
  rw [Token.bare, if_pos h] at hu
  rw [List.eq_of_mem_replicate hu]
  exact isClosing_closer

theorem Reading.Bared.close {r r' : Reading} (h : r.Bared r') {t : Token} (hspaced : t.Spaced) :
    (r.close [t]).Bared (r'.close t.bare) := by
  cases h with
  | @package f g name hf hname =>
    have hsnoc : (name ++ [t]).flatMap Token.bare = name.flatMap Token.bare ++ t.bare := by
      rw [List.flatMap_append, List.flatMap_singleton]
    rw [Reading.close, Reading.close, ← hsnoc]
    exact .package hf (List.forall_mem_append.2 ⟨hname, List.forall_mem_singleton.2 hspaced⟩)
  | header form hf hname => exact .header form hf hname
  | constants => exact .constants
  | _ => exact .rest _ _

theorem Reading.Bared.inner {r r' : Reading} (h : r.Bared r') (b : Bracket) :
    (r.inner b).Bared (r'.inner b) := by
  cases h with
  | header form => cases form <;> cases b <;> first | exact .constants | exact bared_start
  | _ => exact bared_start

theorem Reading.Bared.isAmongConstants {r r' : Reading} (h : r.Bared r') :
    r.isAmongConstants = r'.isAmongConstants := by
  cases h <;> rfl

theorem Reading.Bared.behind {r r' next next' : Reading} (h : r.Bared r') (hnext : next.Bared next')
    {ms ns : List Node} (hnodes : Alike Bares ms ns) :
    Alike Bares (r.behind next ms) (r'.behind next' ns) := by
  rw [Reading.behind, Reading.behind, h.isAmongConstants, hnext.isAmongConstants]
  split
  · exact .behindConstants hnodes .nil
  · exact hnodes

theorem bared_restGroup (inExpression : Bool) (b : Bracket) :
    (restGroup inExpression b).Bared (restGroup inExpression b) :=
  .ite Reading.bared_start (.rest _ _)

theorem Reading.Bared.stepGroup {r r' : Reading} (h : r.Bared r') (b : Bracket)
    {items items' : List Node} (hitems : Alike Bares items items') :
    Alike Bares (stepGroup r b items).1 (stepGroup r' b items').1 ∧
      (stepGroup r b items).2.Bared (stepGroup r' b items').2 := by
  have hother : Alike Bares [.other items] [.other items'] := .other hitems .nil
  cases h with
  | annotating hf hname =>
    exact ⟨hother, .ite (.front (hf.annotate hname)) (bared_restGroup false b)⟩
  | maybeNamed hf hname =>
    exact ⟨hother, .ite (.header .ofRecord hf hname) (bared_restGroup false b)⟩
  | header form hf hname =>
    rw [SourceFile.stepGroup, SourceFile.stepGroup, hname]
    split
    · exact ⟨hf.wrap (.type form _ hf.annotations hitems .nil), Reading.bared_start⟩
    · exact ⟨hother, .header form hf hname⟩
  | condition => exact ⟨hother, .ite (.front Front.bared_inStatement) (bared_restGroup false b)⟩
  | constants => exact ⟨hother, .constants⟩
  | rest inExpression => exact ⟨hother, bared_restGroup inExpression b⟩
  | _ => exact ⟨hother, bared_restGroup false b⟩

/-- Without layout the trees have the same nodes, up to the names that are written with it. -/
theorem Reading.Bared.nodesOf {ts us : List Tree} (h : Tree.Bared ts us) {r r' : Reading}
    (hr : r.Bared r') : Alike Bares (nodesOf r ts) (nodesOf r' us) := by
  induction h generalizing r r' with
  | nil => exact .nil
  | @leaf t ts us hspaced _ ih =>
    by_cases hclosers : t.IsClosers
    · -- One token against a row: both readings end where a single closing sign leads.
      have hself := nodesOf_closings (List.cons_ne_nil t [])
        (List.forall_mem_singleton.2 hclosers.isClosing) r ts
      rw [List.map_singleton, List.singleton_append] at hself
      rw [hself, nodesOf_closings t.bare_ne_nil hclosers.isClosing_bare]
      exact ih (hr.close hspaced)
    · obtain ⟨hnodes, hnext⟩ := hr.stepLeaf hspaced hclosers
      rw [Token.bare_of_not_closers hclosers]
      exact hnodes.append (hr.behind hnext (ih hnext))
  | group b _ _ ihinner ih =>
    obtain ⟨hnodes, hnext⟩ := hr.stepGroup b (ihinner (hr.inner b))
    exact hnodes.append (hr.behind hnext (ih hnext))

/-- Sources with the same tokens have the same nodes, up to the spelling of names. -/
theorem SameTokens.alike {s t : String} (h : SameTokens s t) :
    Alike Respells (nodesOfText s) (nodesOfText t) := by
  have hbares : ∀ source : String, Alike Bares (nodesOfText source)
      (nodesOf .start (Tree.ofTokens ((tokensOf source).flatMap Token.bare))) := fun source =>
    Reading.bared_start.nodesOf (Tree.bared_ofTokens (spaced_of_scan .start source.toList))
  -- Both sources are read as their tokens without layout are.
  refine (hbares s).meet (fun m n bare hm hn => ⟨bare, hm, hn⟩) ?_
  rw [h]
  exact hbares t

end ClasspathSymbols.SourceFile
