import ClasspathSymbols.SourceFile.Tree
import Mathlib.Data.List.Forall2

/-! # Tokens without their layout

The white space and the comments between the tokens of a source can be dropped. Then sources that
are laid out in different ways have the same tokens, and the brackets of the tokens make the same
trees. A closing sign of type arguments may be written together with the next, so each of them
counts as a token of its own. -/
namespace ClasspathSymbols.SourceFile

def tokensOf (source : String) : List Token := (scan .start source.toList).1

namespace Token

def closers : List (List Char) := [['>', '>'], ['>', '>', '>']]

def closer : Token := ⟨[], ['>'], .sign⟩

def IsClosers (t : Token) : Prop := t.shape = .sign ∧ t.text ∈ closers

instance (t : Token) : Decidable t.IsClosers := inferInstanceAs (Decidable (_ ∧ _))

def strip (t : Token) : Token := { t with gap := [] }

/-- What a token is without layout: itself, or as many closing signs as it puts together. -/
def bare (t : Token) : List Token :=
  if t.IsClosers then List.replicate t.text.length closer else [t.strip]

theorem bare_of_not_closers {t : Token} (h : ¬ t.IsClosers) : t.bare = [t.strip] := if_neg h

theorem bare_of_shape {t : Token} (h : t.shape ≠ .sign) : t.bare = [t.strip] :=
  bare_of_not_closers fun hclosers => h hclosers.1

theorem bare_of_closers {t : Token} (h : t.IsClosers) :
    ∃ n, t.bare = closer :: closer :: List.replicate n closer := by
  obtain ⟨-, htext⟩ := id h
  rw [bare, if_pos h]
  simp only [closers, List.mem_cons, List.not_mem_nil, or_false] at htext
  rcases htext with htext | htext
  · exact ⟨0, by rw [htext]; rfl⟩
  · exact ⟨1, by rw [htext]; rfl⟩

theorem eq_of_mem_bare {t u : Token} (h : u ∈ t.bare) :
    t.IsClosers ∧ u = closer ∨ u = t.strip := by
  by_cases hclosers : t.IsClosers
  · rw [bare, if_pos hclosers] at h
    exact Or.inl ⟨hclosers, List.eq_of_mem_replicate h⟩
  · rw [bare_of_not_closers hclosers] at h
    exact Or.inr (List.mem_singleton.1 h)

theorem gap_of_mem_bare {t u : Token} (h : u ∈ t.bare) : u.gap = [] := by
  obtain ⟨-, rfl⟩ | rfl := eq_of_mem_bare h <;> rfl

theorem shape_of_mem_bare {t u : Token} (h : u ∈ t.bare) : u.shape = t.shape := by
  obtain ⟨hclosers, rfl⟩ | rfl := eq_of_mem_bare h
  · exact hclosers.1.symm
  · rfl

theorem bare_ne_nil (t : Token) : t.bare ≠ [] := by
  by_cases h : t.IsClosers
  · obtain ⟨n, hn⟩ := bare_of_closers h
    rw [hn]
    exact List.cons_ne_nil _ _
  · rw [bare_of_not_closers h]
    exact List.cons_ne_nil _ _

theorem spelling_bare (t : Token) : t.bare.flatMap spelling = t.text := by
  by_cases h : t.IsClosers
  · obtain ⟨-, htext⟩ := id h
    rw [bare, if_pos h]
    simp only [closers, List.mem_cons, List.not_mem_nil, or_false] at htext
    rcases htext with htext | htext <;> rw [htext] <;> rfl
  · rw [bare_of_not_closers h, List.flatMap_cons, List.flatMap_nil, List.append_nil]
    rfl

/-- What is in front of a token is nothing, or begins like white space or a comment. -/
def Spaced (t : Token) : Prop := ∀ c ∈ t.gap.head?, isLayout c ∨ c = '/'

end Token

theorem layout_of_gapLength {c : Char} {rest : List Char}
    (h : 0 < gapLength .between (c :: rest)) : isLayout c ∨ c = '/' := by
  rw [gapLength.eq_def] at h
  split at h
  case h_1 heq | h_2 heq => exact Or.inr (List.cons.inj heq).1
  case h_3 heq =>
    obtain ⟨rfl, rfl⟩ := List.cons.inj heq
    refine Or.inl (of_not_not fun hc => ?_)
    rw [if_neg hc] at h
    exact absurd h (Nat.lt_irrefl 0)
  all_goals simp_all

theorem spaced_of_scan (c : Context) (s : List Char) : ∀ t ∈ (scan c s).1, t.Spaced := by
  fun_induction scan c s with
  | case1 => exact fun t ht => absurd ht List.not_mem_nil
  | case2 c s gap d rest h length shape c' heq length' tokens ending hscan ih =>
    rw [hscan] at ih
    refine List.forall_mem_cons.2 ⟨?_, ih⟩
    intro x hx
    rw [List.head?_take] at hx
    by_cases hgap : gap = 0
    · rw [if_pos hgap] at hx
      cases hx
    · -- Then the token is outside of strings, and the gap is as long as `gapLength` says.
      rw [if_neg hgap] at hx
      obtain ⟨ys, rfl⟩ := List.head?_eq_some_iff.1 hx
      obtain ⟨-, hpos⟩ := ite_ne_left_iff.1 hgap
      exact layout_of_gapLength (Nat.pos_of_ne_zero hpos.symm)

namespace Tree

inductive Bared : List Tree → List Tree → Prop where
  | nil : Bared [] []
  | leaf {t : Token} {ts us : List Tree} : t.Spaced → Bared ts us →
      Bared (.leaf t :: ts) (t.bare.map .leaf ++ us)
  | group (b : Bracket) {inner inner' ts us : List Tree} : Bared inner inner' → Bared ts us →
      Bared (.group b inner :: ts) (.group b inner' :: us)

theorem Bared.append {ts us ts' us' : List Tree} (h : Bared ts us) (h' : Bared ts' us') :
    Bared (ts ++ ts') (us ++ us') := by
  induction h with
  | nil => exact h'
  | leaf hspaced _ ih =>
    rw [List.cons_append, List.append_assoc]
    exact .leaf hspaced ih
  | group b hinner _ _ ih => exact .group b hinner ih

-- The builder keeps its rows in reverse, so a tree is added in front.
theorem Bared.snoc_leaf {ts us : List Tree} {t : Token} (h : Bared ts.reverse us.reverse)
    (hspaced : t.Spaced) :
    Bared (Tree.leaf t :: ts).reverse ((t.bare.map Tree.leaf).reverse ++ us).reverse := by
  rw [List.reverse_cons, List.reverse_append, List.reverse_reverse]
  refine h.append ?_
  simpa using Bared.leaf hspaced .nil

theorem Bared.snoc_group {ts us inner inner' : List Tree} (h : Bared ts.reverse us.reverse)
    (b : Bracket) (hinner : Bared inner inner') :
    Bared (Tree.group b inner :: ts).reverse (Tree.group b inner' :: us).reverse := by
  rw [List.reverse_cons, List.reverse_cons]
  exact h.append (.group b hinner .nil)

structure Frame.Bared (f g : Frame) : Prop where
  bracket : f.bracket = g.bracket
  before : Tree.Bared f.before.reverse g.before.reverse

structure Builder.Bared (b c : Builder) : Prop where
  here : Tree.Bared b.here.reverse c.here.reverse
  frames : List.Forall₂ Frame.Bared b.frames c.frames

theorem Builder.Bared.bracket {b c : Builder} (h : b.Bared c) :
    b.frames.head?.map Frame.bracket = c.frames.head?.map Frame.bracket := by
  obtain ⟨here, frames⟩ := b
  obtain ⟨here', frames'⟩ := c
  obtain ⟨-, hframes⟩ := h
  cases hframes with
  | nil => rfl
  | cons hf _ => exact congrArg some hf.bracket

theorem Builder.Bared.close {b c : Builder} (h : b.Bared c) : b.close.Bared c.close := by
  obtain ⟨here, frames⟩ := b
  obtain ⟨here', frames'⟩ := c
  obtain ⟨hhere, hframes⟩ := h
  cases hframes with
  | nil => exact ⟨hhere, .nil⟩
  | cons hf hframes =>
    refine ⟨?_, hframes⟩
    simp only [Builder.close, ← hf.bracket]
    exact hf.before.snoc_group _ hhere

theorem Builder.Bared.closeAll {b c : Builder} (h : b.Bared c) (n : Nat) :
    (b.closeAll n).Bared (c.closeAll n) := by
  induction n generalizing b c with
  | zero => exact h
  | succ n ih => exact ih h.close

theorem Builder.Bared.finish {b c : Builder} (h : b.Bared c) :
    Tree.Bared b.finish c.finish := by
  rw [Builder.finish, Builder.finish, ← h.frames.length_eq]
  exact (h.closeAll _).here

def IsLeaf (t : Token) : Prop :=
  (∀ b, t.shape ≠ .opening b) ∧ ∀ b, t.shape ≠ .closing b

theorem push_of_isLeaf {t : Token} (h : IsLeaf t) (b : Builder) :
    b.push t = { b with here := .leaf t :: b.here } := by
  rw [Builder.push]
  split
  case h_1 bracket heq => exact absurd heq (h.1 bracket)
  case h_2 bracket heq => exact absurd heq (h.2 bracket)
  case h_3 => rfl

theorem foldl_push_of_isLeaf {ts : List Token} (h : ∀ t ∈ ts, IsLeaf t) (b : Builder) :
    ts.foldl Builder.push b = { b with here := (ts.map Tree.leaf).reverse ++ b.here } := by
  induction ts generalizing b with
  | nil => rfl
  | cons t ts ih =>
    obtain ⟨ht, hts⟩ := List.forall_mem_cons.1 h
    rw [List.foldl_cons, push_of_isLeaf ht, ih hts, List.map_cons, List.reverse_cons,
      List.append_assoc, List.singleton_append]

theorem Builder.Bared.push {b c : Builder} (h : b.Bared c) {t : Token} (hspaced : t.Spaced) :
    (b.push t).Bared (t.bare.foldl Builder.push c) := by
  by_cases hleaf : IsLeaf t
  · have hleaves : ∀ u ∈ t.bare, IsLeaf u := by
      intro u hu
      rw [IsLeaf, Token.shape_of_mem_bare hu]
      exact hleaf
    rw [push_of_isLeaf hleaf, foldl_push_of_isLeaf hleaves]
    exact ⟨h.here.snoc_leaf hspaced, h.frames⟩
  · have hshape : t.shape ≠ .sign := fun hsign => hleaf (by simp [IsLeaf, hsign])
    rw [Token.bare_of_shape hshape, List.foldl_cons, List.foldl_nil, Builder.push, Builder.push,
      show t.strip.shape = t.shape from rfl]
    split
    case h_1 bracket heq => exact ⟨.nil, .cons ⟨rfl, h.here⟩ h.frames⟩
    case h_2 bracket heq =>
      rw [← h.bracket]
      split
      · exact h.close
      · exact h
    case h_3 hopening hclosing => exact absurd ⟨hopening, hclosing⟩ hleaf

theorem Builder.Bared.foldl_push {ts : List Token} (hspaced : ∀ t ∈ ts, t.Spaced) {b c : Builder}
    (h : b.Bared c) :
    (ts.foldl Builder.push b).Bared ((ts.flatMap Token.bare).foldl Builder.push c) := by
  induction ts generalizing b c with
  | nil => exact h
  | cons t ts ih =>
    obtain ⟨ht, hts⟩ := List.forall_mem_cons.1 hspaced
    rw [List.foldl_cons, List.flatMap_cons, List.foldl_append]
    exact ih hts (h.push ht)

/-- Without layout the brackets make the same trees. -/
theorem bared_ofTokens {ts : List Token} (hspaced : ∀ t ∈ ts, t.Spaced) :
    Bared (ofTokens ts) (ofTokens (ts.flatMap Token.bare)) := by
  have hstart : Builder.start.Bared Builder.start := ⟨.nil, .nil⟩
  exact (hstart.foldl_push hspaced).finish

end Tree

end ClasspathSymbols.SourceFile
