import ClasspathSymbols.SourceFile.Unit
import Mathlib.Data.List.Induction
import Mathlib.Data.List.TakeWhile

/-! # Nested types of a source file

A type of a source file stands at the end of a chain of names: first a type of the file, then each
time a member of the one before. The declarations of a file list the end of every chain, under the
package that was declared last in front of the chain. -/
namespace ClasspathSymbols.SourceFile

/-- A chain of names leads from the node to a type with these annotations. The node may stand
directly in the body of a type. -/
inductive Node.Declares : Bool → Node → List String → List String → Prop where
  | self (inBody : Bool) (form : TypeForm) (annotations : List String) (name : String)
      (members : List Node) :
      Node.Declares inBody (.type form annotations name members) [name] annotations
  | member (inBody : Bool) (form : TypeForm) (outer : List String) (name : String)
      {members : List Node} {m : Node} {chain annotations : List String} :
      m ∈ members → Node.Declares true m chain annotations →
      Node.Declares inBody (.type form outer name members) (name :: chain) annotations
  | behind {members : List Node} {m : Node} {chain annotations : List String} :
      m ∈ members → Node.Declares false m chain annotations →
      Node.Declares true (.behindConstants members) chain annotations

theorem Node.Declares.chain_ne_nil {inBody : Bool} {n : Node} {chain annotations : List String}
    (h : n.Declares inBody chain annotations) : chain ≠ [] := by
  induction h with
  | self | member => exact List.cons_ne_nil _ _
  | behind _ _ ih => exact ih

theorem declares_behindConstants {inBody : Bool} {members : List Node}
    {chain annotations : List String} :
    (Node.behindConstants members).Declares inBody chain annotations ↔
      inBody ∧ ∃ m ∈ members, m.Declares false chain annotations := by
  constructor
  · rintro ⟨⟩
    rename_i m hm h
    exact ⟨rfl, m, hm, h⟩
  · rintro ⟨rfl, m, hm, h⟩
    exact .behind hm h

def endOfChain (outer : String) (chain annotations : List String) : DeclaredType :=
  ⟨outer ++ "$".intercalate chain, isDeprecated annotations⟩

theorem endOfChain_singleton (outer name : String) (annotations : List String) :
    endOfChain outer [name] annotations = ⟨outer ++ name, isDeprecated annotations⟩ := by
  rw [endOfChain, String.intercalate_singleton]

theorem endOfChain_cons (outer name : String) {chain : List String} (h : chain ≠ [])
    (annotations : List String) :
    endOfChain outer (name :: chain) annotations =
      endOfChain (outer ++ name ++ String.singleton BinaryName.nestingSign) chain annotations := by
  have hsign : String.singleton BinaryName.nestingSign = "$" := rfl
  rw [endOfChain, endOfChain, String.intercalate_cons_of_ne_nil h, hsign]
  simp only [String.append_assoc]

mutual

theorem Node.mem_types (inBody : Bool) (outer : String) (t : DeclaredType) : ∀ n : Node,
    t ∈ n.types inBody outer ↔ ∃ chain annotations,
      n.Declares inBody chain annotations ∧ t = endOfChain outer chain annotations
  | .package name => by
    constructor
    · intro h; cases h
    · rintro ⟨_, _, h, -⟩; cases h
  | .other children => by
    constructor
    · intro h; cases h
    · rintro ⟨_, _, h, -⟩; cases h
  | .behindConstants members => by
    simp only [declares_behindConstants]
    rw [Node.types]
    split
    · rw [mem_typesOf false outer t members]
      constructor
      · rintro ⟨m, hm, chain, annotations, h, rfl⟩
        exact ⟨chain, annotations, ⟨‹_›, m, hm, h⟩, rfl⟩
      · rintro ⟨chain, annotations, ⟨-, m, hm, h⟩, rfl⟩
        exact ⟨m, hm, chain, annotations, h, rfl⟩
    · exact iff_of_false List.not_mem_nil fun ⟨_, _, ⟨hbody, _⟩, _⟩ => absurd hbody ‹_›
  | .type form annotations name members => by
    rw [Node.types, List.mem_cons, mem_typesOf true _ t members]
    constructor
    · rintro (rfl | ⟨m, hm, chain, inner, h, rfl⟩)
      · exact ⟨_, _, .self inBody form annotations name members,
          (endOfChain_singleton _ _ _).symm⟩
      · exact ⟨_, _, .member inBody form annotations name hm h,
          (endOfChain_cons outer name h.chain_ne_nil inner).symm⟩
    · rintro ⟨_, _, h, rfl⟩
      cases h with
      | self => exact Or.inl (endOfChain_singleton _ _ _)
      | member _ _ _ _ hm h =>
        exact Or.inr ⟨_, hm, _, _, h, endOfChain_cons outer name h.chain_ne_nil _⟩

theorem mem_typesOf (inBody : Bool) (outer : String) (t : DeclaredType) : ∀ nodes : List Node,
    t ∈ typesOf inBody outer nodes ↔ ∃ n ∈ nodes, ∃ chain annotations,
      n.Declares inBody chain annotations ∧ t = endOfChain outer chain annotations
  | [] => by
    constructor
    · intro h; cases h
    · rintro ⟨_, h, -⟩; cases h
  | n :: rest => by
    rw [typesOf, List.mem_append, Node.mem_types inBody outer t n, mem_typesOf inBody outer t rest]
    simp only [List.mem_cons, or_and_right, exists_or, exists_eq_left]

end

def lastPackage (nodes : List Node) : String :=
  (nodes.filterMap fun n => match n with
    | .package name => some name
    | _ => none).getLast?.getD ""

theorem ofNodes_snoc (nodes : List Node) (n : Node) :
    Declarations.ofNodes (nodes ++ [n]) = (Declarations.ofNodes nodes).add n := by
  rw [Declarations.ofNodes, List.foldl_append]
  rfl

theorem ofNodes_package (nodes : List Node) :
    (Declarations.ofNodes nodes).package = lastPackage nodes := by
  induction nodes using List.reverseRecOn with
  | nil => rfl
  | append_singleton nodes n ih =>
    rw [ofNodes_snoc, lastPackage, List.filterMap_append]
    cases n with
    | package name => simp [Declarations.add]
    | type | behindConstants | other => simpa [Declarations.add, lastPackage] using ih

theorem types_ofNodes_snoc (nodes : List Node) (n : Node) :
    (Declarations.ofNodes (nodes ++ [n])).types =
      (Declarations.ofNodes nodes).types ++ n.types false (inPackage (lastPackage nodes)) := by
  rw [ofNodes_snoc, ← ofNodes_package]
  cases n with
  | package name => simp [Declarations.add, Node.types]
  | type | behindConstants | other => rfl

/-- Among the nodes is a type at the end of the chain, and the package is in force there. -/
def DeclaresIn (nodes : List Node) (package : String) (chain annotations : List String) : Prop :=
  ∃ before n after, nodes = before ++ n :: after ∧ lastPackage before = package ∧
    n.Declares false chain annotations

theorem declaresIn_snoc {nodes : List Node} {n : Node} {package : String}
    {chain annotations : List String} :
    DeclaresIn (nodes ++ [n]) package chain annotations ↔
      DeclaresIn nodes package chain annotations ∨
        lastPackage nodes = package ∧ n.Declares false chain annotations := by
  constructor
  · rintro ⟨before, m, after, heq, hp, h⟩
    rcases List.eq_nil_or_concat after with rfl | ⟨after, x, rfl⟩
    · obtain ⟨rfl, hn⟩ := List.append_inj' heq rfl
      obtain rfl := List.singleton_inj.1 hn
      exact Or.inr ⟨hp, h⟩
    · rw [List.concat_eq_append, ← List.cons_append, ← List.append_assoc] at heq
      exact Or.inl ⟨before, m, after, (List.append_inj' heq rfl).1, hp, h⟩
  · rintro (⟨before, m, after, rfl, hp, h⟩ | ⟨hp, h⟩)
    · exact ⟨before, m, after ++ [n], by simp, hp, h⟩
    · exact ⟨nodes, n, [], rfl, hp, h⟩

/-- The declarations of a file are the ends of its chains, each in the package in force there. -/
theorem mem_types_ofNodes {nodes : List Node} {t : DeclaredType} :
    t ∈ (Declarations.ofNodes nodes).types ↔ ∃ package chain annotations,
      DeclaresIn nodes package chain annotations ∧
        t = endOfChain (inPackage package) chain annotations := by
  induction nodes using List.reverseRecOn with
  | nil =>
    constructor
    · intro h; cases h
    · rintro ⟨_, _, _, ⟨before, n, after, heq, -⟩, -⟩
      exact absurd heq (by simp)
  | append_singleton nodes n ih =>
    rw [types_ofNodes_snoc, List.mem_append, ih, Node.mem_types]
    simp only [declaresIn_snoc]
    constructor
    · rintro (⟨package, chain, annotations, h, rfl⟩ | ⟨chain, annotations, h, rfl⟩)
      · exact ⟨package, chain, annotations, Or.inl h, rfl⟩
      · exact ⟨_, chain, annotations, Or.inr ⟨rfl, h⟩, rfl⟩
    · rintro ⟨package, chain, annotations, h | ⟨rfl, h⟩, rfl⟩
      · exact Or.inl ⟨package, chain, annotations, h, rfl⟩
      · exact Or.inr ⟨chain, annotations, h, rfl⟩

theorem gapLength_cons {c : Char} (hslash : c ≠ '/') (hlayout : isLayout c) (s : List Char) :
    gapLength .between (c :: s) = gapLength .between s + 1 := by
  rw [gapLength.eq_def]
  split
  case h_3 heq =>
    obtain ⟨rfl, rfl⟩ := List.cons.inj heq
    rw [if_pos hlayout]
  all_goals simp_all

theorem gapLength_of_blank {s : List Char} (h : ∀ c ∈ s, Text.isBlank c) :
    gapLength .between s = s.length := by
  induction s with
  | nil => rfl
  | cons c s ih =>
    have hc := h c List.mem_cons_self
    have hslash : c ≠ '/' := by
      rintro rfl
      exact absurd hc (by decide)
    have hlayout : isLayout c = true := by rw [isLayout, hc, Bool.true_or]
    rw [gapLength_cons hslash hlayout, ih fun d hd => h d (List.mem_cons_of_mem c hd),
      List.length_cons]

theorem blank_of_trim {s : List Char} (h : Text.trim s = []) : ∀ c ∈ s, Text.isBlank c := by
  have hend : ∀ c ∈ s.dropWhile Text.isBlank, Text.isBlank c := by
    rw [Text.trim, Text.trimEnd, List.reverse_eq_nil_iff, List.dropWhile_eq_nil_iff] at h
    exact fun c hc => h c (List.mem_reverse.2 hc)
  intro c hc
  rw [← List.takeWhile_append_dropWhile (p := Text.isBlank) (l := s)] at hc
  rcases List.mem_append.1 hc with hc | hc
  · exact List.mem_takeWhile_imp hc
  · exact hend c hc

theorem scan_of_blank {s : List Char} (h : ∀ c ∈ s, Text.isBlank c) : scan .start s = ([], s) := by
  have hgap : s.drop (if Context.start.inside.isSome then 0 else gapLength .between s) = [] := by
    rw [if_neg (by decide), gapLength_of_blank h, List.drop_length]
  rw [scan]
  split
  · rfl
  · rename_i heq
    rw [hgap] at heq
    cases heq

theorem declarations?_of_nodes {source : String} (h : nodesOfText source ≠ []) :
    declarations? source = some (.ofNodes (nodesOfText source)) := by
  rw [declarations?]
  refine if_neg fun hblank => h ?_
  rw [nodesOfText, scan_of_blank (blank_of_trim hblank)]
  rfl

end ClasspathSymbols.SourceFile
