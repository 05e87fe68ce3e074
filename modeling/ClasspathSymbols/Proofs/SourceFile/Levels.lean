import ClasspathSymbols.SourceFile.Declaration

/-! # Levels behind constants

What comes behind the constants of an enumeration is a level of its own in the body. The reader
makes such a level nowhere else, so that it stands directly in a type. -/
namespace ClasspathSymbols.SourceFile

namespace Node

/-- The node has levels behind constants only directly in types, where it may stand itself. -/
inductive Placed : Bool → Node → Prop where
  | package (inBody : Bool) (name : String) : Placed inBody (.package name)
  | type (inBody : Bool) (form : TypeForm) (annotations : List String) (name : String)
      {members : List Node} : (∀ m ∈ members, Placed true m) →
      Placed inBody (.type form annotations name members)
  | behindConstants {members : List Node} : (∀ m ∈ members, Placed false m) →
      Placed true (.behindConstants members)
  | other (inBody : Bool) {children : List Node} : (∀ m ∈ children, Placed false m) →
      Placed inBody (.other children)

variable {n : Node}

theorem Placed.anywhere (h : n.Placed false) (inBody : Bool) : n.Placed inBody := by
  cases h with
  | package _ name => exact .package inBody name
  | type _ form annotations name hmembers => exact .type inBody form annotations name hmembers
  | other _ hchildren => exact .other inBody hchildren

theorem Placed.wrap (h : n.Placed false) (f : Front) : (f.wrap n).Placed false := by
  rw [Front.wrap]
  split
  · exact .other false (List.forall_mem_singleton.2 h)
  · exact h

end Node

variable {r : Reading} {items : List Node}

theorem leaves_ite {p : Prop} [Decidable p] {q q' : Reading} (hq : q.isAmongConstants = false)
    (hq' : q'.isAmongConstants = false) : (if p then q else q').isAmongConstants = false := by
  split
  · exact hq
  · exact hq'

theorem restLeaf_leaves (inExpression mayBeLabel : Bool) (t : Token) :
    (restLeaf inExpression mayBeLabel t).isAmongConstants = false :=
  leaves_ite rfl (leaves_ite rfl rfl)

theorem frontLeaf_leaves (f : Front) (t : Token) : (frontLeaf f t).isAmongConstants = false := by
  rw [frontLeaf]
  split
  · refine leaves_ite rfl (leaves_ite rfl (leaves_ite rfl (leaves_ite rfl (leaves_ite rfl ?_))))
    split <;> rfl
  · exact leaves_ite rfl (restLeaf_leaves false false t)

theorem restGroup_leaves (inExpression : Bool) (b : Bracket) :
    (restGroup inExpression b).isAmongConstants = false := leaves_ite rfl rfl

theorem stepLeaf_leaves (h : r.isAmongConstants = false) (t : Token) :
    (stepLeaf r t).2.isAmongConstants = false := by
  cases r with
  | front f => exact frontLeaf_leaves f t
  | annotating f name =>
    rw [stepLeaf]
    split
    · rfl
    · exact frontLeaf_leaves _ t
  | named f form => exact leaves_ite rfl (restLeaf_leaves false false t)
  | maybeRecord f name =>
    cases name with
    | none => exact leaves_ite rfl (restLeaf_leaves false true t)
    | some name => exact leaves_ite rfl (restLeaf_leaves false false t)
  | header f form name => exact leaves_ite rfl rfl
  | package f name => rw [stepLeaf]; split <;> rfl
  | condition => exact frontLeaf_leaves _ t
  | rest inExpression mayBeLabel => exact restLeaf_leaves inExpression mayBeLabel t
  | constants => cases h

theorem stepGroup_leaves (h : r.isAmongConstants = false) (b : Bracket) :
    (stepGroup r b items).2.isAmongConstants = false := by
  cases r with
  | annotating f name => exact leaves_ite rfl (restGroup_leaves false b)
  | maybeRecord f name =>
    cases name with
    | none => exact restGroup_leaves false b
    | some name => exact leaves_ite rfl (restGroup_leaves false b)
  | header f form name => rw [stepGroup]; split <;> rfl
  | condition => exact leaves_ite rfl (restGroup_leaves false b)
  | rest inExpression mayBeLabel => exact restGroup_leaves inExpression b
  | constants => cases h
  | _ => exact restGroup_leaves false b

theorem Tree.nodes_leaves (h : r.isAmongConstants = false) (tree : Tree) :
    (tree.nodes r).2.isAmongConstants = false := by
  cases tree with
  | leaf t => exact stepLeaf_leaves h t
  | group b children => exact stepGroup_leaves h b

theorem stepLeaf_placed (r : Reading) (t : Token) : ∀ n ∈ (stepLeaf r t).1, n.Placed false := by
  have hnone : ∀ n ∈ ([] : List Node), n.Placed false := fun _ h => absurd h List.not_mem_nil
  cases r with
  | package f name =>
    rw [stepLeaf]
    split
    · exact List.forall_mem_singleton.2 (Node.Placed.wrap (.package false _) f)
    · exact hnone
  | annotating f name => rw [stepLeaf]; split <;> exact hnone
  | maybeRecord f name => cases name <;> exact hnone
  | _ => exact hnone

theorem stepGroup_placed (r : Reading) (b : Bracket)
    (h : ∀ n ∈ items, n.Placed (r.inner b).isAmongConstants) :
    ∀ n ∈ (stepGroup r b items).1, n.Placed false := by
  have hother : (r.inner b).isAmongConstants = false →
      ∀ n ∈ [Node.other items], n.Placed false := by
    intro hinner
    rw [hinner] at h
    exact List.forall_mem_singleton.2 (.other false h)
  cases r with
  | header f form name =>
    by_cases hb : b = .curly
    · rw [stepGroup, if_pos hb, List.forall_mem_singleton]
      refine Node.Placed.wrap (.type false _ _ _ fun n hn => ?_) f
      have hn := h n hn
      cases hinner : ((Reading.header f form name).inner b).isAmongConstants with
      | false => exact (hinner ▸ hn).anywhere true
      | true => exact hinner ▸ hn
    · rw [stepGroup, if_neg hb]
      refine hother ?_
      cases b with
      | curly => exact absurd rfl hb
      | _ => cases form <;> rfl
  | maybeRecord f name => cases name <;> exact hother rfl
  | _ => exact hother rfl

theorem behind_placed {next : Reading} (hnext : r.isAmongConstants = false →
      next.isAmongConstants = false) (h : ∀ n ∈ items, n.Placed next.isAmongConstants) :
    ∀ n ∈ r.behind next items, n.Placed r.isAmongConstants := by
  rw [Reading.behind]
  cases hr : r.isAmongConstants with
  | false => rwa [hnext hr] at h
  | true =>
    cases hn : next.isAmongConstants with
    | true => rwa [hn] at h
    | false =>
      rw [hn] at h
      exact List.forall_mem_singleton.2 (.behindConstants h)

mutual

theorem Tree.nodes_placed (r : Reading) : ∀ tree : Tree, ∀ n ∈ (tree.nodes r).1, n.Placed false
  | .leaf t => stepLeaf_placed r t
  | .group b children => stepGroup_placed r b (nodesOf_placed (r.inner b) children)

theorem nodesOf_placed (r : Reading) : ∀ trees : List Tree,
    ∀ n ∈ nodesOf r trees, n.Placed r.isAmongConstants
  | [] => fun _ h => absurd h List.not_mem_nil
  | tree :: rest => by
    rw [nodesOf, List.forall_mem_append]
    exact ⟨fun n hn => (tree.nodes_placed r n hn).anywhere _,
      behind_placed (fun hr => tree.nodes_leaves hr) (nodesOf_placed _ rest)⟩

end

/-- In a source every level behind constants stands directly in a type. -/
theorem nodesOfText_placed (source : String) : ∀ n ∈ nodesOfText source, n.Placed false :=
  nodesOf_placed .start _

end ClasspathSymbols.SourceFile
