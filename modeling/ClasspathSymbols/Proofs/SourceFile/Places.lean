import ClasspathSymbols.Proofs.SourceFile.Levels
import ClasspathSymbols.Proofs.SourceFile.Nesting
import Mathlib.Data.List.Forall2

/-! # Places of types in a source file

A node stands at a place: the number of its item in the file, then each time the number of an item
in the node before. Places are in source order when they are in lexicographic order, where a type
comes before what is in it. A type is exposed if all nodes on the way to it are types, but for the
level behind the constants in the body of a type; those below a method, a statement or an expression
are not. A file declares what is exposed, each place once and in source order. -/
namespace ClasspathSymbols.SourceFile

def Node.isType : Node → Bool
  | .type .. => true
  | _ => false

def Node.name? : Node → Option String
  | .type _ _ name _ => some name
  | _ => none

def Node.children : Node → List Node
  | .package _ => []
  | .type _ _ _ members => members
  | .behindConstants members => members
  | .other children => children

/-- The node is a type, or a level behind constants that stands directly in a type. -/
def Node.isOpen (inBody : Bool) : Node → Bool
  | .type .. => true
  | .behindConstants _ => inBody
  | .package _ | .other _ => false

/-- The nodes met on the way to a place, the one that stands there last. -/
def way? : List Node → List Nat → Option (List Node)
  | _, [] => some []
  | nodes, k :: place => do
    let n ← nodes[k]?
    let way ← way? n.children place
    return n :: way

/-- The place leads from the node to a type, over types and the levels behind their constants. -/
def OverTypes (m : Node) (place : List Nat) : Prop :=
  ∃ way, way? m.children place = some way ∧ (m :: way).IsChain (fun m n => n.isOpen m.isType) ∧
    ((m :: way).getLast (List.cons_ne_nil m way)).isType

/-- At the place is a type, and it is in nothing but types and the levels behind their constants. -/
def Exposed (nodes : List Node) (place : List Nat) : Prop := OverTypes (.other nodes) place

/-- At the place is a type, and all nodes that it is in are types and levels behind constants,
wherever these stand. -/
def OnlyInTypes (nodes : List Node) (place : List Nat) : Prop :=
  ∃ enclosing own, way? nodes place = some (enclosing ++ [own]) ∧ own.isType ∧
    ∀ n ∈ enclosing, n.isOpen true

/-- What is declared is the type at the place: named after its enclosing types, in the package in
force at the outermost of them, and deprecated by its own annotations. -/
def DeclaredAt (nodes : List Node) (place : List Nat) (t : DeclaredType) : Prop :=
  ∃ enclosing form annotations name members,
    way? nodes place = some (enclosing ++ [.type form annotations name members]) ∧
    t.binaryName = inPackage (lastPackage (nodes.take (place.headD 0))) ++
      "$".intercalate (enclosing.filterMap Node.name? ++ [name]) ∧
    (t.deprecated ↔ ∃ name ∈ annotations, name = "Deprecated" ∨ name = "java.lang.Deprecated")

/-- The types are those at the exposed places, each place once and in source order. -/
def ListsExposed (nodes : List Node) (types : List DeclaredType) : Prop :=
  ∃ places : List (List Nat), places.Pairwise (· < ·) ∧
    (∀ place, place ∈ places ↔ Exposed nodes place) ∧ List.Forall₂ (DeclaredAt nodes) places types

mutual

def Node.places (inBody : Bool) : Node → List (List Nat)
  | .type _ _ _ members => [] :: placesFrom true 0 members
  | .behindConstants members => if inBody then placesFrom false 0 members else []
  | .package _ | .other _ => []

def placesFrom (inBody : Bool) (k : Nat) : List Node → List (List Nat)
  | [] => []
  | n :: rest => (n.places inBody).map (k :: ·) ++ placesFrom inBody (k + 1) rest

end

variable {inBody : Bool} {m n : Node} {nodes : List Node} {k : Nat} {place : List Nat}

theorem placesFrom_append (inBody : Bool) (k : Nat) (before after : List Node) :
    placesFrom inBody k (before ++ after) =
      placesFrom inBody k before ++ placesFrom inBody (k + before.length) after := by
  induction before generalizing k with
  | nil => rfl
  | cons n before ih =>
    rw [List.cons_append, placesFrom, placesFrom, ih, List.append_assoc, List.length_cons,
      Nat.add_right_comm, Nat.add_assoc k]

theorem mem_placesFrom : place ∈ placesFrom inBody k nodes ↔
    ∃ i inner n, place = (k + i) :: inner ∧ nodes[i]? = some n ∧ inner ∈ n.places inBody := by
  induction nodes generalizing k with
  | nil => simp [placesFrom]
  | cons n rest ih =>
    rw [placesFrom, List.mem_append, List.mem_map, ih]
    constructor
    · rintro (⟨inner, hinner, rfl⟩ | ⟨i, inner, m, rfl, hm, hinner⟩)
      · exact ⟨0, inner, n, rfl, rfl, hinner⟩
      · exact ⟨i + 1, inner, m, by rw [Nat.add_assoc, Nat.add_comm 1], hm, hinner⟩
    · rintro ⟨i, inner, m, rfl, hm, hinner⟩
      cases i with
      | zero =>
        obtain rfl := Option.some.inj hm
        exact Or.inl ⟨inner, hinner, rfl⟩
      | succ i => exact Or.inr ⟨i, inner, m, by rw [Nat.add_assoc, Nat.add_comm 1], hm, hinner⟩

theorem way?_cons {way : List Node} :
    way? nodes (k :: place) = some way ↔
      ∃ n inner, nodes[k]? = some n ∧ way? n.children place = some inner ∧ n :: inner = way := by
  simp only [way?, Option.bind_eq_bind, Option.bind_eq_some_iff, Option.pure_def,
    Option.some.injEq, exists_and_left]

theorem overTypes_nil : OverTypes m [] ↔ m.isType := by
  constructor
  · rintro ⟨way, hway, -, htype⟩
    obtain rfl := Option.some.inj hway
    exact htype
  · intro htype
    exact ⟨[], rfl, List.IsChain.singleton m, htype⟩

theorem overTypes_cons : OverTypes m (k :: place) ↔
    ∃ n, m.children[k]? = some n ∧ n.isOpen m.isType ∧ OverTypes n place := by
  constructor
  · rintro ⟨way, hway, hopen, htype⟩
    obtain ⟨n, inner, hn, hinner, rfl⟩ := way?_cons.1 hway
    obtain ⟨hfirst, hopen⟩ := List.isChain_cons_cons.1 hopen
    exact ⟨n, hn, hfirst, inner, hinner, hopen, htype⟩
  · rintro ⟨n, hn, hfirst, inner, hinner, hopen, htype⟩
    exact ⟨n :: inner, way?_cons.2 ⟨n, inner, hn, hinner, rfl⟩,
      List.isChain_cons_cons.2 ⟨hfirst, hopen⟩, htype⟩

theorem not_exposed_nil (nodes : List Node) : ¬ Exposed nodes [] := fun h =>
  Bool.false_ne_true (overTypes_nil.1 h)

theorem Node.mem_places : place ∈ n.places inBody ↔ n.isOpen inBody ∧ OverTypes n place := by
  induction place generalizing n inBody with
  | nil =>
    rw [overTypes_nil]
    cases n with
    | behindConstants members =>
      cases inBody <;> simp [Node.places, Node.isType, mem_placesFrom]
    | _ => simp [Node.places, Node.isType, Node.isOpen]
  | cons k place ih =>
    have hcons : k :: place ∈ n.places inBody ↔
        n.isOpen inBody ∧ k :: place ∈ placesFrom n.isType 0 n.children := by
      cases n with
      | behindConstants members =>
        cases inBody <;> simp [Node.places, Node.isType, Node.isOpen, Node.children]
      | _ => simp [Node.places, Node.isType, Node.isOpen, Node.children]
    rw [hcons, mem_placesFrom, overTypes_cons]
    constructor
    · rintro ⟨hopen, i, inner, m, heq, hm, hinner⟩
      obtain ⟨rfl, rfl⟩ := List.cons.inj heq
      rw [Nat.zero_add]
      exact ⟨hopen, m, hm, ih.1 hinner⟩
    · rintro ⟨hopen, m, hm, hinner⟩
      exact ⟨hopen, k, place, m, by rw [Nat.zero_add], hm, ih.2 hinner⟩

theorem mem_places_iff_exposed : place ∈ placesFrom false 0 nodes ↔ Exposed nodes place := by
  rw [mem_placesFrom]
  constructor
  · rintro ⟨i, inner, n, rfl, hn, hinner⟩
    rw [Nat.zero_add]
    exact overTypes_cons.2 ⟨n, hn, Node.mem_places.1 hinner⟩
  · intro h
    cases place with
    | nil => exact absurd h (not_exposed_nil nodes)
    | cons k inner =>
      obtain ⟨n, hn, hinner⟩ := overTypes_cons.1 h
      exact ⟨k, inner, n, by rw [Nat.zero_add], hn, Node.mem_places.2 hinner⟩

theorem Node.isOpen_false (n : Node) : n.isOpen false = n.isType := by
  cases n <;> rfl

theorem Node.isOpen_true_of (h : n.isOpen inBody) : n.isOpen true := by
  cases n with
  | package | other => cases h
  | type | behindConstants => rfl

theorem Node.Placed.isOpen (h : n.Placed inBody) (htrue : n.isOpen true) : n.isOpen inBody := by
  cases h with
  | package | other => cases htrue
  | type | behindConstants => rfl

theorem Node.Placed.children (h : n.Placed inBody) : ∀ m ∈ n.children, m.Placed n.isType := by
  cases h with
  | package => exact fun _ hm => absurd hm List.not_mem_nil
  | type _ _ _ _ hmembers | behindConstants hmembers | other _ hmembers => exact hmembers

theorem overTypes_iff_of_placed (h : ∀ n ∈ m.children, n.Placed m.isType) :
    OverTypes m place ↔ ∃ way, way? m.children place = some way ∧ (∀ n ∈ way, n.isOpen true) ∧
      ((m :: way).getLast (List.cons_ne_nil m way)).isType := by
  -- The node that the place starts from goes down with the place.
  induction place generalizing m with
  | nil =>
    constructor
    · rintro ⟨way, hway, -, htype⟩
      obtain rfl := Option.some.inj hway
      exact ⟨[], rfl, fun _ hn => absurd hn List.not_mem_nil, htype⟩
    · rintro ⟨way, hway, -, htype⟩
      obtain rfl := Option.some.inj hway
      exact overTypes_nil.2 htype
  | cons k place ih =>
    rw [overTypes_cons]
    constructor
    · rintro ⟨n, hn, hopen, hover⟩
      have hplaced := h n (List.mem_of_getElem? hn)
      obtain ⟨inner, hinner, hall, htype⟩ := (ih hplaced.children).1 hover
      exact ⟨n :: inner, way?_cons.2 ⟨n, inner, hn, hinner, rfl⟩,
        List.forall_mem_cons.2 ⟨Node.isOpen_true_of hopen, hall⟩, htype⟩
    · rintro ⟨way, hway, hall, htype⟩
      obtain ⟨n, inner, hn, hinner, rfl⟩ := way?_cons.1 hway
      obtain ⟨hopen, hall⟩ := List.forall_mem_cons.1 hall
      have hplaced := h n (List.mem_of_getElem? hn)
      exact ⟨n, hn, hplaced.isOpen hopen, (ih hplaced.children).2 ⟨inner, hinner, hall, htype⟩⟩

/-- Where levels behind constants stand in types alone, no more has to be asked of them. -/
theorem exposed_iff_of_placed (h : ∀ n ∈ nodes, n.Placed false) :
    Exposed nodes place ↔ OnlyInTypes nodes place := by
  have hfile : ∀ n ∈ (Node.other nodes).children, n.Placed (Node.other nodes).isType := h
  rw [Exposed, overTypes_iff_of_placed hfile]
  constructor
  · rintro ⟨way, hway, hall, htype⟩
    rcases List.eq_nil_or_concat way with rfl | ⟨enclosing, own, rfl⟩
    · cases htype
    · rw [List.concat_eq_append] at hway hall htype
      rw [List.getLast_cons (by simp), List.getLast_append_singleton] at htype
      exact ⟨enclosing, own, hway, htype, (List.forall_mem_append.1 hall).1⟩
  · rintro ⟨enclosing, own, hway, htype, hall⟩
    have hown : own.isOpen true := Node.isOpen_true_of (own.isOpen_false.trans htype)
    refine ⟨enclosing ++ [own], hway, List.forall_mem_append.2
      ⟨hall, List.forall_mem_singleton.2 hown⟩, ?_⟩
    rwa [List.getLast_cons (by simp), List.getLast_append_singleton]

mutual

theorem Node.places_sorted (inBody : Bool) : ∀ n : Node, (n.places inBody).Pairwise (· < ·)
  | .package _ | .other _ => List.Pairwise.nil
  | .behindConstants members => by
    rw [Node.places]
    split
    · exact placesFrom_sorted false 0 members
    · exact List.Pairwise.nil
  | .type _ _ _ members => by
    rw [Node.places, List.pairwise_cons]
    refine ⟨?_, placesFrom_sorted true 0 members⟩
    intro place hplace
    obtain ⟨_, _, _, rfl, -⟩ := mem_placesFrom.1 hplace
    exact List.nil_lt_cons _ _

theorem placesFrom_sorted (inBody : Bool) (k : Nat) : ∀ nodes : List Node,
    (placesFrom inBody k nodes).Pairwise (· < ·)
  | [] => List.Pairwise.nil
  | n :: rest => by
    rw [placesFrom, List.pairwise_append]
    refine ⟨?_, placesFrom_sorted inBody (k + 1) rest, ?_⟩
    · rw [List.pairwise_map]
      refine (n.places_sorted inBody).imp fun h => ?_
      exact List.cons_lt_cons_iff.2 (Or.inr ⟨rfl, h⟩)
    · intro x hx y hy
      obtain ⟨inner, -, rfl⟩ := List.mem_map.1 hx
      obtain ⟨i, _, _, rfl, -⟩ := mem_placesFrom.1 hy
      exact List.cons_lt_cons_iff.2 (Or.inl (by omega))

end

def EndsWay (outer : String) (way : List Node) (t : DeclaredType) : Prop :=
  ∃ enclosing form annotations name members,
    way = enclosing ++ [.type form annotations name members] ∧
    t = endOfChain outer (enclosing.filterMap Node.name? ++ [name]) annotations

theorem EndsWay.cons {outer : String} {way : List Node} {t : DeclaredType} (form : TypeForm)
    (annotations : List String) (name : String) (members : List Node)
    (h : EndsWay (outer ++ name ++ String.singleton BinaryName.nestingSign) way t) :
    EndsWay outer (.type form annotations name members :: way) t := by
  obtain ⟨enclosing, _, _, own, _, rfl, rfl⟩ := h
  refine ⟨.type form annotations name members :: enclosing, _, _, own, _, rfl, ?_⟩
  have hname : (Node.type form annotations name members).name? = some name := rfl
  rw [List.filterMap_cons_some hname, List.cons_append, endOfChain_cons _ _ (by simp)]

theorem EndsWay.cons_behind {outer : String} {way : List Node} {t : DeclaredType}
    (members : List Node) (h : EndsWay outer way t) :
    EndsWay outer (.behindConstants members :: way) t := by
  obtain ⟨enclosing, _, _, own, _, rfl, rfl⟩ := h
  exact ⟨.behindConstants members :: enclosing, _, _, own, _, rfl, rfl⟩

theorem way?_through {before rest : List Node} {n : Node} {inner : List Nat} {way : List Node}
    (h : way? n.children inner = some way) :
    way? (before ++ n :: rest) (before.length :: inner) = some (n :: way) :=
  way?_cons.2 ⟨n, way, by simp, h, rfl⟩

mutual

theorem Node.types_at_places (inBody : Bool) (outer : String) : ∀ n : Node, List.Forall₂
    (fun place t => ∃ way, way? n.children place = some way ∧ EndsWay outer (n :: way) t)
    (n.places inBody) (n.types inBody outer)
  | .package _ | .other _ => List.Forall₂.nil
  | .behindConstants members => by
    rw [Node.places, Node.types]
    split
    · refine (typesOf_at_places false outer [] members).imp ?_
      rintro place t ⟨way, hway, hend⟩
      exact ⟨way, hway, hend.cons_behind members⟩
    · exact List.Forall₂.nil
  | .type form annotations name members => by
    have hself : EndsWay outer [.type form annotations name members]
        ⟨outer ++ name, isDeprecated annotations⟩ :=
      ⟨[], _, _, _, _, rfl, (endOfChain_singleton outer name annotations).symm⟩
    refine List.Forall₂.cons ⟨[], rfl, hself⟩ ?_
    refine (typesOf_at_places true _ [] members).imp ?_
    rintro place t ⟨way, hway, hend⟩
    exact ⟨way, hway, hend.cons form annotations name members⟩

theorem typesOf_at_places (inBody : Bool) (outer : String) (before : List Node) :
    ∀ nodes : List Node, List.Forall₂
      (fun place t => ∃ way, way? (before ++ nodes) place = some way ∧ EndsWay outer way t)
      (placesFrom inBody before.length nodes) (typesOf inBody outer nodes)
  | [] => List.Forall₂.nil
  | n :: rest => by
    have hrest := typesOf_at_places inBody outer (before ++ [n]) rest
    rw [List.append_assoc, List.singleton_append, List.length_append,
      List.length_singleton] at hrest
    rw [placesFrom, typesOf]
    refine List.rel_append (List.forall₂_map_left_iff.2 ?_) hrest
    refine (Node.types_at_places inBody outer n).imp ?_
    rintro inner t ⟨way, hway, hend⟩
    exact ⟨n :: way, way?_through hway, hend⟩

end

theorem isDeprecated_iff {annotations : List String} : isDeprecated annotations ↔
    ∃ name ∈ annotations, name = "Deprecated" ∨ name = "java.lang.Deprecated" := by
  simp [isDeprecated, deprecatedNames]

theorem EndsWay.declaredAt {way : List Node} {t : DeclaredType}
    (hway : way? nodes place = some way)
    (h : EndsWay (inPackage (lastPackage (nodes.take (place.headD 0)))) way t) :
    DeclaredAt nodes place t := by
  obtain ⟨enclosing, _, _, _, _, rfl, rfl⟩ := h
  exact ⟨enclosing, _, _, _, _, hway, rfl, isDeprecated_iff⟩

theorem DeclaredAt.append {t : DeclaredType} (h : DeclaredAt nodes place t) (hne : place ≠ [])
    (more : List Node) : DeclaredAt (nodes ++ more) place t := by
  obtain ⟨enclosing, form, annotations, name, members, hway, hname, hflag⟩ := h
  obtain ⟨k, inner, rfl⟩ := List.exists_cons_of_ne_nil hne
  obtain ⟨n, way, hn, hinner, heq⟩ := way?_cons.1 hway
  obtain ⟨hk, -⟩ := List.getElem?_eq_some_iff.1 hn
  refine ⟨enclosing, form, annotations, name, members,
    way?_cons.2 ⟨n, way, ?_, hinner, heq⟩, ?_, hflag⟩
  · rw [List.getElem?_append_left hk, hn]
  · rw [hname, List.headD_cons, List.take_append_of_le_length hk.le]

theorem types_ofNodes_at_places (nodes : List Node) : List.Forall₂ (DeclaredAt nodes)
    (placesFrom false 0 nodes) (Declarations.ofNodes nodes).types := by
  induction nodes using List.reverseRecOn with
  | nil => exact List.Forall₂.nil
  | append_singleton nodes n ih =>
    rw [types_ofNodes_snoc, placesFrom_append, Nat.zero_add, placesFrom, placesFrom,
      List.append_nil]
    refine List.rel_append ?_ (List.forall₂_map_left_iff.2 ?_)
    · have hne : ∀ place ∈ placesFrom false 0 nodes, place ≠ [] := by
        rintro _ h rfl
        exact not_exposed_nil nodes (mem_places_iff_exposed.1 h)
      exact ((List.forall₂_and_left _ _).2 ⟨hne, ih⟩).imp fun _ _ h => h.2.append h.1 [n]
    · refine (Node.types_at_places false _ n).imp ?_
      rintro inner t ⟨way, hway, hend⟩
      refine EndsWay.declaredAt (way?_through hway) ?_
      rwa [List.headD_cons, List.take_left]

theorem listsExposed_ofNodes (nodes : List Node) :
    ListsExposed nodes (Declarations.ofNodes nodes).types :=
  ⟨placesFrom false 0 nodes, placesFrom_sorted false 0 nodes, fun _ => mem_places_iff_exposed,
    types_ofNodes_at_places nodes⟩

theorem exposed_singleton :
    Exposed [n] place ↔ n.isType ∧ ∃ inner, place = 0 :: inner ∧ OverTypes n inner := by
  constructor
  · intro h
    cases place with
    | nil => exact absurd h (not_exposed_nil [n])
    | cons k inner =>
      obtain ⟨m, hm, htype, hinner⟩ := overTypes_cons.1 h
      rw [Node.children, List.getElem?_singleton, Option.ite_none_right_eq_some] at hm
      obtain ⟨rfl, hm⟩ := hm
      obtain rfl := Option.some.inj hm
      exact ⟨n.isOpen_false ▸ htype, inner, rfl, hinner⟩
  · rintro ⟨htype, inner, rfl, hinner⟩
    exact overTypes_cons.2 ⟨n, rfl, n.isOpen_false ▸ htype, hinner⟩

theorem not_exposed_of_not_isType (h : ∀ n ∈ nodes, n.isType = false) (place : List Nat) :
    ¬ Exposed nodes place := by
  intro hexposed
  cases place with
  | nil => exact not_exposed_nil nodes hexposed
  | cons k inner =>
    obtain ⟨n, hn, htype, -⟩ := overTypes_cons.1 hexposed
    have hnot := h n (List.mem_of_getElem? hn)
    rw [← n.isOpen_false] at hnot
    exact Bool.false_ne_true (hnot.symm.trans htype)

theorem isType_wrap (f : Front) (n : Node) : (f.wrap n).isType = (!f.hidden && n.isType) := by
  cases hf : f.hidden <;> simp [Front.wrap, hf, Node.isType]

theorem not_isType_of_stepLeaf (r : Reading) (t : Token) :
    ∀ n ∈ (stepLeaf r t).1, n.isType = false := by
  have hnone : ∀ n ∈ ([] : List Node), n.isType = false := fun _ h => absurd h List.not_mem_nil
  cases r with
  | package f name =>
    rw [stepLeaf]
    split
    · rw [List.forall_mem_singleton, isType_wrap]
      exact Bool.and_false _
    · exact hnone
  | annotating f name => rw [stepLeaf]; split <;> exact hnone
  | maybeRecord f name => cases name <;> exact hnone
  | _ => exact hnone

/-- In front is the header of a type that no statement brings in, and this is the type when `items`
are its body. -/
inductive Reading.Heads : Reading → List Node → Node → Prop where
  | header {f : Front} {form : TypeForm} {name : Token} (items : List Node) : f.hidden = false →
      Reading.Heads (.header f form name) items
        (.type form f.annotations (String.ofList name.text) items)

/-- What is in brackets is exposed only as the body of a type that no statement brings in. -/
theorem exposed_stepGroup {r : Reading} {b : Bracket} {items : List Node} :
    Exposed (stepGroup r b items).1 place ↔
      ∃ own inner, r.Heads items own ∧ b = .curly ∧ place = 0 :: inner ∧ OverTypes own inner := by
  have hother : ¬ Exposed [.other items] place :=
    not_exposed_of_not_isType (by simp [Node.isType]) place
  cases r with
  | header f form name =>
    by_cases hb : b = .curly
    · rw [stepGroup, if_pos hb, exposed_singleton, isType_wrap]
      cases hf : f.hidden with
      | false =>
        rw [Front.wrap, hf]
        constructor
        · rintro ⟨-, inner, rfl, hinner⟩
          exact ⟨_, inner, .header items hf, hb, rfl, hinner⟩
        · rintro ⟨_, inner, ⟨_, _⟩, -, rfl, hinner⟩
          exact ⟨rfl, inner, rfl, hinner⟩
      | true =>
        refine iff_of_false (fun h => Bool.false_ne_true h.1) ?_
        rintro ⟨_, _, ⟨_, hshown⟩, -⟩
        exact Bool.false_ne_true (hshown.symm.trans hf)
    · rw [stepGroup, if_neg hb]
      refine iff_of_false hother ?_
      rintro ⟨_, _, -, hcurly, -⟩
      exact hb hcurly
  | maybeRecord f name => cases name <;> exact iff_of_false hother (by rintro ⟨_, _, ⟨⟩, -⟩)
  | _ => exact iff_of_false hother (by rintro ⟨_, _, ⟨⟩, -⟩)

theorem exposed_treeNodes {r : Reading} {tree : Tree} :
    Exposed (tree.nodes r).1 place ↔ ∃ body own inner, tree = .group .curly body ∧
      r.Heads (nodesOf (r.inner .curly) body) own ∧ place = 0 :: inner ∧ OverTypes own inner := by
  cases tree with
  | leaf t =>
    rw [Tree.nodes]
    exact iff_of_false (not_exposed_of_not_isType (not_isType_of_stepLeaf r t) place) (by simp)
  | group b body =>
    rw [Tree.nodes, exposed_stepGroup]
    constructor
    · rintro ⟨own, inner, hr, rfl, rfl, hinner⟩
      exact ⟨body, own, inner, rfl, hr, rfl, hinner⟩
    · rintro ⟨_, own, inner, heq, hr, rfl, hinner⟩
      cases heq
      exact ⟨own, inner, hr, rfl, rfl, hinner⟩

theorem nodesOfText_of_blank {source : String} (h : Text.trim source.toList = []) :
    nodesOfText source = [] := by
  rw [nodesOfText, scan_of_blank (blank_of_trim h)]
  rfl

theorem declarations?_eq_none {source : String} :
    declarations? source = none ↔ Text.trim source.toList = [] := by
  rw [declarations?]
  split <;> simp [*]

/-- A file declares the types that are exposed in it, at any depth, each once and in source order.
In a source these are all types that are in nothing but types and the levels behind their constants.
Only a blank source declares nothing at all. Of what is in brackets, only the body of a type that no
statement brings in exposes anything; so nothing does in a method, a statement or an expression. -/
theorem exposed_types_are_declared_once :
    (∀ nodes, ListsExposed nodes (Declarations.ofNodes nodes).types) ∧
      (∀ source, (declarations? source = none ↔ Text.trim source.toList = []) ∧
        ListsExposed (nodesOfText source) ((declarations? source).elim [] Declarations.types) ∧
        ∀ place, Exposed (nodesOfText source) place ↔ OnlyInTypes (nodesOfText source) place) ∧
      ∀ (r : Reading) (tree : Tree) (place : List Nat),
        Exposed (tree.nodes r).1 place ↔ ∃ body own inner, tree = .group .curly body ∧
          r.Heads (nodesOf (r.inner .curly) body) own ∧ place = 0 :: inner ∧
          OverTypes own inner := by
  refine ⟨listsExposed_ofNodes, fun source => ⟨declarations?_eq_none, ?_, fun place =>
    exposed_iff_of_placed (nodesOfText_placed source)⟩, fun r tree place => exposed_treeNodes⟩
  by_cases hblank : Text.trim source.toList = []
  · rw [declarations?_eq_none.2 hblank, nodesOfText_of_blank hblank]
    exact listsExposed_ofNodes []
  · rw [declarations?, if_neg hblank]
    exact listsExposed_ofNodes (nodesOfText source)

/-- The members of an annotation type and of an enumeration count, a class inside of a method does
not, and a package goes for the types after it. -/
example : (declarations? ("@Deprecated enum E { A { class In {} }; @interface N {} }\n" ++
    "package p; class T { void f() { class Local {} } record R() {} }")).map
      Declarations.types =
    some [⟨"E", true⟩, ⟨"E$N", false⟩, ⟨"p.T", false⟩, ⟨"p.T$R", false⟩] := by
  decide +kernel

end ClasspathSymbols.SourceFile
