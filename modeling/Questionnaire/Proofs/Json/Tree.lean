import Questionnaire.Json.Reader
import Questionnaire.Proofs.Dict

/-! The values of a tree by the keys that lead to them. Where the fields of every object stand in
ascending order, as in each tree that is read, a value is found again by its keys, and going through
the tree, a value before those inside it, is going through the keys in lexicographic order. -/
namespace Questionnaire

namespace Json

/-- The fields of every object that is reached through objects stand in ascending order. -/
inductive Ordered : Json → Prop
  | object {fields : List (String × Json)} (ascending : Ascending fields)
    (each : ∀ f ∈ fields, Ordered f.2) : Ordered (object fields)
  | other {j : Json} (plain : j.object? = none) : Ordered j

/-- The value that keys lead to, one object after the other. -/
def at? : Json → List String → Option Json
  | j, [] => some j
  | j, key :: path => (j.field? key).bind (·.at? path)

/-- A value under a key, with the keys of the objects around it. -/
structure Node where
  above : List String
  key : String
  value : Json

namespace Node

def path (n : Node) : List String := n.above ++ [n.key]

/-- The node as it is seen from an object further up. -/
def within (key : String) (n : Node) : Node := { n with above := key :: n.above }

@[simp] theorem path_within (key : String) (n : Node) : (n.within key).path = key :: n.path := rfl

/-- The first keys in which two paths differ tell which node stands in front; what a path leads
through stands in front of where it leads. -/
def Before (m n : Node) : Prop := List.Lex (· < ·) m.path n.path

theorem Before.asymm {m n : Node} (before : m.Before n) : ¬n.Before m := List.lt_asymm before

theorem not_before_self (n : Node) : ¬n.Before n := List.lt_irrefl n.path

theorem path_ne_nil (n : Node) : n.path ≠ [] := List.append_ne_nil_of_right_ne_nil _ (by simp)

end Node

mutual

/-- The nodes of a tree in the order of its fields, each in front of those inside it. -/
def nodes : Json → List Node
  | object fields => nodesOf fields
  | _ => []

def nodesOf : List (String × Json) → List Node
  | [] => []
  | (key, value) :: fields => ⟨[], key, value⟩ :: (nodes value).map (.within key) ++ nodesOf fields

end

theorem nodesOf_eq (fields : List (String × Json)) : nodesOf fields =
    fields.flatMap fun f => ⟨[], f.1, f.2⟩ :: (nodes f.2).map (.within f.1) := by
  induction fields with
  | nil => rfl
  | cons f fields ih => rw [nodesOf, ih, List.flatMap_cons]

theorem nodes_of_object? {j : Json} (plain : j.object? = none) : j.nodes = [] := by
  cases j with
  | object => cases plain
  | _ => rfl

theorem field?_none {j : Json} (plain : j.object? = none) (key : String) : j.field? key = none := by
  cases j with
  | object => cases plain
  | _ => rfl

theorem mem_nodesOf {fields : List (String × Json)} {n : Node} : n ∈ nodesOf fields ↔
    ∃ f ∈ fields, n = ⟨[], f.1, f.2⟩ ∨ ∃ m ∈ f.2.nodes, n = m.within f.1 := by
  rw [nodesOf_eq, List.mem_flatMap]
  simp only [List.mem_cons, List.mem_map, eq_comm]

/-- The nodes of an ordered tree are what its keys lead to. -/
theorem Ordered.mem_nodes {tree : Json} (ordered : tree.Ordered) {n : Node} :
    n ∈ tree.nodes ↔ tree.at? n.path = some n.value := by
  induction ordered generalizing n with
  | @other j plain =>
    obtain ⟨key, path, split⟩ := List.exists_cons_of_ne_nil n.path_ne_nil
    rw [nodes_of_object? plain, split, at?, field?_none plain]
    simp
  | @object fields ascending each ih =>
    rw [nodes, mem_nodesOf]
    constructor
    · rintro ⟨⟨key, value⟩, member, rfl | ⟨m, inside, rfl⟩⟩
      · change (fields.lookup key).bind _ = _
        rw [(Dict.mem_iff_lookup ascending).1 member]
        rfl
      · rw [Node.path_within, at?, field?, (Dict.mem_iff_lookup ascending).1 member]
        exact (ih _ member).1 inside
    · intro reached
      have follows {key : String} {path : List String}
          (there : (Json.object fields).at? (key :: path) = some n.value) :
          ∃ value, (key, value) ∈ fields ∧ value.at? path = some n.value := by
        obtain ⟨value, found, behind⟩ := Option.bind_eq_some_iff.1 there
        exact ⟨value, (Dict.mem_iff_lookup ascending).2 found, behind⟩
      obtain ⟨above, key, value⟩ := n
      cases above with
      | nil =>
        obtain ⟨first, member, same⟩ := follows reached
        exact ⟨_, member, .inl (congrArg (Node.mk [] key) (Option.some.inj same.symm))⟩
      | cons outer above =>
        obtain ⟨first, member, behind⟩ := follows reached
        exact ⟨_, member, .inr ⟨⟨above, key, value⟩, (ih _ member).2 behind, rfl⟩⟩

theorem path_of_mem {f : String × Json} {n : Node}
    (member : n ∈ ⟨[], f.1, f.2⟩ :: f.2.nodes.map (.within f.1)) : ∃ path, n.path = f.1 :: path := by
  rcases List.mem_cons.1 member with rfl | inside
  · exact ⟨[], rfl⟩
  · obtain ⟨m, -, rfl⟩ := List.mem_map.1 inside
    exact ⟨m.path, rfl⟩

/-- The nodes of an ordered tree stand in lexicographic order of their paths. -/
theorem Ordered.nodes_ascending {tree : Json} (ordered : tree.Ordered) :
    tree.nodes.Pairwise Node.Before := by
  induction ordered with
  | @other j plain =>
    rw [nodes_of_object? plain]
    exact .nil
  | @object fields ascending each ih =>
    rw [nodes, nodesOf_eq, List.pairwise_flatMap]
    constructor
    · intro f member
      rw [List.pairwise_cons, List.pairwise_map]
      constructor
      · intro n inside
        obtain ⟨m, -, rfl⟩ := List.mem_map.1 inside
        obtain ⟨key, path, split⟩ := List.exists_cons_of_ne_nil m.path_ne_nil
        rw [Node.Before, Node.path_within, split]
        exact .cons .nil
      · exact (ih f member).imp .cons
    · refine ascending.imp fun {f g} before m first n second => ?_
      obtain ⟨p, starts⟩ := path_of_mem first
      obtain ⟨q, begins⟩ := path_of_mem second
      rw [Node.Before, starts, begins]
      exact .rel before

/-! ### Trees that are read -/

theorem takeScalar?_plain {cs rest : List Char} {j : Json}
    (taken : takeScalar? cs = some (j, rest)) : j.object? = none := by
  unfold takeScalar? at taken
  split at taken
  · cases taken
    rfl
  · cases taken
    rfl
  · cases taken
    rfl
  · obtain ⟨⟨s, _⟩, -, same⟩ := Option.map_eq_some_iff.1 taken
    cases same
    rfl
  · obtain ⟨⟨n, _⟩, -, same⟩ := Option.map_eq_some_iff.1 taken
    cases same
    rfl

theorem shorter?_eq_some {α : Type} {cs : List Char} {taken : Option (α × List Char)} {a : α}
    {rest : Rest cs} (short : shorter? cs taken = some (a, rest)) : taken = some (a, rest.1) := by
  unfold shorter? at short
  split at short
  · split at short
    · cases short
      rfl
    · cases short
  · cases short

/-- Values that are read are ordered, and so are those of fields that are read. -/
theorem ordered_of_value? (depth : Nat) (cs : List Char) :
    ∀ j rest, value? depth cs = some (j, rest) → j.Ordered := by
  refine value?.induct (fun depth cs => ∀ j rest, value? depth cs = some (j, rest) → j.Ordered)
    (fun depth cs => ∀ fields rest, fields? depth cs = some (fields, rest) →
      ∀ f ∈ fields, f.2.Ordered)
    (fun _ _ => True) ?_ ?_ ?_ ?_ ?_ ?_ ?_ ?_ ?_ depth cs
  -- an array without items
  · intro cs rest depth opens further closes j final read
    rw [value?.eq_def] at read
    simp only [opens, closes] at read
    cases read
    exact .other rfl
  -- an array with items, into which no path leads
  · intro cs rest depth opens inside _ _ j final read
    rw [value?.eq_def] at read
    simp only [opens, inside, Option.bind_eq_bind, Option.bind_eq_some_iff] at read
    obtain ⟨_, -, same⟩ := read
    cases same
    exact .other rfl
  -- an object without fields
  · intro cs rest depth opens other further closes j final read
    rw [value?.eq_def] at read
    simp only [opens, other, closes] at read
    cases read
    exact .object .nil (List.forall_mem_nil _)
  -- an object with fields, which come into order when they are put into a dictionary
  · intro cs rest depth opens other inside _ each j final read
    rw [value?.eq_def] at read
    simp only [opens, other, inside, Option.bind_eq_bind, Option.bind_eq_some_iff] at read
    obtain ⟨⟨fields, further⟩, found, same⟩ := read
    cases same
    refine .object (Dict.ofList fields).ascending fun f member => ?_
    exact each fields further found f (Dict.mem_ofList member)
  -- an array and an object that lie too deep
  · intro cs rest opens j final read
    rw [value?.eq_def] at read
    simp [opens] at read
  · intro cs rest opens other j final read
    rw [value?.eq_def] at read
    simp [opens, other] at read
  -- a scalar
  · intro depth cs brace bracket j final read
    rw [value?.eq_def] at read
    simp only [brace, bracket] at read
    exact .other (takeScalar?_plain (shorter?_eq_some read))
  -- a field, with those behind it or as the last one
  · intro depth cs value more fields final read
    rw [fields?.eq_def] at read
    simp only [Option.bind_eq_bind, Option.bind_eq_some_iff] at read
    obtain ⟨quote, -, ⟨name, rest'⟩, -, colon, -, ⟨first, rest⟩, found, read⟩ := read
    have own := value quote rest' colon first rest found
    split at read
    · next further _ =>
      obtain ⟨⟨others, _⟩, behind, same⟩ := Option.bind_eq_some_iff.1 read
      cases same
      exact List.forall_mem_cons.2 ⟨own, more quote rest' colon rest further others _ behind⟩
    · obtain ⟨_, -, same⟩ := Option.bind_eq_some_iff.1 read
      cases same
      exact List.forall_mem_singleton.2 own
  -- items, of which nothing is claimed
  · exact fun _ _ _ _ => trivial

theorem ordered_of_read? {s : String} {j : Json} (read : read? s = some j) : j.Ordered := by
  simp only [read?, ofChars?, Option.bind_eq_bind, Option.bind_eq_some_iff] at read
  obtain ⟨⟨value, rest⟩, taken, whole⟩ := read
  split at whole
  · cases whole
    exact ordered_of_value? maxDepth s.toList _ _ taken
  · cases whole

end Json

end Questionnaire
