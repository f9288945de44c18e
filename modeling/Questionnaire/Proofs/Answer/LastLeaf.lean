import Mathlib.Data.List.Basic
import Questionnaire.Proofs.Answer.LegacyIndex
import Questionnaire.Proofs.Json.Text
import Questionnaire.Proofs.Json.Tree
import Questionnaire.Proofs.Text.Cut

/-! Which of several values with one name an index finds. It is the last leaf in the order of the
tree, a value before those inside it; what is called so and is no leaf stands in nobody's way. An
index that keeps paths instead of values, and follows them from the root again, finds the same. -/
namespace Questionnaire

/-- What stands for an answer: anything but null and objects. -/
def Json.IsLeaf : Json → Prop
  | .text _ | .number _ | .bool _ | .array _ => True
  | .null | .object _ => False

theorem AnswerValue.ofLeaf?_isSome {j : Json} : (ofLeaf? j).isSome ↔ j.IsLeaf := by
  cases j <;> simp [ofLeaf?, Json.IsLeaf]

namespace LegacyIndex
variable {tree : Json} {name key : String}

/-- A key that is the name, or ends with it behind its last point. -/
def Called (name key : String) : Prop :=
  key = name ∨ ∃ stem, key = stem ++ "." ++ name ∧ '.' ∉ name.toList

theorem lastSegment?_eq_some_iff :
    lastSegment? key = some name ↔ ∃ stem, key = stem ++ "." ++ name ∧ '.' ∉ name.toList := by
  unfold lastSegment?
  rw [Option.map_eq_some_iff]
  constructor
  · rintro ⟨⟨segment, stem⟩, cut, rfl⟩
    obtain ⟨c, point, text, plain⟩ := Text.cutAtChars?_eq_some cut
    obtain rfl : c = '.' := beq_iff_eq.1 point
    refine ⟨String.ofList stem.reverse, String.toList_injective ?_, fun inside => ?_⟩
    · have forward := congrArg List.reverse text
      simpa using forward
    · have apart := plain '.' (by simpa using inside)
      simp at apart
  · rintro ⟨stem, rfl, plain⟩
    refine ⟨(name.toList.reverse, stem.toList.reverse), ?_, by simp⟩
    have others : ∀ x ∈ name.toList.reverse, (x == '.') = false := by
      intro x member
      refine beq_eq_false_iff_ne.2 fun same => plain ?_
      exact same ▸ List.mem_reverse.1 member
    have cut := Text.cutAtChars?_append others (beq_self_eq_true '.') stem.toList.reverse
    simpa using cut

theorem mem_names : name ∈ names key ↔ Called name key := by
  rw [names, List.mem_cons, Option.mem_toList, lastSegment?_eq_some_iff, Called, eq_comm]

/-! ### Names by nodes -/

mutual

/-- The names in a tree, each with the keys that lead to its value behind those above the tree. -/
def paths (above : List String) : Json → List (String × List String)
  | .object fields => pathsOf above fields
  | _ => []

def pathsOf (above : List String) : List (String × Json) → List (String × List String)
  | [] => []
  | (key, value) :: fields =>
    (names key).map (·, above ++ [key]) ++ paths (above ++ [key]) value ++ pathsOf above fields

end

/-- Looks a name up by its paths, the last one first, and follows each from the root. -/
def follow? (tree : Json) (name : String) : Option AnswerValue :=
  ((paths [] tree).reverse.filter (·.1 == name)).findSome? fun (_, path) =>
    (tree.at? path).bind AnswerValue.ofLeaf?

mutual

theorem collect_eq (tree : Json) :
    collect tree = tree.nodes.flatMap fun n => (names n.key).map (·, n.value) := by
  match tree with
  | .object fields => exact collectFields_eq fields
  | .null | .bool _ | .number _ | .text _ | .array _ => rfl

theorem collectFields_eq (fields : List (String × Json)) : collectFields fields =
    (Json.nodesOf fields).flatMap fun n => (names n.key).map (·, n.value) := by
  match fields with
  | [] => rfl
  | (key, value) :: fields =>
    rw [collectFields, Json.nodesOf, collect_eq value, collectFields_eq fields,
      List.flatMap_append, List.flatMap_cons, List.flatMap_map]
    rfl

end

mutual

theorem paths_eq (above : List String) (tree : Json) :
    paths above tree = tree.nodes.flatMap fun n => (names n.key).map (·, above ++ n.path) := by
  match tree with
  | .object fields => exact pathsOf_eq above fields
  | .null | .bool _ | .number _ | .text _ | .array _ => rfl

theorem pathsOf_eq (above : List String) (fields : List (String × Json)) : pathsOf above fields =
    (Json.nodesOf fields).flatMap fun n => (names n.key).map (·, above ++ n.path) := by
  match fields with
  | [] => rfl
  | (key, value) :: fields =>
    rw [pathsOf, Json.nodesOf, paths_eq (above ++ [key]) value, pathsOf_eq above fields,
      List.flatMap_append, List.flatMap_cons, List.flatMap_map]
    simp only [List.append_assoc, List.singleton_append]
    rfl

end

theorem findSome?_called {α : Type} (value : α) (read : α → Option AnswerValue)
    (keys : List String) :
    (((keys.map (·, value)).reverse.filter (·.1 == name)).findSome? fun entry => read entry.2) =
      if name ∈ keys then read value else none := by
  induction keys with
  | nil => rfl
  | cons key keys ih =>
    rw [List.map_cons, List.reverse_cons, List.filter_append, List.findSome?_append, ih]
    by_cases same : key = name
    · cases found : read value <;> by_cases further : name ∈ keys <;> simp [same, found, further]
    · simp [same, Ne.symm same]

/-- A name that nodes have is looked up from the last of them. -/
theorem findSome?_names {α : Type} (ns : List Json.Node) (held : Json.Node → α)
    (read : α → Option AnswerValue) (name : String) :
    ((ns.flatMap fun n => (names n.key).map (·, held n)).reverse.filter (·.1 == name)).findSome?
        (fun entry => read entry.2) =
      ns.reverse.findSome? fun n => if name ∈ names n.key then read (held n) else none := by
  induction ns with
  | nil => rfl
  | cons n ns ih =>
    rw [List.flatMap_cons, List.reverse_append, List.filter_append, List.findSome?_append, ih,
      findSome?_called, List.reverse_cons, List.findSome?_append, List.findSome?_singleton]

/-- A node of a tree that is called so and is a leaf. -/
structure Leaf (tree : Json) (name : String) (n : Json.Node) : Prop where
  reached : tree.at? n.path = some n.value
  called : Called name n.key
  leaf : n.value.IsLeaf

/-- The answer of a node under a name. -/
def answered? (name : String) (n : Json.Node) : Option AnswerValue :=
  if name ∈ names n.key then AnswerValue.ofLeaf? n.value else none

theorem answered?_eq_some {n : Json.Node} {v : AnswerValue} :
    answered? name n = some v ↔ Called name n.key ∧ AnswerValue.ofLeaf? n.value = some v := by
  rw [answered?, ← mem_names]
  split <;> simp [*]

theorem leaf_iff (ordered : tree.Ordered) {n : Json.Node} :
    Leaf tree name n ↔ n ∈ tree.nodes ∧ (answered? name n).isSome := by
  rw [Option.isSome_iff_exists, ordered.mem_nodes]
  constructor
  · rintro ⟨reached, called, leaf⟩
    obtain ⟨v, read⟩ := Option.isSome_iff_exists.1 (AnswerValue.ofLeaf?_isSome.2 leaf)
    exact ⟨reached, v, answered?_eq_some.2 ⟨called, read⟩⟩
  · rintro ⟨reached, v, found⟩
    obtain ⟨called, read⟩ := answered?_eq_some.1 found
    exact ⟨reached, called, AnswerValue.ofLeaf?_isSome.1 (Option.isSome_iff_exists.2 ⟨v, read⟩)⟩

theorem find?_eq (tree : Json) (name : String) :
    (ofJson tree).find? name = tree.nodes.reverse.findSome? (answered? name) := by
  rw [find?, ofJson, collect_eq]
  exact findSome?_names tree.nodes Json.Node.value AnswerValue.ofLeaf? name

theorem follow?_eq (ordered : tree.Ordered) (name : String) :
    follow? tree name = (ofJson tree).find? name := by
  rw [find?_eq, follow?, paths_eq]
  have along : ∀ n ∈ tree.nodes.reverse, (if name ∈ names n.key then
      (tree.at? ([] ++ n.path)).bind AnswerValue.ofLeaf? else none) = answered? name n := by
    intro n member
    rw [List.nil_append, ordered.mem_nodes.1 (List.mem_reverse.1 member)]
    rfl
  refine (findSome?_names tree.nodes ([] ++ ·.path) (fun path =>
    (tree.at? path).bind AnswerValue.ofLeaf?) name).trans ?_
  rw [← List.head?_filterMap, ← List.head?_filterMap, List.filterMap_congr along]

/-- What is found is the answer of the last leaf that is called so. -/
theorem find?_eq_some_iff (ordered : tree.Ordered) {v : AnswerValue} :
    (ofJson tree).find? name = some v ↔
      ∃ n, Leaf tree name n ∧ (∀ m, Leaf tree name m → m = n ∨ m.Before n) ∧
        AnswerValue.ofLeaf? n.value = some v := by
  rw [find?_eq, List.findSome?_eq_some_iff]
  have order : tree.nodes.reverse.Pairwise fun m n => n.Before m :=
    List.pairwise_reverse.2 ordered.nodes_ascending
  constructor
  · rintro ⟨later, n, earlier, split, found, silent⟩
    rw [split, List.pairwise_append, List.pairwise_cons] at order
    have among {m : Json.Node} : m ∈ tree.nodes ↔ m ∈ later ∨ m = n ∨ m ∈ earlier := by
      rw [← List.mem_reverse, split, List.mem_append, List.mem_cons]
    refine ⟨n, (leaf_iff ordered).2 ⟨among.2 (.inr (.inl rfl)), found ▸ rfl⟩, fun m leaf => ?_,
      (answered?_eq_some.1 found).2⟩
    obtain ⟨member, answered⟩ := (leaf_iff ordered).1 leaf
    rcases among.1 member with later | rfl | earlier
    · rw [silent m later] at answered
      cases answered
    · exact .inl rfl
    · exact .inr (order.2.1.1 m earlier)
  · rintro ⟨n, leaf, last, read⟩
    obtain ⟨member, -⟩ := (leaf_iff ordered).1 leaf
    obtain ⟨later, earlier, split⟩ := List.append_of_mem (List.mem_reverse.2 member)
    rw [split, List.pairwise_append] at order
    -- an answer among the later nodes would stand behind the last leaf
    refine ⟨later, n, earlier, split, answered?_eq_some.2 ⟨leaf.called, read⟩, fun m before => ?_⟩
    refine Option.not_isSome_iff_eq_none.1 fun answered => ?_
    have behind := order.2.2 m before n List.mem_cons_self
    have inside : m ∈ tree.nodes :=
      List.mem_reverse.1 (split ▸ List.mem_append_left _ before)
    rcases last m ((leaf_iff ordered).2 ⟨inside, answered⟩) with rfl | before
    · exact m.not_before_self behind
    · exact before.asymm behind

theorem find?_eq_none_iff_leaf (ordered : tree.Ordered) :
    (ofJson tree).find? name = none ↔ ∀ n, ¬ Leaf tree name n := by
  rw [find?_eq, List.findSome?_eq_none_iff]
  simp only [List.mem_reverse, leaf_iff ordered, not_and, Option.not_isSome_iff_eq_none]

/-- A name is looked up at the last leaf that is called so: all others stand in front of it.
Nothing is found exactly if there is no such leaf, and following the paths from the root again
finds the same. -/
theorem find?_last (ordered : tree.Ordered) (name : String) :
    (∀ v, (ofJson tree).find? name = some v ↔
      ∃ n, Leaf tree name n ∧ (∀ m, Leaf tree name m → m = n ∨ m.Before n) ∧
        AnswerValue.ofLeaf? n.value = some v) ∧
    ((ofJson tree).find? name = none ↔ ∀ n, ¬ Leaf tree name n) ∧
    follow? tree name = (ofJson tree).find? name :=
  ⟨fun _ => find?_eq_some_iff ordered, find?_eq_none_iff_leaf ordered, follow?_eq ordered name⟩

/-- Two answers called so, and behind them a missing one and an object. -/
def savedTree : Json := .object [("a.x", .text "first"),
  ("b", .object [("x", .array [.text "second"]), ("x.y", .bool true)]), ("c.x", .null),
  ("x", .object [("z", .text "third")])]

theorem savedTree_plain : Json.Plain 3 savedTree := by
  refine .object (by decide +kernel) ?_
  simp only [List.forall_mem_cons]
  refine ⟨.text _, .object (by decide +kernel) ?_, .null, .object (by decide +kernel) ?_, ?_⟩
  · exact List.forall_mem_cons.2 ⟨.array (List.forall_mem_singleton.2 (.text _)),
      List.forall_mem_singleton.2 (.bool _)⟩
  · exact List.forall_mem_singleton.2 (.text _)
  · exact List.forall_mem_nil _

theorem find?_last_savedTree : Json.read? savedTree.render = some savedTree ∧ savedTree.Ordered ∧
    (∃ n, Leaf savedTree "x" n ∧ (∀ m, Leaf savedTree "x" m → m = n ∨ m.Before n) ∧
      AnswerValue.ofLeaf? n.value = some (.many ["second"])) ∧
    follow? savedTree "x" = some (.many ["second"]) ∧ ∀ n, ¬ Leaf savedTree "c" n := by
  have read : Json.read? savedTree.render = some savedTree :=
    Json.read?_render (savedTree_plain.mono (by decide))
  have ordered := Json.ordered_of_read? read
  obtain ⟨found, -, followed⟩ := find?_last ordered "x"
  obtain ⟨-, silent, -⟩ := find?_last ordered "c"
  have second : (ofJson savedTree).find? "x" = some (.many ["second"]) := by decide +kernel
  exact ⟨read, ordered, (found _).1 second, followed.trans second, silent.1 (by decide +kernel)⟩

end LegacyIndex

end Questionnaire
