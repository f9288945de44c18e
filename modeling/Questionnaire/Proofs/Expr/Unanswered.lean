import Questionnaire.Proofs.Expr.Reduction
import Questionnaire.Proofs.Value.Missing

/-! Conditions over missing answers, evaluated as trees and reduced by position. The tree takes
a missing answer as missing, the reduction as empty text. Both come to the same truth value
unless some call tells the two apart: an equation with a list on its other side, or a
search for a missing answer or in one. -/
namespace Questionnaire.Expr
variable {functions : FunctionTable} {source : Source} {cs : List Char} {e a b : Expr}
  {name : String} {v v' w w' : Value}

/-- The name of an answer that the source does not have. -/
def Unanswered (source : Source) (e : Expr) : Prop :=
  ∃ name, e = reference name ∧ source name = none

/-- A call whose value depends on whether a missing answer counts as missing or as empty text:
an equation with a list that is empty or has an empty item, a search of a missing answer for
what shows as empty text, and a search for a missing answer among items some of which are
empty as a missing answer is, or as empty text is, but not both. -/
inductive Tells (functions : FunctionTable) (source : Source) : Expr → Prop
  | left {name : String} {a b : Expr} {v : Value} (equation : name ∈ ["equals", "notEquals"])
      (missing : a.Unanswered source) (value : b.eval functions source = .ok v)
      (hollow : v.isHollow = true) : Tells functions source (call name [a, b])
  | right {name : String} {a b : Expr} {v : Value} (equation : name ∈ ["equals", "notEquals"])
      (missing : b.Unanswered source) (value : a.eval functions source = .ok v)
      (hollow : v.isHollow = true) : Tells functions source (call name [a, b])
  | searched {a b : Expr} {v : Value} (missing : a.Unanswered source)
      (value : b.eval functions source = .ok v) (empty : v.display = "") :
      Tells functions source (call "contains" [a, b])
  | sought {a b : Expr} {items : List Value} (missing : b.Unanswered source)
      (value : a.eval functions source = .ok (.list items))
      (differ : items.any Value.isEmpty ≠ items.any Value.hasBlank) :
      Tells functions source (call "contains" [a, b])

/-- No call within the tree tells a missing answer from empty text. -/
inductive Indifferent (functions : FunctionTable) (source : Source) : Expr → Prop
  | leaf {cs : List Char} {e : Expr} (spelled : Leaf cs e) : Indifferent functions source e
  | call {name : String} {a b : Expr} (alike : ¬Tells functions source (call name [a, b]))
      (first : Indifferent functions source a) (second : Indifferent functions source b) :
      Indifferent functions source (call name [a, b])

theorem Indifferent.of_call (indifferent : Indifferent functions source (.call name [a, b])) :
    ¬Tells functions source (.call name [a, b]) ∧ Indifferent functions source a ∧
      Indifferent functions source b := by
  cases indifferent with
  | leaf spelled =>
    cases spelled with
    | constant known => simp [constants] at known
  | call alike first second => exact ⟨alike, first, second⟩

/-- The values of a tree, with missing answers and with empty text in their place. -/
structure Stands (functions : FunctionTable) (source : Source) (e : Expr) (v w : Value) : Prop where
  value : e.eval functions source = .ok v
  filled : e.eval functions source.filled = .ok w
  fills : (e.Unanswered source ∧ v = .null ∧ w = .text "") ∨ (¬e.Unanswered source ∧ v = w)

theorem Stands.related (stands : Stands functions source e v w) : Value.Fills v w := by
  obtain ⟨-, rfl, rfl⟩ | ⟨-, rfl⟩ := stands.fills
  · exact .missing
  · exact .same v

theorem Leaf.stands (functions : FunctionTable) (source : Source) (leaf : Leaf cs e) :
    ∃ v w, Stands functions source e v w := by
  have same {v : Value} (value : e.eval functions source = .ok v)
      (filled : e.eval functions source.filled = .ok v) (given : ¬e.Unanswered source) :
      ∃ v w, Stands functions source e v w :=
    ⟨v, v, value, filled, .inr ⟨given, rfl⟩⟩
  have other (named : ∀ name, e ≠ reference name) : ¬e.Unanswered source := by
    rintro ⟨name, same, -⟩
    exact named name same
  cases leaf with
  | number | text => exact same rfl rfl (other (by simp))
  | constant known =>
    simp only [constants, List.mem_cons, Prod.mk.injEq, List.not_mem_nil, or_false] at known
    rcases known with ⟨rfl, rfl⟩ | ⟨rfl, rfl⟩ | ⟨rfl, rfl⟩ | ⟨rfl, rfl⟩ | ⟨rfl, rfl⟩
    all_goals exact same rfl rfl (other (by simp))
  | @answer head tail named within free =>
    have value : (reference (wordName head tail)).eval functions source =
        .ok ((source (wordName head tail)).getD .null) := rfl
    have filled : (reference (wordName head tail)).eval functions source.filled =
        .ok ((source (wordName head tail)).getD (.text "")) := rfl
    cases found : source (wordName head tail) with
    | some v =>
      rw [found] at value filled
      refine same value filled ?_
      rintro ⟨name, ⟨⟩, missing⟩
      cases found.symm.trans missing
    | none =>
      rw [found] at value filled
      exact ⟨.null, .text "", value, filled, .inl ⟨⟨_, rfl, found⟩, rfl, rfl⟩⟩

/-! One call -/

/-- Only equations and searches tell a missing answer from empty text. -/
theorem Tells.named (tells : Tells functions source (.call name [a, b])) :
    name ∈ ["equals", "notEquals", "contains"] := by
  cases tells with
  | left equation | right equation => exact List.mem_append_left ["contains"] equation
  | searched | sought => simp

theorem relation_alike_iff {holds : Value → Value → Bool} :
    (Function.relation name holds).call [v, v'] = (Function.relation name holds).call [w, w'] ↔
      holds v v' = holds w w' := by
  simp [Function.relation, Function.binary]

section
variable (first : Stands functions source a v w) (second : Stands functions source b v' w')
include first second

theorem tells_equation_iff (equation : name ∈ ["equals", "notEquals"]) :
    Tells functions source (call name [a, b]) ↔
      (a.Unanswered source ∧ v'.isHollow = true) ∨ (b.Unanswered source ∧ v.isHollow = true) := by
  constructor
  · intro tells
    cases tells with
    | left _ missing value hollow =>
      obtain rfl := Except.ok.inj (value.symm.trans second.value)
      exact .inl ⟨missing, hollow⟩
    | right _ missing value hollow =>
      obtain rfl := Except.ok.inj (value.symm.trans first.value)
      exact .inr ⟨missing, hollow⟩
    | searched | sought => exact absurd equation (by decide)
  · rintro (⟨missing, hollow⟩ | ⟨missing, hollow⟩)
    · exact .left equation missing second.value hollow
    · exact .right equation missing first.value hollow

theorem tells_search_iff : Tells functions source (call "contains" [a, b]) ↔
    (a.Unanswered source ∧ v'.display = "") ∨ (b.Unanswered source ∧
      ∃ items, v = .list items ∧ items.any Value.isEmpty ≠ items.any Value.hasBlank) := by
  constructor
  · intro tells
    cases tells with
    | left equation | right equation => exact absurd equation (by decide)
    | searched missing value empty =>
      obtain rfl := Except.ok.inj (value.symm.trans second.value)
      exact .inl ⟨missing, empty⟩
    | sought missing value differ =>
      exact .inr ⟨missing, _, Except.ok.inj (first.value.symm.trans value), differ⟩
  · rintro (⟨missing, empty⟩ | ⟨missing, items, rfl, differ⟩)
    · exact .searched missing second.value empty
    · exact .sought missing first.value differ

theorem looseEq_alike_iff (equation : name ∈ ["equals", "notEquals"]) :
    v.looseEq v' = w.looseEq w' ↔ ¬Tells functions source (call name [a, b]) := by
  rw [tells_equation_iff first second equation]
  obtain ⟨missing, rfl, rfl⟩ | ⟨given, rfl⟩ := first.fills
  · obtain ⟨missing', rfl, rfl⟩ | ⟨given', rfl⟩ := second.fills
    · exact iff_of_true rfl (by simp [Value.isHollow])
    · simp [missing, given', (Value.looseEq_missing_iff v').1]
  · obtain ⟨missing', rfl, rfl⟩ | ⟨given', rfl⟩ := second.fills
    · simp [given, missing', (Value.looseEq_missing_iff v).2]
    · simp [given, given']

theorem contains_alike_iff : Function.contains v v' = Function.contains w w' ↔
    ¬Tells functions source (call "contains" [a, b]) := by
  rw [tells_search_iff first second]
  obtain ⟨missing, rfl, rfl⟩ | ⟨given, rfl⟩ := first.fills
  · obtain ⟨missing', rfl, rfl⟩ | ⟨given', rfl⟩ := second.fills
    · exact iff_of_false (by decide) (by simp [missing, Value.display])
    · simp [missing, given', Function.contains_missing_iff]
  · obtain ⟨missing', rfl, rfl⟩ | ⟨given', rfl⟩ := second.fills
    · simp [given, missing', Function.contains_of_missing_iff]
    · simp [given, given']

/-- A call has the same value with missing answers and with empty text in their place exactly
if it does not tell them apart. -/
theorem call_alike_iff {f : Function} (known : f ∈ Function.builtin)
    (positional : f.positional = true) :
    f.call [v, v'] = f.call [w, w'] ↔ ¬Tells functions source (call f.name [a, b]) := by
  have ordered (accept : Ordering → Bool) :
      Function.ordered accept v v' = Function.ordered accept w w' :=
    first.related.ordered second.related accept
  have truth := first.related.truthy
  have truth' := second.related.truthy
  have blind {name : String} {holds : Value → Value → Bool} (same : holds v v' = holds w w')
      (other : name ∉ ["equals", "notEquals", "contains"]) :
      (Function.relation name holds).call [v, v'] = (Function.relation name holds).call [w, w'] ↔
        ¬Tells functions source (call name [a, b]) :=
    iff_of_true (relation_alike_iff.2 same) fun tells => other tells.named
  simp only [Function.builtin, List.mem_cons, List.not_mem_nil, or_false] at known
  -- The positional functions, in the order of the table, and the others.
  rcases known with rfl | rfl | rfl | rfl | rfl | rfl | rfl | rfl | rfl | others
  · exact relation_alike_iff.trans (looseEq_alike_iff first second (by decide))
  · exact relation_alike_iff.trans
      (Bool.not_inj_iff.trans (looseEq_alike_iff first second (by decide)))
  · exact blind (ordered _) (by decide)
  · exact blind (ordered _) (by decide)
  · exact blind (ordered _) (by decide)
  · exact blind (ordered _) (by decide)
  · exact blind (congrArg₂ and truth truth') (by decide)
  · exact blind (congrArg₂ or truth truth') (by decide)
  · exact relation_alike_iff.trans (contains_alike_iff first second)
  · rcases others with rfl | rfl | rfl | rfl | rfl | rfl | rfl | rfl | rfl | rfl | rfl
    all_goals cases positional

end

/-- The tree of a nested text has a value, and it stands for the same truth with empty text in
place of missing answers if no call tells them apart. -/
theorem Nested.eval (keeps : functions.KeepsPositional) (source : Source) (nested : Nested cs e) :
    ∃ v, e.eval functions source = .ok v ∧
      (Indifferent functions source e → ∃ w, Stands functions source e v w) := by
  induction nested with
  | leaf spelled _ =>
    obtain ⟨v, w, stands⟩ := spelled.stands functions source
    exact ⟨v, stands.value, fun _ => ⟨w, stands⟩⟩
  | @call before after last as bs f a b known positional blanks _ _ first second =>
    obtain ⟨v, value, first⟩ := first
    obtain ⟨v', value', second⟩ := second
    obtain ⟨result, called⟩ := Function.call_ok known positional v v'
    have evaluated := (eval_call keeps known positional value value').trans called
    -- The value exists whatever the call tells apart, so that the outer calls are evaluated too.
    refine ⟨result, evaluated, fun indifferent => ?_⟩
    obtain ⟨alike, indifferent, indifferent'⟩ := indifferent.of_call
    obtain ⟨w, stands⟩ := first indifferent
    obtain ⟨w', stands'⟩ := second indifferent'
    have same := (call_alike_iff stands stands' known positional).2 alike
    refine ⟨result, evaluated, ?_, .inr ⟨by simp [Unanswered], rfl⟩⟩
    rw [eval_call keeps known positional stands.filled stands'.filled, ← same, called]

/-- Every text of nested calls, within the depth limit, is read by the grammar, and both its
tree and its reduction have a value. The truth values agree if no call tells a missing answer
from empty text. -/
theorem Nested.reduce_truthy {s : String} {maxDepth : Nat} (keeps : functions.KeepsPositional)
    (source : Source) (nested : Nested s.toList e) (shallow : e.depth ≤ maxDepth) :
    Expr.read maxDepth s = .ok e ∧ ∃ v w, e.eval functions source = .ok v ∧
      Positional.reduce functions source s = .ok w ∧ e.eval functions source.filled = .ok w ∧
        (Indifferent functions source e → v.truthy = w.truthy) := by
  obtain ⟨w, filled, reduced⟩ := nested.reduce keeps source
  obtain ⟨v, value, agrees⟩ := nested.eval keeps source
  refine ⟨nested.read shallow, v, w, value, reduced, filled, fun indifferent => ?_⟩
  obtain ⟨w', stands⟩ := agrees indifferent
  obtain rfl := Except.ok.inj (stands.filled.symm.trans filled)
  exact stands.related.truthy

/-- A source with one answer. -/
def oneAnswer : Source := fun name => if name = "F.B" then some (.text "2") else none

theorem leaf_missing : Leaf ['A'] (reference "A") :=
  .question (isName_of_all rfl rfl) (by decide)

/-- An equation with a missing answer beside a comparison of a given one. -/
theorem reduce_truthy_missing : ∃ e v w,
    Expr.read 64 "and(notEquals(A,'x'),lessThan(F.B,3))" = .ok e ∧
      e.eval .builtin oneAnswer = .ok v ∧
      Positional.reduce .builtin oneAnswer "and(notEquals(A,'x'),lessThan(F.B,3))" = .ok w ∧
      v.truthy = w.truthy := by
  have quoted : Leaf ('\'' :: ['x'] ++ ['\'']) (text (String.ofList ['x'])) :=
    .text (.inr rfl) (List.forall_mem_singleton.2 rfl)
  have field : Leaf (['F'] ++ '.' :: ['B']) (reference "F.B") :=
    .field (isName_of_all rfl rfl) (isName_of_all rfl rfl) (by decide)
  have three : Leaf ['3'] (number (Decimal.ofNat 3)) :=
    .number (.whole (by simp) (List.forall_mem_singleton.2 rfl)) rfl
  have equation : Nested "notEquals(A,'x')".toList (call "notEquals" [reference "A", text "x"]) :=
    .short "notEquals" (by decide) leaf_missing.nested quoted.nested
  have comparison : Nested "lessThan(F.B,3)".toList
      (call "lessThan" [reference "F.B", number (Decimal.ofNat 3)]) :=
    .short "lessThan" (by decide) field.nested three.nested
  have nested : Nested "and(notEquals(A,'x'),lessThan(F.B,3))".toList (call "and" [
      call "notEquals" [reference "A", text "x"],
      call "lessThan" [reference "F.B", number (Decimal.ofNat 3)]]) :=
    .short "and" (by decide) equation comparison
  have alike : ¬Tells .builtin oneAnswer (call "notEquals" [reference "A", text "x"]) := by
    generalize named : "notEquals" = name
    intro tells
    cases tells with
    | left _ _ value hollow =>
      cases value
      cases hollow
    | right _ missing =>
      obtain ⟨name, same, -⟩ := missing
      cases same
    | searched | sought => exact absurd named (by decide)
  have indifferent : Indifferent .builtin oneAnswer (call "and" [
      call "notEquals" [reference "A", text "x"],
      call "lessThan" [reference "F.B", number (Decimal.ofNat 3)]]) :=
    .call (fun tells => absurd tells.named (by decide))
      (.call alike (.leaf leaf_missing) (.leaf quoted))
      (.call (fun tells => absurd tells.named (by decide)) (.leaf field) (.leaf three))
  have shallow : (call "and" [call "notEquals" [reference "A", text "x"],
      call "lessThan" [reference "F.B", number (Decimal.ofNat 3)]]).depth ≤ 64 := by
    decide
  obtain ⟨read, v, w, value, reduced, -, truth⟩ :=
    Nested.reduce_truthy FunctionTable.builtin_keepsPositional oneAnswer nested shallow
  exact ⟨_, v, w, read, value, reduced, truth indifferent⟩

theorem nested_contains : Nested "contains(A,\"\")".toList
    (call "contains" [reference "A", text ""]) := by
  have quoted : Leaf ('"' :: [] ++ ['"']) (text (String.ofList [])) := .text (.inl rfl) nofun
  exact .short "contains" (by decide) leaf_missing.nested quoted.nested

/-- An empty text contains the empty text, a missing answer does not. -/
theorem reduce_contains_missing : Nested "contains(A,\"\")".toList
      (call "contains" [reference "A", text ""]) ∧
    (call "contains" [reference "A", text ""]).depth ≤ 64 ∧
    (call "contains" [reference "A", text ""]).eval .builtin (fun _ => none) =
      .ok (.bool false) ∧
    Positional.reduce .builtin (fun _ => none) "contains(A,\"\")" = .ok (.bool true) := by
  refine ⟨nested_contains, by decide, rfl, ?_⟩
  obtain ⟨w, value, reduced⟩ :=
    nested_contains.reduce FunctionTable.builtin_keepsPositional fun _ => none
  obtain rfl : w = .bool true := Except.ok.inj (value.symm.trans rfl)
  exact reduced

end Questionnaire.Expr
