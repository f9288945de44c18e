import Mathlib
import Questionnaire.Evaluator
import Questionnaire.Proofs.Expr.Reduction
import Questionnaire.Proofs.Value.Comparison

/-! Conditions in call form. A comparison or connective between two operands can be written as
a call instead. Both forms come to the same, but for two kinds of operands: an order relation
in call form never holds of what is unanswered, while the infix one goes by the text, and a
connective in call form evaluates the operand that the infix one does not look at. -/
namespace Questionnaire

namespace InfixOp

/-- The function that a comparison or connective is in call form. -/
def function? : InfixOp → Option String
  | equal => some "equals"
  | notEqual => some "notEquals"
  | less => some "lessThan"
  | lessOrEqual => some "lessOrEqual"
  | greater => some "greaterThan"
  | greaterOrEqual => some "greaterOrEqual"
  | and => some "and"
  | or => some "or"
  | add | subtract | multiply | divide | modulo => none

def isOrder : InfixOp → Bool
  | less | lessOrEqual | greater | greaterOrEqual => true
  | or | and | equal | notEqual | add | subtract | multiply | divide | modulo => false

/-- A connective whose left operand leaves nothing open. -/
def decides (op : InfixOp) (left : Value) : Bool :=
  match op with
  | and => !left.truthy
  | or => left.truthy
  | _ => false

/-- The truth value between two values, for a comparison or connective. -/
def holds (op : InfixOp) (a b : Value) : Bool :=
  match op with
  | equal => a.looseEq b
  | notEqual => !a.looseEq b
  | less => a.looseCmp b == .lt
  | lessOrEqual => a.looseCmp b != .gt
  | greater => a.looseCmp b == .gt
  | greaterOrEqual => a.looseCmp b != .lt
  | and => a.truthy && b.truthy
  | or => a.truthy || b.truthy
  | add | subtract | multiply | divide | modulo => false

/-- For operands that come to this both forms come to the same: no order is asked of what is
unanswered, unless it does not hold by the text either, and no operand that fails is left
unlooked at. -/
def Agrees (op : InfixOp) (left right : Except EvalError Value) : Prop :=
  match left, right with
  | .ok a, .ok b => op.isOrder = true → (a.isEmpty || b.isEmpty) = true → op.holds a b = false
  | .ok a, .error _ => op.decides a = false
  | .error _, _ => True

end InfixOp

namespace Expr

mutual

/-- The tree with its comparisons and connectives as calls. -/
def callForm : Expr → Expr
  | number n => number n
  | text s => text s
  | boolean b => boolean b
  | null => null
  | loopIndex => loopIndex
  | reference name => reference name
  | unary op arg => unary op arg.callForm
  | binary left op right =>
    match op.function? with
    | some name => call name [left.callForm, right.callForm]
    | none => binary left.callForm op right.callForm
  | call name args => call name (callFormAll args)

def callFormAll : List Expr → List Expr
  | [] => []
  | arg :: args => arg.callForm :: callFormAll args

end

variable (functions : FunctionTable) (source : Source)

mutual

/-- Both forms come to the same at every comparison and connective of the tree. -/
def Settled : Expr → Prop
  | number _ | text _ | boolean _ | null | loopIndex | reference _ => True
  | unary _ arg => arg.Settled
  | binary left op right =>
    left.Settled ∧ right.Settled ∧
      (op.function?.isSome → op.Agrees (left.eval functions source) (right.eval functions source))
  | call _ args => SettledAll args

def SettledAll : List Expr → Prop
  | [] => True
  | arg :: args => arg.Settled ∧ SettledAll args

end

variable {functions source} {op : InfixOp} {name : String} {l r : Expr} {a b : Value} {e : EvalError}

/-! One comparison or connective -/

/-- An order in call form does not hold of what is unanswered. -/
theorem ordered_eq (accept : Ordering → Bool) (a b : Value) : Function.ordered accept a b =
    (accept (a.looseCmp b) && (!true || !(a.isEmpty || b.isEmpty))) := by
  rw [Function.ordered, ← Bool.not_or, Bool.and_comm, Bool.not_true, Bool.false_or]

theorem exists_relation (named : op.function? = some name) : ∃ called : Value → Value → Bool,
    Function.builtin.find? (·.name == name) = some (Function.relation name called) ∧
      ∀ a b, called a b = (op.holds a b && (!op.isOrder || !(a.isEmpty || b.isEmpty))) := by
  have unordered (holds : Bool) (a b : Value) :
      holds = (holds && (!false || !(a.isEmpty || b.isEmpty))) := by
    rw [Bool.not_false, Bool.true_or, Bool.and_true]
  cases op <;> cases named
  case or | and | equal | notEqual => exact ⟨_, rfl, fun a b => unordered _ a b⟩
  case less | lessOrEqual | greater | greaterOrEqual => exact ⟨_, rfl, fun a b => ordered_eq _ a b⟩

/-- The truth value of the infix form. -/
theorem eval_binary (named : op.function? = some name)
    (left : l.eval functions source = .ok a) (right : r.eval functions source = .ok b) :
    (binary l op r).eval functions source = .ok (.bool (op.holds a b)) := by
  cases op <;> cases named
  case and =>
    simp only [eval, left, right, bind, Except.bind, pure, Except.pure, InfixOp.holds]
    cases a.truthy <;> rfl
  case or =>
    simp only [eval, left, right, bind, Except.bind, pure, Except.pure, InfixOp.holds]
    cases a.truthy <;> rfl
  case equal | notEqual | less | lessOrEqual | greater | greaterOrEqual =>
    simp only [eval, left, right, bind, Except.bind]
    rfl

/-- The truth value of the call form. -/
theorem eval_called (keeps : functions.KeepsPositional) (named : op.function? = some name)
    (left : l.eval functions source = .ok a) (right : r.eval functions source = .ok b) :
    (call name [l, r]).eval functions source =
      .ok (.bool (op.holds a b && (!op.isOrder || !(a.isEmpty || b.isEmpty)))) := by
  obtain ⟨called, found, same⟩ := exists_relation named
  rw [← same a b]
  exact eval_call keeps (List.mem_of_find?_eq_some found) rfl left right

theorem eval_call_left (failed : l.eval functions source = .error e) :
    (call name [l, r]).eval functions source = .error e := by
  simp only [eval, evalAll, failed, bind, Except.bind]

theorem eval_call_right (left : l.eval functions source = .ok a)
    (failed : r.eval functions source = .error e) :
    (call name [l, r]).eval functions source = .error e := by
  simp only [eval, evalAll, left, failed, bind, Except.bind]

theorem eval_binary_left (failed : l.eval functions source = .error e) :
    (binary l op r).eval functions source = .error e := by
  cases op <;> simp only [eval, failed, bind, Except.bind]

/-- A connective that its left operand decides does not fail with the right one. -/
theorem eval_binary_right (named : op.function? = some name)
    (left : l.eval functions source = .ok a) (failed : r.eval functions source = .error e) :
    (binary l op r).eval functions source = .error e ↔ op.decides a = false := by
  cases op <;> cases named
  case and =>
    simp only [eval, left, failed, bind, Except.bind, pure, Except.pure, InfixOp.decides]
    cases a.truthy <;> simp
  case or =>
    simp only [eval, left, failed, bind, Except.bind, pure, Except.pure, InfixOp.decides]
    cases a.truthy <;> simp
  case equal | notEqual | less | lessOrEqual | greater | greaterOrEqual =>
    simp only [eval, left, failed, bind, Except.bind, InfixOp.decides]

theorem eval_forms_iff (keeps : functions.KeepsPositional) (named : op.function? = some name)
    (l r : Expr) : (binary l op r).eval functions source = (call name [l, r]).eval functions source ↔
      op.Agrees (l.eval functions source) (r.eval functions source) := by
  cases left : l.eval functions source with
  | error e =>
    rw [eval_binary_left left, eval_call_left left]
    exact iff_of_true rfl trivial
  | ok a =>
    cases right : r.eval functions source with
    | error e =>
      rw [eval_call_right left right, eval_binary_right named left right]
      rfl
    | ok b =>
      rw [eval_binary named left right, eval_called keeps named left right, Except.ok.injEq,
        Value.bool.injEq, InfixOp.Agrees]
      cases op.isOrder <;> cases a.isEmpty || b.isEmpty <;> simp

/-! Operands without an answer -/

theorem looseCmp_unanswered (empty : a.isEmpty = true) (b : Value) :
    a.looseCmp b = if b.display = "" then .eq else .lt := by
  have view : a.asNumber? = none ∧ a.asYearMonth? = none ∧ a.display = "" := by
    cases a with
    | null => exact ⟨rfl, rfl, rfl⟩
    | text s =>
      obtain rfl : s = "" := String.isEmpty_iff.1 empty
      exact ⟨Value.asNumber?_blank, Value.asYearMonth?_blank, rfl⟩
    | list items =>
      obtain rfl : items = [] := List.isEmpty_iff.1 empty
      exact ⟨rfl, rfl, rfl⟩
    | bool | number | yearMonth => cases empty
  have byText : a.looseCmp b = compareOfLessAndEq "" b.display := by
    rw [Value.looseCmp_unnamed (.inl view.2.1), Value.byQuantity_unnumbered view.1, view.2.2]
  rw [byText]
  split
  · next blank => rw [blank, Value.compareText_eq_iff]
  · next shown =>
    rw [compareOfLessAndEq_eq_lt, String.lt_iff]
    cases chars : b.display.toList with
    | nil => exact absurd (String.toList_eq_nil_iff.1 chars) shown
    | cons c cs => exact List.nil_lt_cons c cs

/-- What the operators make of an unanswered side: it goes in front of all that shows as some
text, so that only these orders agree with their call forms. -/
theorem agrees_unanswered (empty : a.isEmpty = true) (b : Value) :
    (InfixOp.Agrees .less (.ok a) (.ok b) ↔ b.display = "") ∧
    ¬InfixOp.Agrees .lessOrEqual (.ok a) (.ok b) ∧ InfixOp.Agrees .greater (.ok a) (.ok b) ∧
    (InfixOp.Agrees .greaterOrEqual (.ok a) (.ok b) ↔ b.display ≠ "") := by
  have order := looseCmp_unanswered empty b
  simp only [InfixOp.Agrees, InfixOp.isOrder, InfixOp.holds, empty, Bool.true_or, forall_const]
  rw [order]
  split
  · next blank => simp [blank]
  · next shown => simp [shown]

theorem agrees_unanswered_right (empty : b.isEmpty = true) (a : Value) :
    InfixOp.Agrees .less (.ok a) (.ok b) ∧
    (InfixOp.Agrees .lessOrEqual (.ok a) (.ok b) ↔ a.display ≠ "") ∧
    (InfixOp.Agrees .greater (.ok a) (.ok b) ↔ a.display = "") ∧
    ¬InfixOp.Agrees .greaterOrEqual (.ok a) (.ok b) := by
  have order := looseCmp_unanswered empty a
  simp only [InfixOp.Agrees, InfixOp.isOrder, InfixOp.holds, empty, Bool.or_true, forall_const]
  rw [← Value.looseCmp_swap, order]
  split
  · next blank => simp [blank]
  · next shown => simp [shown]

/-! Whole conditions -/

mutual

theorem eval_callForm (keeps : functions.KeepsPositional) : (e : Expr) →
    e.Settled functions source → e.callForm.eval functions source = e.eval functions source
  | number _, _ | text _, _ | boolean _, _ | null, _ | loopIndex, _ | reference _, _ => rfl
  | unary op arg, settled => by
    simp only [callForm, eval, eval_callForm keeps arg settled]
  | call name args, settled => by
    simp only [callForm, eval, evalAll_callFormAll keeps args settled]
  | binary left op right, ⟨first, second, agrees⟩ => by
    have left' := eval_callForm keeps left first
    have right' := eval_callForm keeps right second
    rw [callForm]
    split
    · next name named =>
      rw [(eval_forms_iff keeps named left right).2 (agrees (by rw [named]; rfl))]
      simp only [eval, evalAll, left', right']
    · cases op <;> simp only [eval, left', right']

theorem evalAll_callFormAll (keeps : functions.KeepsPositional) : (args : List Expr) →
    SettledAll functions source args →
      evalAll functions source (callFormAll args) = evalAll functions source args
  | [], _ => rfl
  | arg :: args, ⟨first, rest⟩ => by
    simp only [callFormAll, evalAll, eval_callForm keeps arg first,
      evalAll_callFormAll keeps args rest]

end

theorem condition_of_read {evaluator : Evaluator} {s : String} {e : Expr}
    (read : Expr.read evaluator.maxDepth s = .ok e) : evaluator.condition source s =
      match e.eval evaluator.functions source with
      | .ok v => v.truthy
      | .error _ => false := by
  rw [Evaluator.condition, Evaluator.evaluate, read]
  dsimp only
  cases e.eval evaluator.functions source <;> rfl

/-- Two operands with values, whatever these are: both forms have the same truth value, but for
an order with an unanswered side. There they differ as stated. Whatever becomes of the
operands, both forms come to the same exactly if the operands agree. A condition whose operands
agree everywhere keeps its value in call form, so that two texts that differ in the forms
only are the same condition. -/
theorem forms_agree (keeps : functions.KeepsPositional) (source : Source) :
    (∀ (op : InfixOp) (name : String) (l r : Expr) (a b : Value), op.function? = some name →
      l.eval functions source = .ok a → r.eval functions source = .ok b →
      (op.isOrder = true → a.isEmpty = false ∧ b.isEmpty = false) → ∃ holds : Bool,
        (binary l op r).eval functions source = .ok (.bool holds) ∧
        (call name [l, r]).eval functions source = .ok (.bool holds)) ∧
    (∀ a b : Value, a.isEmpty = true →
      (InfixOp.Agrees .less (.ok a) (.ok b) ↔ b.display = "") ∧
      ¬InfixOp.Agrees .lessOrEqual (.ok a) (.ok b) ∧ InfixOp.Agrees .greater (.ok a) (.ok b) ∧
      (InfixOp.Agrees .greaterOrEqual (.ok a) (.ok b) ↔ b.display ≠ "")) ∧
    (∀ a b : Value, b.isEmpty = true → InfixOp.Agrees .less (.ok a) (.ok b) ∧
      (InfixOp.Agrees .lessOrEqual (.ok a) (.ok b) ↔ a.display ≠ "") ∧
      (InfixOp.Agrees .greater (.ok a) (.ok b) ↔ a.display = "") ∧
      ¬InfixOp.Agrees .greaterOrEqual (.ok a) (.ok b)) ∧
    (∀ (op : InfixOp) (name : String) (l r : Expr), op.function? = some name →
      ((binary l op r).eval functions source = (call name [l, r]).eval functions source ↔
        op.Agrees (l.eval functions source) (r.eval functions source))) ∧
    (∀ e : Expr, e.Settled functions source →
      e.callForm.eval functions source = e.eval functions source) ∧
    ∀ (maxDepth : Nat) (s t : String) (e e' : Expr), Expr.read maxDepth s = .ok e →
      Expr.read maxDepth t = .ok e' → e.callForm = e'.callForm →
      e.Settled functions source → e'.Settled functions source →
        Evaluator.condition ⟨functions, maxDepth⟩ source s =
          Evaluator.condition ⟨functions, maxDepth⟩ source t := by
  refine ⟨fun op name l r a b named left right answered => ?_,
    fun a b empty => agrees_unanswered empty b, fun a b empty => agrees_unanswered_right empty a,
    fun op name l r named => eval_forms_iff keeps named l r, eval_callForm keeps, ?_⟩
  · have value := eval_binary named left right
    refine ⟨op.holds a b, value, ?_⟩
    rw [← (eval_forms_iff keeps named l r).2, value]
    rw [left, right]
    intro order unanswered
    obtain ⟨given, given'⟩ := answered order
    rw [given, given'] at unanswered
    cases unanswered
  · intro maxDepth s t e e' read read' same settled settled'
    have value : e.eval functions source = e'.eval functions source := by
      rw [← eval_callForm keeps e settled, same, eval_callForm keeps e' settled']
    rw [condition_of_read read, condition_of_read read', value]

/-- An answer of fifteen years. -/
def fifteen : Source := fun name => if name = "AGE" then some (.text "15") else none

/-- A condition on an answered question and one that is missing, in both forms. -/
theorem forms_agree_fifteen :
    (∃ holds : Bool, (binary (reference "AGE") .less (number (Decimal.ofNat 18))).eval .builtin
        fifteen = .ok (.bool holds) ∧
      (call "lessThan" [reference "AGE", number (Decimal.ofNat 18)]).eval .builtin fifteen =
        .ok (.bool holds)) ∧
    Expr.read 64 "AGE < 18 && CAR != 1" =
      .ok (binary (binary (reference "AGE") .less (number (Decimal.ofNat 18))) .and
        (binary (reference "CAR") .notEqual (number (Decimal.ofNat 1)))) ∧
    Evaluator.condition ⟨.builtin, 64⟩ fifteen "AGE < 18 && CAR != 1" =
      Evaluator.condition ⟨.builtin, 64⟩ fifteen "and(lessThan(AGE,18),notEquals(CAR,1))" := by
  have read : Expr.read 64 "AGE < 18 && CAR != 1" =
      .ok (binary (binary (reference "AGE") .less (number (Decimal.ofNat 18))) .and
        (binary (reference "CAR") .notEqual (number (Decimal.ofNat 1)))) := by cbv
  have read' : Expr.read 64 "and(lessThan(AGE,18),notEquals(CAR,1))" =
      .ok (call "and" [call "lessThan" [reference "AGE", number (Decimal.ofNat 18)],
        call "notEquals" [reference "CAR", number (Decimal.ofNat 1)]]) := by cbv
  have young : InfixOp.Agrees .less (.ok (.text "15")) (.ok (.number (Decimal.ofNat 18))) :=
    fun _ unanswered => by cases unanswered
  have settled : Settled .builtin fifteen
      (binary (binary (reference "AGE") .less (number (Decimal.ofNat 18))) .and
        (binary (reference "CAR") .notEqual (number (Decimal.ofNat 1)))) :=
    ⟨⟨trivial, trivial, fun _ => young⟩, ⟨trivial, trivial, fun _ order => by cases order⟩,
      fun _ order => by cases order⟩
  obtain ⟨values, -, -, -, -, texts⟩ := forms_agree FunctionTable.builtin_keepsPositional fifteen
  exact ⟨values .less "lessThan" _ _ _ _ rfl rfl rfl fun _ => ⟨rfl, rfl⟩, read,
    texts 64 _ _ _ _ read read' rfl settled ⟨⟨trivial, trivial, trivial⟩,
      ⟨trivial, trivial, trivial⟩, trivial⟩⟩

/-- Who has not given an age is younger than eighteen for the operator only. -/
theorem forms_differ_unanswered :
    Evaluator.condition ⟨.builtin, 64⟩ (fun _ => none) "AGE < 18" = true ∧
      Evaluator.condition ⟨.builtin, 64⟩ (fun _ => none) "lessThan(AGE,18)" = false :=
  ⟨by cbv, by cbv⟩

end Expr

end Questionnaire
