import Mathlib.Logic.Relation
import Questionnaire.Proofs.Expr.Reduction

/-! Reduction by position is evaluation of a tree of calls with two arguments each, although it
never builds that tree. What a token on the stack stands for is a part of the text that was
reduced to it, and every reduction joins such parts to a larger one. -/
namespace Questionnaire

/-- A function that a host program adds to the table. -/
structure Registration where
  name : String
  leastArgs : Nat
  mostArgs : Option Nat
  call : List Value → Except EvalError Value

namespace FunctionTable

/-- The built-in table with the functions that a host program has added, one after the other. -/
def extended (added : List Registration) : FunctionTable :=
  added.foldl (fun table r => table.register r.name r.leastArgs r.mostArgs r.call) builtin

/-- No host program adds a positional function. -/
theorem positional_builtin {added : List Registration} {f : Function}
    (member : f ∈ (extended added).functions) (positional : f.positional = true) :
    f ∈ Function.builtin := by
  suffices kept : ∀ table : FunctionTable,
      (∀ g ∈ table.functions, g.positional = true → g ∈ Function.builtin) →
        ∀ g ∈ (added.foldl (fun table r => table.register r.name r.leastArgs r.mostArgs r.call)
          table).functions, g.positional = true → g ∈ Function.builtin from
    kept builtin (fun g known _ => known) f member positional
  clear member
  induction added with
  | nil => exact fun table known => known
  | cons r added ih =>
    intro table known
    refine ih _ fun g member positional => ?_
    rcases List.mem_cons.1 member with rfl | member
    · contradiction
    · exact known g member positional

theorem findPositional?_builtin {added : List Registration} {name : String} {f : Function}
    (found : (extended added).findPositional? name = some f) :
    f ∈ Function.builtin ∧ f.positional = true := by
  obtain ⟨found, positional⟩ := Option.filter_eq_some_iff.1 found
  exact ⟨positional_builtin (List.mem_of_find?_eq_some found) positional, positional⟩

end FunctionTable

namespace Positional

open Text

/-! The tokens of a text -/

/-- A text is cut at parentheses and commas. Every piece makes one token, unless it is blank. -/
inductive Cut : List Char → List Token → Prop
  | last {cs : List Char} (plain : ∀ c ∈ cs, structural? c = none) : Cut cs (rawTokens cs)
  | piece {cs rest : List Char} {c : Char} {t : Token} {ts : List Token}
      (plain : ∀ c ∈ cs, structural? c = none) (structural : structural? c = some t)
      (further : Cut rest ts) : Cut (cs ++ c :: rest) (rawTokens cs ++ t :: ts)

theorem tokensFrom_cut {pending cs : List Char} (plain : ∀ c ∈ pending, structural? c = none) :
    Cut (pending.reverse ++ cs) (tokensFrom pending cs) := by
  induction cs generalizing pending with
  | nil =>
    rw [List.append_nil]
    exact .last fun c member => plain c (List.mem_reverse.1 member)
  | cons c cs ih =>
    cases structural : structural? c with
    | some t =>
      rw [tokensFrom_structural structural]
      have further : Cut ([].reverse ++ cs) (tokensFrom [] cs) := ih (by simp)
      exact .piece (fun c member => plain c (List.mem_reverse.1 member)) structural further
    | none =>
      have cut := ih (List.forall_mem_cons.2 ⟨structural, plain⟩)
      rw [List.reverse_cons, List.append_assoc] at cut
      rw [tokensFrom, structural]
      exact cut

theorem Cut.tokensFrom_eq {cs : List Char} {ts : List Token} (cut : Cut cs ts) :
    tokensFrom [] cs = ts := by
  induction cut with
  | last plain =>
    have ends : Ends (fun c => (structural? c).isNone) [] := rfl
    have tokens := tokensFrom_plain plain ends
    rw [List.append_nil] at tokens
    rw [tokens, tokensFrom, List.reverse_nil]
    exact List.append_nil _
  | piece plain structural _ ih =>
    rw [tokensFrom_plain plain (by simp [Ends, structural]), tokensFrom_structural structural, ih]
    rfl

theorem cut_iff {s : String} {ts : List Token} : Cut s.toList ts ↔ tokens s = ts := by
  constructor
  · exact Cut.tokensFrom_eq
  · rintro rfl
    have plain : ∀ c ∈ ([] : List Char), structural? c = none := by simp
    exact tokensFrom_cut plain

/-! Trees -/

/-- What a token that is no part of a call may stand for; the first reading that applies counts. -/
def readings (source : Source) : List (String → Option Value) := [
  fun s => if s = "null" ∨ s = "undefined" then some .null else none,
  fun s => if s = "true" then some (.bool true) else if s = "false" then some (.bool false) else none,
  fun s => if s = loopIndexToken then some (.text loopIndexToken) else none,
  fun s => (Decimal.read? s).map .number,
  fun s => ((unquote? '"' s.toList).or (unquote? '\'' s.toList)).map .text,
  source]

/-- What nothing else is known of is empty text. -/
theorem resolve_eq (source : Source) (s : String) :
    resolve source s = ((readings source).findSome? (· s)).getD (.text "") := by
  simp only [resolve, readings, List.findSome?_cons, List.findSome?_nil, beq_iff_eq, Bool.or_eq_true]
  split_ifs <;> try rfl
  cases Decimal.read? s with
  | some n => rfl
  | none =>
    cases (unquote? '"' s.toList).or (unquote? '\'' s.toList) with
    | some inner => rfl
    | none => cases source s <;> rfl

/-- A text, or the call of a function with two arguments. -/
inductive Term where
  | atom (s : String)
  | call (name : String) (first second : Term)

variable (functions : FunctionTable) (source : Source)

namespace Term

/-- The tokens that a tree is written with. -/
def tokens : Term → List Token
  | atom s => [.raw s]
  | call name a b => .raw name :: .openParen :: (a.tokens ++ .comma :: (b.tokens ++ [.closeParen]))

/-- Every function that is called is positional. -/
def Callable : Term → Prop
  | atom _ => True
  | call name a b => (functions.findPositional? name).isSome ∧ a.Callable ∧ b.Callable

def value? : Term → Option Value
  | atom s => some (((readings source).findSome? (· s)).getD (.text ""))
  | call name a b => do
    let f ← functions.findPositional? name
    let v ← a.value?
    let w ← b.value?
    (f.call [v, w]).toOption

variable {functions source} {t : Term} {u : Value}

theorem value?_call {name : String} {a b : Term} :
    (call name a b).value? functions source = some u ↔
      ∃ f v w, functions.findPositional? name = some f ∧ a.value? functions source = some v ∧
        b.value? functions source = some w ∧ f.call [v, w] = .ok u := by
  have ok (outcome : Except EvalError Value) : outcome.toOption = some u ↔ outcome = .ok u := by
    cases outcome <;> simp [Except.toOption]
  simp only [value?, Option.bind_eq_bind, Option.bind_eq_some_iff, ok]
  constructor
  · rintro ⟨f, found, v, first, w, second, result⟩
    exact ⟨f, v, w, found, first, second, result⟩
  · rintro ⟨f, v, w, found, first, second, result⟩
    exact ⟨f, found, v, first, w, second, result⟩

/-- A tree has a value exactly if all its functions are positional: none of them fails. -/
theorem callable_iff {added : List Registration} (source : Source) (t : Term) :
    t.Callable (.extended added) ↔ ∃ v, t.value? (.extended added) source = some v := by
  induction t with
  | atom s => exact ⟨fun _ => ⟨_, rfl⟩, fun _ => trivial⟩
  | call name a b first second =>
    constructor
    · rintro ⟨known, left, right⟩
      obtain ⟨f, found⟩ := Option.isSome_iff_exists.1 known
      obtain ⟨v, left⟩ := first.1 left
      obtain ⟨w, right⟩ := second.1 right
      obtain ⟨builtin, positional⟩ := FunctionTable.findPositional?_builtin found
      obtain ⟨u, result⟩ := Function.call_ok builtin positional v w
      exact ⟨u, value?_call.2 ⟨f, v, w, found, left, right, result⟩⟩
    · rintro ⟨u, value⟩
      obtain ⟨f, v, w, found, left, right, -⟩ := value?_call.1 value
      exact ⟨Option.isSome_iff_exists.2 ⟨f, found⟩, first.2 ⟨v, left⟩, second.2 ⟨w, right⟩⟩

/-- A tree can be told from its tokens and what follows them, unless this opens a call. -/
theorem tokens_inj {t t' : Term} {rest rest' : List Token}
    (apart : rest.head? ≠ some .openParen) (apart' : rest'.head? ≠ some .openParen)
    (same : t.tokens ++ rest = t'.tokens ++ rest') : t = t' ∧ rest = rest' := by
  induction t generalizing t' rest rest' with
  | atom s =>
    cases t' with
    | atom s' =>
      cases same
      exact ⟨rfl, rfl⟩
    | call name a b =>
      obtain ⟨-, rfl⟩ := List.cons.inj same
      exact (apart rfl).elim
  | call name a b first second =>
    cases t' with
    | atom s =>
      obtain ⟨-, rfl⟩ := List.cons.inj same
      exact (apart' rfl).elim
    | call name' a' b' =>
      simp only [tokens, List.cons_append, List.append_assoc, List.nil_append, List.cons.injEq,
        Token.raw.injEq, true_and] at same
      obtain ⟨rfl, arguments⟩ := same
      obtain ⟨rfl, separated⟩ := first (by simp) (by simp) arguments
      obtain ⟨rfl, closed⟩ := second (by simp) (by simp) (List.cons.inj separated).2
      exact ⟨rfl, (List.cons.inj closed).2⟩

theorem tokens_injective {t t' : Term} (same : t.tokens = t'.tokens) : t = t' := by
  have alone : t.tokens ++ [] = t'.tokens ++ [] := by rw [same]
  exact (tokens_inj (by simp) (by simp) alone).1

end Term

/-! Rewriting -/

/-- The six tokens that end at the first closing parenthesis become one. -/
inductive Rewrites : List Token → List Token → Prop
  | call {before after : List Token} {name : String} {first second : Token} {f : Function}
      {a b v : Value} (leftmost : ∀ t ∈ before, t ≠ .closeParen)
      (found : functions.findPositional? name = some f) (left : first.value? source = some a)
      (right : second.value? source = some b) (result : f.call [a, b] = .ok v) :
      Rewrites (before ++ .raw name :: .openParen :: first :: .comma :: second :: .closeParen :: after)
        (before ++ .resolved v :: after)

/-- Tokens and those of the text that were rewritten to them: what is resolved stands for a tree
of its value. -/
inductive Stands : List Token → List Token → Prop
  | nil : Stands [] []
  | written {t : Token} {ts os : List Token} (unresolved : ∀ v, t ≠ .resolved v)
      (further : Stands ts os) : Stands (t :: ts) (t :: os)
  | reduced {t : Term} {v : Value} {ts os : List Token} (value : t.value? functions source = some v)
      (further : Stands ts os) : Stands (.resolved v :: ts) (t.tokens ++ os)

variable {functions source} {ts ts' os os' : List Token} {t : Token} {v : Value}

theorem Stands.append (stands : Stands functions source ts os)
    (further : Stands functions source ts' os') :
    Stands functions source (ts ++ ts') (os ++ os') := by
  induction stands with
  | nil => exact further
  | written unresolved _ ih => exact .written unresolved ih
  | reduced value _ ih =>
    rw [List.append_assoc]
    exact .reduced value ih

theorem Stands.append_inv (stands : Stands functions source (ts ++ ts') os) :
    ∃ os₁ os₂, os = os₁ ++ os₂ ∧ Stands functions source ts os₁ ∧
      Stands functions source ts' os₂ := by
  induction ts generalizing os with
  | nil => exact ⟨[], os, rfl, .nil, stands⟩
  | cons t ts ih =>
    cases stands with
    | written unresolved further =>
      obtain ⟨os₁, os₂, rfl, front, back⟩ := ih further
      exact ⟨t :: os₁, os₂, rfl, .written unresolved front, back⟩
    | reduced value further =>
      obtain ⟨os₁, os₂, rfl, front, back⟩ := ih further
      exact ⟨_ ++ os₁, os₂, (List.append_assoc ..).symm, .reduced value front, back⟩

theorem Stands.symbol (unresolved : ∀ v, t ≠ .resolved v)
    (stands : Stands functions source (t :: ts) os) :
    ∃ os', os = t :: os' ∧ Stands functions source ts os' := by
  cases stands with
  | @written _ _ os _ further => exact ⟨os, rfl, further⟩
  | reduced => exact (unresolved _ rfl).elim

/-- A token that has a value stands for a tree of that value. -/
theorem Stands.argument (value : t.value? source = some v)
    (stands : Stands functions source (t :: ts) os) :
    ∃ (tree : Term) (os' : List Token), os = tree.tokens ++ os' ∧
      tree.value? functions source = some v ∧ Stands functions source ts os' := by
  cases stands with
  | @reduced tree _ _ os known further =>
    cases value
    exact ⟨tree, os, rfl, known, further⟩
  | @written _ _ os unresolved further =>
    cases t with
    | raw s =>
      cases value
      exact ⟨.atom s, os, rfl, by rw [Term.value?, resolve_eq], further⟩
    | resolved w => exact (unresolved w rfl).elim
    | openParen | closeParen | comma => cases value

/-- Rewriting joins the parts of the text that the tokens of a call stand for. -/
theorem Rewrites.stands (step : Rewrites functions source ts ts')
    (stands : Stands functions source ts os) : Stands functions source ts' os := by
  obtain ⟨-, found, left, right, result⟩ := step
  -- The six tokens are followed one by one: four are written as they are, two are arguments.
  obtain ⟨os₁, os₂, rfl, front, back⟩ := stands.append_inv
  obtain ⟨_, rfl, opened⟩ := back.symbol (by simp)
  obtain ⟨_, rfl, arguments⟩ := opened.symbol (by simp)
  obtain ⟨a, _, rfl, first, separated⟩ := arguments.argument left
  obtain ⟨_, rfl, last⟩ := separated.symbol (by simp)
  obtain ⟨b, _, rfl, second, closed⟩ := last.argument right
  obtain ⟨_, rfl, further⟩ := closed.symbol (by simp)
  have tree := Term.value?_call.2 ⟨_, _, _, found, first, second, result⟩
  simpa [Term.tokens] using front.append (.reduced tree further)

/-- Tokens of a text stand for themselves. -/
theorem Stands.refl (written : ∀ t ∈ ts, ∀ v, t ≠ .resolved v) : Stands functions source ts ts := by
  induction ts with
  | nil => exact .nil
  | cons t ts ih =>
    obtain ⟨here, later⟩ := List.forall_mem_cons.1 written
    exact .written here (ih later)

theorem rawTokens_written (cs : List Char) : ∀ t ∈ rawTokens cs, ∀ v, t ≠ .resolved v := by
  unfold rawTokens
  split <;> simp

theorem structural_written {c : Char} (structural : structural? c = some t) :
    ∀ v, t ≠ .resolved v := by
  unfold structural? at structural
  split at structural <;> cases structural <;> nofun

theorem Cut.written {cs : List Char} (cut : Cut cs ts) : ∀ t ∈ ts, ∀ v, t ≠ .resolved v := by
  induction cut with
  | last => exact rawTokens_written _
  | piece _ structural _ ih =>
    exact List.forall_mem_append.2 ⟨rawTokens_written _,
      List.forall_mem_cons.2 ⟨structural_written structural, ih⟩⟩

/-! The stack -/

theorem reduceCall_eq_ok {stack below : List Token}
    (reduced : reduceCall functions source stack = .ok (v, below)) :
    ∃ second first name f a b,
      stack = second :: .comma :: first :: .openParen :: .raw name :: below ∧
        functions.findPositional? name = some f ∧ first.value? source = some a ∧
          second.value? source = some b ∧ f.call [a, b] = .ok v := by
  unfold reduceCall at reduced
  split at reduced
  · next second first name below =>
    split at reduced
    · contradiction
    · next f found =>
      split at reduced
      · next a b left right =>
        split at reduced
        · next result =>
          cases reduced
          exact ⟨second, first, name, f, a, b, rfl, found, left, right, result⟩
        · contradiction
      · contradiction
  · contradiction
  · contradiction

/-- A reduction that succeeds rewrites all tokens to one. -/
theorem reduceTokens_rewrites {stack rest : List Token} (opened : ∀ t ∈ stack, t ≠ .closeParen)
    (reduced : reduceTokens functions source stack rest = .ok v) :
    ∃ t, Relation.ReflTransGen (Rewrites functions source) (stack.reverse ++ rest) [t] ∧
      t.value? source = some v := by
  -- No parenthesis on the stack closes, so the first one that does is the next to be moved there.
  induction rest generalizing stack with
  | nil =>
    unfold reduceTokens at reduced
    split at reduced
    · next t =>
      split at reduced
      · next value =>
        cases reduced
        exact ⟨t, .refl, value⟩
      · contradiction
    · contradiction
  | cons t rest ih =>
    by_cases closes : t = .closeParen
    · subst closes
      rw [reduceTokens] at reduced
      split at reduced
      · next u below called =>
        obtain ⟨second, first, name, f, a, b, rfl, found, left, right, result⟩ :=
          reduceCall_eq_ok called
        have opened : ∀ t ∈ below, t ≠ .closeParen := fun t member =>
          opened t (by simp [member])
        have step : Rewrites functions source
            (below.reverse ++ .raw name :: .openParen :: first :: .comma :: second :: .closeParen :: rest)
            (below.reverse ++ .resolved u :: rest) :=
          .call (fun t member => opened t (List.mem_reverse.1 member)) found left right result
        obtain ⟨t, rewritten, value⟩ := ih (List.forall_mem_cons.2 ⟨by simp, opened⟩) reduced
        refine ⟨t, .head ?_ rewritten, value⟩
        simpa using step
      · contradiction
    · have shifted : reduceTokens functions source (t :: stack) rest = .ok v := by
        rw [reduceTokens] at reduced
        · exact reduced
        · exact closes
      obtain ⟨u, rewritten, value⟩ := ih (List.forall_mem_cons.2 ⟨closes, opened⟩) shifted
      rw [List.reverse_cons, List.append_assoc] at rewritten
      exact ⟨u, rewritten, value⟩

/-- The tokens of a tree are reduced to one, whatever lies below them and follows them. -/
theorem Term.reduceTokens {tree : Term} {u : Value} (value : tree.value? functions source = some u) :
    ∃ t : Token, t.value? source = some u ∧ ∀ stack rest,
      Positional.reduceTokens functions source stack (tree.tokens ++ rest) =
        Positional.reduceTokens functions source (t :: stack) rest := by
  induction tree generalizing u with
  | atom s =>
    cases value
    exact ⟨.raw s, by rw [Token.value?, resolve_eq], fun _ _ => rfl⟩
  | call name a b first second =>
    obtain ⟨f, v, w, found, left, right, result⟩ := value?_call.1 value
    obtain ⟨t, stands, reduces⟩ := first left
    obtain ⟨t', stands', reduces'⟩ := second right
    have called (stack : List Token) : reduceCall functions source
        (t' :: .comma :: t :: .openParen :: .raw name :: stack) = .ok (u, stack) := by
      simp only [reduceCall, found, stands, stands', result]
    refine ⟨.resolved u, rfl, fun stack rest => ?_⟩
    let reduced := Positional.reduceTokens functions source
    calc reduced stack (tokens (.call name a b) ++ rest)
      _ = reduced (.openParen :: .raw name :: stack)
            (a.tokens ++ .comma :: (b.tokens ++ .closeParen :: rest)) := by
        simp [tokens, reduced, Positional.reduceTokens]
      _ = reduced (.comma :: t :: .openParen :: .raw name :: stack)
            (b.tokens ++ .closeParen :: rest) := reduces _ _
      _ = reduced (t' :: .comma :: t :: .openParen :: .raw name :: stack) (.closeParen :: rest) :=
        reduces' _ _
      _ = reduced (.resolved u :: stack) rest := by
        simp only [reduced, Positional.reduceTokens, called]

variable {s : String}

/-- What the tokens of a text are rewritten to stands for a tree that the text is written as. -/
theorem Rewrites.tree (rewritten : Relation.ReflTransGen (Rewrites functions source) (tokens s) [t])
    (value : t.value? source = some v) :
    ∃ tree : Term, Cut s.toList tree.tokens ∧ tree.value? functions source = some v := by
  have cut : Cut s.toList (tokens s) := cut_iff.2 rfl
  have stands : Stands functions source [t] (tokens s) := by
    refine rewritten.rec (.refl cut.written) fun _ step stands => step.stands stands
  obtain ⟨tree, os, same, known, further⟩ := stands.argument value
  cases further
  rw [List.append_nil] at same
  exact ⟨tree, same ▸ cut, known⟩

theorem Term.reduce {tree : Term} (cut : Cut s.toList tree.tokens)
    (value : tree.value? functions source = some v) :
    Positional.reduce functions source s = .ok v := by
  obtain ⟨t, stands, reduces⟩ := tree.reduceTokens value
  have reduced := reduces [] []
  rw [List.append_nil] at reduced
  rw [Positional.reduce, cut_iff.1 cut, reduced, Positional.reduceTokens]
  simp only [stands]

/-- A tree that the text is written as, all of whose functions are positional. -/
def Derives (functions : FunctionTable) (s : String) (tree : Term) : Prop :=
  Cut s.toList tree.tokens ∧ tree.Callable functions

theorem Derives.unique {tree tree' : Term} (derives : Derives functions s tree)
    (derives' : Derives functions s tree') : tree = tree' :=
  Term.tokens_injective ((cut_iff.1 derives.1).symm.trans (cut_iff.1 derives'.1))

/-- The reduction succeeds exactly if the text is written as a tree of calls of positional
functions. It is one tree only, and the result is its value. It is also what rewriting the calls,
the leftmost innermost one first, comes to. -/
theorem reduce_eq_ok_iff (added : List Registration) (source : Source) (s : String) :
    let functions := FunctionTable.extended added
    ((∃ v, reduce functions source s = .ok v) ↔ ∃! tree, Derives functions s tree) ∧
    (∀ v, reduce functions source s = .ok v ↔
      ∃ tree, Derives functions s tree ∧ tree.value? functions source = some v) ∧
    (∀ v, reduce functions source s = .ok v ↔
      ∃ t, Relation.ReflTransGen (Rewrites functions source) (tokens s) [t] ∧
        t.value? source = some v) ∧
    ((∃ e, reduce functions source s = .error e) ↔ ¬∃ tree, Derives functions s tree) := by
  intro functions
  have rewrites {v : Value} (reduced : reduce functions source s = .ok v) :
      ∃ t, Relation.ReflTransGen (Rewrites functions source) (tokens s) [t] ∧
        t.value? source = some v := by
    have opened : ∀ t ∈ ([] : List Token), t ≠ .closeParen := by simp
    exact reduceTokens_rewrites opened reduced
  have sound {v : Value} (reduced : reduce functions source s = .ok v) :
      ∃ tree, Derives functions s tree ∧ tree.value? functions source = some v := by
    obtain ⟨t, rewritten, value⟩ := rewrites reduced
    obtain ⟨tree, cut, value⟩ := Rewrites.tree rewritten value
    exact ⟨tree, ⟨cut, (Term.callable_iff source tree).2 ⟨v, value⟩⟩, value⟩
  have complete {tree : Term} (derives : Derives functions s tree) :
      ∃ v, reduce functions source s = .ok v := by
    obtain ⟨v, value⟩ := (Term.callable_iff source tree).1 derives.2
    exact ⟨v, Term.reduce derives.1 value⟩
  refine ⟨⟨?_, ?_⟩, fun v => ⟨sound, ?_⟩, fun v => ⟨rewrites, ?_⟩, ⟨?_, ?_⟩⟩
  · rintro ⟨v, reduced⟩
    obtain ⟨tree, derives, -⟩ := sound reduced
    exact ⟨tree, derives, fun other derives' => derives'.unique derives⟩
  · rintro ⟨tree, derives, -⟩
    exact complete derives
  · rintro ⟨tree, derives, value⟩
    exact Term.reduce derives.1 value
  · rintro ⟨t, rewritten, value⟩
    obtain ⟨tree, cut, value⟩ := Rewrites.tree rewritten value
    exact Term.reduce cut value
  · rintro ⟨e, failed⟩ ⟨tree, derives⟩
    obtain ⟨v, reduced⟩ := complete derives
    cases failed.symm.trans reduced
  · intro none
    cases outcome : reduce functions source s with
    | error e => exact ⟨e, rfl⟩
    | ok v =>
      obtain ⟨tree, derives, -⟩ := sound outcome
      exact (none ⟨tree, derives⟩).elim

end Positional
end Questionnaire
