import Questionnaire.Expr.Positional
import Questionnaire.Proofs.Definition.Annotation
import Questionnaire.Proofs.Expr.Nested

/-! The reduction of calls by position on nested texts. It always comes to one value: that of
the tree which the grammar reads, for answers where empty text stands in for every missing
one. -/
namespace Questionnaire

open Text

/-- The answers with empty text in place of missing ones. -/
def Source.filled (source : Source) : Source := fun name => some ((source name).getD (.text ""))

/-- The positional functions are those of the built-in table. A host program may have added
others. -/
def FunctionTable.KeepsPositional (functions : FunctionTable) : Prop :=
  ∀ f ∈ Function.builtin, f.positional = true → functions.find? f.name = some f

theorem FunctionTable.builtin_keepsPositional : FunctionTable.builtin.KeepsPositional := by
  rintro f known -
  simp only [Function.builtin, List.mem_cons, List.not_mem_nil, or_false] at known
  rcases known with rfl | rfl | rfl | rfl | rfl | rfl | rfl | rfl | rfl | rfl | rfl | rfl |
    rfl | rfl | rfl | rfl | rfl | rfl | rfl | rfl
  all_goals rfl

/-! Trimming -/

theorem Text.trimChars_padded {before cs after : List Char}
    (blanks : ∀ c ∈ before ++ after, isBlank c = true) (some : cs ≠ [])
    (start : Ends isBlank cs) (finish : Ends isBlank cs.reverse) :
    trimChars (before ++ cs ++ after) = cs := by
  obtain ⟨blank, blank'⟩ := List.forall_mem_append.1 blanks
  have start : Ends isBlank (cs ++ after) := by
    cases cs with
    | nil => exact (some rfl).elim
    | cons c cs => exact start
  have finish := (takeWhile_append_ends (fun c member => blank' c (List.mem_reverse.1 member))
    finish).2
  rw [List.append_assoc, trimChars, trimStartChars, (takeWhile_append_ends blank start).2,
    trimEndChars, List.reverse_append, finish, List.reverse_reverse]

theorem Expr.Token.isBlank_wide {c : Char} (blank : isBlank c = true) : Text.isBlank c = true := by
  simp only [isBlank, Bool.or_eq_true, beq_iff_eq] at blank
  rcases blank with ((rfl | rfl) | rfl) | rfl <;> decide

namespace Positional
variable {cs rest xs : List Char} {c : Char} {t : Token}

/-! Tokens -/

theorem tokensFrom_append (plain : ∀ c ∈ xs, structural? c = none) (pending ys : List Char) :
    tokensFrom pending (xs ++ ys) = tokensFrom (xs.reverse ++ pending) ys := by
  induction xs generalizing pending with
  | nil => rfl
  | cons x xs ih =>
    obtain ⟨here, later⟩ := List.forall_mem_cons.1 plain
    rw [List.cons_append, tokensFrom, here]
    simpa using ih later (x :: pending)

theorem tokensFrom_structural (found : structural? c = some t) (pending cs : List Char) :
    tokensFrom pending (c :: cs) = rawTokens pending.reverse ++ t :: tokensFrom [] cs := by
  rw [tokensFrom, found]

theorem ends_structural (ends : Ends Expr.isInside rest) :
    Ends (fun c => (structural? c).isNone) rest := by
  refine ends.mono fun c other => ?_
  simp only [Expr.isInside, Bool.not_eq_true', Bool.or_eq_false_iff, beq_eq_false_iff_ne]
  constructor <;> rintro rfl <;> cases other

/-- Characters in front of a structural one, or of nothing, are trimmed and make one token. -/
theorem tokensFrom_plain (plain : ∀ c ∈ xs, structural? c = none)
    (ends : Ends (fun c => (structural? c).isNone) rest) :
    tokensFrom [] (xs ++ rest) = rawTokens xs ++ tokensFrom [] rest := by
  rw [tokensFrom_append plain, List.append_nil]
  cases rest with
  | nil => simp [tokensFrom, rawTokens, trimChars, trimStartChars, trimEndChars]
  | cons c rest =>
    cases found : structural? c with
    | none => simp [Ends, found] at ends
    | some t =>
      rw [tokensFrom_structural found, tokensFrom_structural found, List.reverse_reverse]
      rfl

/-- A text of one token, without blanks at its ends. -/
structure Solid (cs : List Char) : Prop where
  plain : ∀ c ∈ cs, structural? c = none
  some : cs ≠ []
  start : Ends isBlank cs
  finish : Ends isBlank cs.reverse

theorem Solid.rawTokens (solid : Solid cs) {before after : List Char}
    (blanks : ∀ c ∈ before ++ after, isBlank c = true) :
    rawTokens (before ++ cs ++ after) = [.raw (String.ofList cs)] := by
  rw [Positional.rawTokens, trimChars_padded blanks solid.some solid.start solid.finish]
  cases cs with
  | nil => exact (solid.some rfl).elim
  | cons c cs => rfl

theorem structural?_of_isBlank (blank : isBlank c = true) : structural? c = none := by
  unfold structural?
  split <;> first | rfl | cases blank

theorem structural?_of_isBlank_all {blanks : List Char} (blank : ∀ c ∈ blanks, isBlank c = true) :
    ∀ c ∈ blanks, structural? c = none :=
  fun c member => structural?_of_isBlank (blank c member)

/-- A piece of text between two structural characters is one token. -/
theorem Solid.tokensFrom (solid : Solid cs) {before after : List Char}
    (blanks : ∀ c ∈ before ++ after, isBlank c = true)
    (ends : Ends (fun c => (structural? c).isNone) rest) :
    tokensFrom [] (before ++ cs ++ after ++ rest) =
      .raw (String.ofList cs) :: Positional.tokensFrom [] rest := by
  obtain ⟨blank, blank'⟩ := List.forall_mem_append.1 blanks
  have plain : ∀ c ∈ before ++ cs ++ after, structural? c = none := by
    simp only [List.forall_mem_append]
    exact ⟨⟨structural?_of_isBlank_all blank, solid.plain⟩, structural?_of_isBlank_all blank'⟩
  rw [tokensFrom_plain plain ends, solid.rawTokens blanks]
  rfl

theorem tokensFrom_blanks {blanks : List Char} (blank : ∀ c ∈ blanks, isBlank c = true)
    (ends : Ends (fun c => (structural? c).isNone) rest) :
    tokensFrom [] (blanks ++ rest) = tokensFrom [] rest := by
  have none : trimStartChars blanks = [] := List.dropWhile_eq_nil_iff.2 blank
  rw [tokensFrom_plain (structural?_of_isBlank_all blank) ends, Positional.rawTokens, trimChars,
    none]
  rfl

theorem structural?_of_isReferenceChar (char : Expr.Token.isReferenceChar c = true) :
    structural? c = none := by
  unfold structural?
  split <;> first | rfl | cases char

theorem structural?_of_isQuotable (char : Expr.isQuotable c = true) : structural? c = none := by
  unfold structural?
  split <;> first | rfl | cases char

theorem isBlank_of_isReferenceChar (char : Expr.Token.isReferenceChar c = true) :
    isBlank c = false :=
  (Definition.noteChar char).unblank

theorem plain_of_all (all : cs.all (fun c => (structural? c).isNone) = true) :
    ∀ c ∈ cs, structural? c = none :=
  fun c member => Option.isNone_iff_eq_none.1 (List.all_eq_true.1 all c member)

theorem Solid.of_reference (some : cs ≠ [])
    (chars : ∀ c ∈ cs, Expr.Token.isReferenceChar c = true) : Solid cs := by
  have ends {cs : List Char} (chars : ∀ c ∈ cs, Expr.Token.isReferenceChar c = true) :
      Ends isBlank cs := by
    cases cs with
    | nil => rfl
    | cons c cs => exact isBlank_of_isReferenceChar (chars c List.mem_cons_self)
  exact ⟨fun c member => structural?_of_isReferenceChar (chars c member), some, ends chars,
    ends fun c member => chars c (List.mem_reverse.1 member)⟩

end Positional

namespace Expr
variable {cs : List Char} {e : Expr}

theorem Token.IsNumeral.chars (numeral : Token.IsNumeral cs) :
    ∀ c ∈ cs, Token.isReferenceChar c = true := by
  have digits {cs : List Char} (chars : ∀ c ∈ cs, c.isDigit = true) :
      ∀ c ∈ cs, Token.isReferenceChar c = true := fun c member => by
    simp [Token.isReferenceChar, Token.isIdentChar_of_isDigit (chars c member)]
  cases numeral with
  | whole _ chars => exact digits chars
  | fraction _ _ chars behind =>
    exact List.forall_mem_append.2 ⟨digits chars, List.forall_mem_cons.2 ⟨rfl, digits behind⟩⟩

theorem Token.IsName.referenceChars (named : Token.IsName cs) :
    ∀ c ∈ cs, Token.isReferenceChar c = true := fun c member => by
  simp [Token.isReferenceChar, named.chars c member]

theorem wordName_chars {head : List Char} {tail : Option (List Char)} (named : Token.IsName head)
    (within : ∀ w ∈ tail, Token.IsName w) :
    ∀ c ∈ (wordName head tail).toList, Token.isReferenceChar c = true := by
  cases tail with
  | none => simpa [wordName] using named.referenceChars
  | some tail =>
    have behind := (within tail rfl).referenceChars
    rw [wordName_field]
    exact List.forall_mem_append.2 ⟨named.referenceChars, List.forall_mem_cons.2 ⟨rfl, behind⟩⟩

theorem wordName_head {head : List Char} (named : Token.IsName head) (tail : Option (List Char)) :
    ∃ c cs, (wordName head tail).toList = c :: cs ∧ Token.isIdentStart c = true := by
  obtain ⟨c, cs, rfl, start, -⟩ := named
  cases tail with
  | none => exact ⟨c, cs, String.toList_ofList, start⟩
  | some tail => exact ⟨c, cs ++ '.' :: tail, wordName_field _ tail, start⟩

theorem Leaf.solid (leaf : Leaf cs e) : Positional.Solid cs := by
  cases leaf with
  | number numeral =>
    obtain ⟨c, cs, rfl, -⟩ := numeral.head
    exact .of_reference (by simp) numeral.chars
  | @text quote inner quotes quotable =>
    have quoted : Positional.structural? quote = none ∧ isBlank quote = false := by
      rcases quotes with rfl | rfl <;> exact ⟨rfl, rfl⟩
    refine ⟨fun c member => ?_, by simp, quoted.2, by simpa [Ends] using quoted.2⟩
    simp only [List.cons_append, List.mem_cons, List.mem_append, List.not_mem_nil, or_false]
      at member
    rcases member with rfl | member | rfl
    · exact quoted.1
    · exact Positional.structural?_of_isQuotable (quotable c member)
    · exact quoted.1
  | @constant word e known =>
    simp only [constants, List.mem_cons, Prod.mk.injEq, List.not_mem_nil, or_false] at known
    rcases known with ⟨rfl, -⟩ | ⟨rfl, -⟩ | ⟨rfl, -⟩ | ⟨rfl, -⟩ | ⟨rfl, -⟩
    all_goals exact ⟨Positional.plain_of_all rfl, by decide, rfl, rfl⟩
  | @answer head tail named within free =>
    obtain ⟨c, cs, text, -⟩ := wordName_head named tail
    exact .of_reference (by simp [text]) (wordName_chars named within)

end Expr

/-! Values -/

/-- A numeral begins with a digit, a sign or a point. -/
def Decimal.startsNumeral (c : Char) : Bool := c.isDigit || c == '-' || c == '+' || c == '.'

theorem Decimal.read?_eq_none {c : Char} (other : startsNumeral c = false) (cs : List Char) :
    read? (String.ofList (c :: cs)) = none := by
  have plain (cs : List Char) : readPlain? (c :: cs) = none := by
    simp only [startsNumeral, Bool.or_eq_false_iff, beq_eq_false_iff_ne] at other
    obtain ⟨⟨⟨digit, minus⟩, plus⟩, point⟩ := other
    simp [readPlain?, Numeral.read, digit, minus, plus, point]
  rw [read?, String.toList_ofList]
  split
  · next mantissa exponent cut =>
    obtain ⟨x, -, text, -⟩ := cutAtChars?_eq_some cut
    have unread : readPlain? mantissa = none := by
      cases mantissa with
      | nil => rfl
      | cons d mantissa =>
        obtain rfl := (List.cons.inj text).1
        exact plain mantissa
    rw [readScientific?, unread]
    rfl
  · exact plain cs

namespace Positional
variable {source : Source} {cs : List Char} {s : String}

theorem resolve_other (other : s ∉ Expr.constants.map Prod.fst) : resolve source s =
    (Decimal.read? s).elim (((unquote? '"' s.toList).or (unquote? '\'' s.toList)).elim
      ((source s).getD (.text "")) .text) .number := by
  simp only [Expr.constants, List.map_cons, List.map_nil, List.mem_cons, List.not_mem_nil,
    or_false, not_or] at other
  obtain ⟨notTrue, notFalse, notNull, notUndefined, notIndex⟩ := other
  simp only [resolve, beq_iff_eq, Bool.or_eq_true, notTrue, notFalse, notNull, notUndefined,
    notIndex, or_self, if_false]
  cases Decimal.read? s with
  | some n => rfl
  | none => cases (unquote? '"' s.toList).or (unquote? '\'' s.toList) <;> rfl

theorem unquote?_quoted (quote : Char) (inner : List Char) :
    unquote? quote (quote :: inner ++ [quote]) = some (String.ofList inner) := by
  have stripped : stripTrailing? [quote] (inner ++ [quote]) = some inner := by
    simp [stripTrailing?, stripLeading?]
  rw [List.cons_append, unquote?, if_pos (beq_self_eq_true quote), stripped, Option.map_some]

theorem unquote?_other {quote c : Char} (other : c ≠ quote) (cs : List Char) :
    unquote? quote (c :: cs) = none := by
  rw [unquote?, if_neg (by simpa using other)]

theorem unquote?_either {quote : Char} (quotes : quote = '"' ∨ quote = '\'') (inner : List Char) :
    (unquote? '"' (quote :: inner ++ [quote])).or (unquote? '\'' (quote :: inner ++ [quote])) =
      some (String.ofList inner) := by
  rcases quotes with rfl | rfl
  · rw [unquote?_quoted, Option.some_or]
  · rw [List.cons_append, unquote?_other (by decide), ← List.cons_append, unquote?_quoted,
      Option.none_or]

end Positional

namespace Expr
variable {functions : FunctionTable} {source : Source} {cs : List Char} {e : Expr}

theorem startsNumeral_of_start {c : Char} (start : Token.isIdentStart c = true) :
    Decimal.startsNumeral c = false := by
  have other {d : Char} (different : Token.isIdentStart d = false) : c ≠ d :=
    Definition.ne_of_holds start different
  simp only [Decimal.startsNumeral, Token.isDigit_of_start start, Bool.or_eq_false_iff,
    beq_eq_false_iff_ne]
  exact ⟨⟨⟨trivial, other rfl⟩, other rfl⟩, other rfl⟩

theorem not_constant {c : Char} (start : (c.isDigit || c == '"' || c == '\'') = true) :
    String.ofList (c :: cs) ∉ constants.map Prod.fst := by
  intro known
  have letters : ∀ w ∈ constants.map Prod.fst,
      w.toList.head?.all (fun c => !(c.isDigit || c == '"' || c == '\'')) = true := by
    decide
  have letter := letters _ known
  rw [String.toList_ofList, List.head?_cons, Option.all_some, start] at letter
  cases letter

theorem wordName_not_constant {head : List Char} {tail : Option (List Char)}
    (named : Token.IsName head) (free : String.ofList head ∉ keywords) :
    wordName head tail ∉ constants.map Prod.fst := by
  intro known
  cases tail with
  | some tail =>
    have pointless : ∀ w ∈ constants.map Prod.fst, '.' ∉ w.toList := by decide
    exact pointless _ known (by simp [wordName])
  | none =>
    obtain ⟨c, cs, text, start⟩ := wordName_head named none
    have split : ∀ w ∈ constants.map Prod.fst,
        w ∈ keywords ∨ w.toList.head?.all (!Token.isIdentStart ·) = true := by
      decide
    rcases split _ known with key | other
    · exact free key
    · rw [text, List.head?_cons, Option.all_some, start] at other
      cases other

/-- A leaf stands for its own value, with empty text for a missing answer. -/
theorem Leaf.resolve (leaf : Leaf cs e) : e.eval functions source.filled =
    .ok (Positional.resolve source (String.ofList cs)) := by
  cases leaf with
  | @number _ n numeral readable =>
    obtain ⟨c, cs, rfl, digit⟩ := numeral.head
    rw [Positional.resolve_other (not_constant (by simp [digit])), readable]
    rfl
  | @text quote inner quotes quotable =>
    have quoted : Decimal.startsNumeral quote = false ∧
        (quote.isDigit || quote == '"' || quote == '\'') = true := by
      rcases quotes with rfl | rfl <;> exact ⟨rfl, rfl⟩
    have unread : Decimal.read? (String.ofList (quote :: inner ++ [quote])) = none :=
      Decimal.read?_eq_none quoted.1 _
    have other : String.ofList (quote :: inner ++ [quote]) ∉ constants.map Prod.fst :=
      not_constant quoted.2
    rw [Positional.resolve_other other, unread, String.toList_ofList,
      Positional.unquote?_either quotes]
    rfl
  | @constant word e known =>
    simp only [constants, List.mem_cons, Prod.mk.injEq, List.not_mem_nil, or_false] at known
    rcases known with ⟨rfl, rfl⟩ | ⟨rfl, rfl⟩ | ⟨rfl, rfl⟩ | ⟨rfl, rfl⟩ | ⟨rfl, rfl⟩
    all_goals rfl
  | @answer head tail named within free =>
    obtain ⟨c, cs, text, start⟩ := wordName_head named tail
    have other {d : Char} (different : Token.isIdentStart d = false) : c ≠ d :=
      Definition.ne_of_holds start different
    have unread : Decimal.read? (wordName head tail) = none := by
      rw [← String.ofList_toList (s := wordName head tail), text]
      exact Decimal.read?_eq_none (startsNumeral_of_start start) cs
    rw [String.ofList_toList, Positional.resolve_other (wordName_not_constant named free), unread,
      text, Positional.unquote?_other (other rfl), Positional.unquote?_other (other rfl)]
    rfl

end Expr

/-! Calls -/

theorem Function.positional_relation {f : Function} (known : f ∈ builtin)
    (positional : f.positional = true) : ∃ holds, f = relation f.name holds := by
  simp only [builtin, List.mem_cons, List.not_mem_nil, or_false] at known
  rcases known with rfl | rfl | rfl | rfl | rfl | rfl | rfl | rfl | rfl | rfl | rfl | rfl |
    rfl | rfl | rfl | rfl | rfl | rfl | rfl | rfl
  all_goals first | exact ⟨_, rfl⟩ | cases positional

namespace FunctionTable
variable {functions : FunctionTable} {f : Function}

theorem KeepsPositional.call (keeps : functions.KeepsPositional) (known : f ∈ Function.builtin)
    (positional : f.positional = true) (a b : Value) :
    functions.call f.name [a, b] = f.call [a, b] := by
  obtain ⟨holds, relation⟩ := Function.positional_relation known positional
  have accepts : f.accepts 2 = true := by rw [relation]; rfl
  rw [FunctionTable.call, keeps f known positional]
  exact if_pos accepts

theorem KeepsPositional.find (keeps : functions.KeepsPositional) (known : f ∈ Function.builtin)
    (positional : f.positional = true) : functions.findPositional? f.name = some f := by
  rw [findPositional?, keeps f known positional, Option.filter_some, if_pos positional]

end FunctionTable

theorem Function.call_ok {f : Function} (known : f ∈ builtin) (positional : f.positional = true)
    (a b : Value) : ∃ v, f.call [a, b] = .ok v := by
  obtain ⟨holds, relation⟩ := positional_relation known positional
  rw [relation]
  exact ⟨_, rfl⟩

namespace Expr
variable {functions : FunctionTable} {source : Source} {cs : List Char} {e : Expr}

theorem eval_call (keeps : functions.KeepsPositional) {f : Function}
    (known : f ∈ Function.builtin) (positional : f.positional = true) {a b : Expr} {v v' : Value}
    (first : a.eval functions source = .ok v) (second : b.eval functions source = .ok v') :
    (call f.name [a, b]).eval functions source = f.call [v, v'] := by
  simp only [eval, evalAll, first, second, bind, Except.bind, pure, Except.pure]
  exact keeps.call known positional v v'

theorem reduceTokens_call (keeps : functions.KeepsPositional) {f : Function}
    (known : f ∈ Function.builtin) (positional : f.positional = true)
    {t t' : Positional.Token} {v v' w : Value} (first : t.value? source = some v)
    (second : t'.value? source = some v') (result : f.call [v, v'] = .ok w)
    (stack rest : List Positional.Token) :
    Positional.reduceTokens functions source
        (t' :: .comma :: t :: .openParen :: .raw f.name :: stack) (.closeParen :: rest) =
      Positional.reduceTokens functions source (.resolved w :: stack) rest := by
  have called : Positional.reduceCall functions source
      (t' :: .comma :: t :: .openParen :: .raw f.name :: stack) = .ok (w, stack) := by
    simp only [Positional.reduceCall, keeps.find known positional, first, second, result]
  rw [Positional.reduceTokens, called]

/-- The tokens of a nested text are reduced to one, which stands for the value of its tree. -/
theorem Nested.reduceTokens (keeps : functions.KeepsPositional) (source : Source)
    (nested : Nested cs e) :
    ∃ (w : Value) (t : Positional.Token), e.eval functions source.filled = .ok w ∧
      t.value? source = some w ∧ ∀ stack rest, Ends isInside rest →
        Positional.reduceTokens functions source stack (Positional.tokensFrom [] (cs ++ rest)) =
          Positional.reduceTokens functions source (t :: stack)
            (Positional.tokensFrom [] rest) := by
  -- What lies below on the stack and what follows stay open: an argument is reduced on top of
  -- the call it belongs to, and in front of its rest.
  induction nested with
  | @leaf before cs after e leaf blanks =>
    refine ⟨_, .raw (String.ofList cs), leaf.resolve, rfl, fun stack rest ends => ?_⟩
    have blanks := fun c member => Token.isBlank_wide (blanks c member)
    rw [leaf.solid.tokensFrom blanks (Positional.ends_structural ends)]
    rfl
  | @call before after last as bs f a b known positional blanks _ _ first second =>
    obtain ⟨v, t, value, stands, reduces⟩ := first
    obtain ⟨v', t', value', stands', reduces'⟩ := second
    obtain ⟨w, result⟩ := Function.call_ok known positional v v'
    refine ⟨w, .resolved w, ?_, rfl, fun stack rest ends => ?_⟩
    · rw [eval_call keeps known positional value value', result]
    · have blanks := fun c member => Token.isBlank_wide (blanks c member)
      obtain ⟨blanks, blank⟩ := List.forall_mem_append.1 blanks
      have named := (builtin_name known).1
      have name : Positional.Solid f.name.toList :=
        .of_reference named.run.some named.referenceChars
      let arguments := as ++ ',' :: (bs ++ ')' :: (last ++ rest))
      have text : before ++ (f.name.toList ++ (after ++ '(' :: (as ++ ',' :: (bs ++ ')' :: last))))
          ++ rest = before ++ f.name.toList ++ after ++ '(' :: arguments := by
        simp [arguments]
      have stops : Ends (fun c => (Positional.structural? c).isNone) ('(' :: arguments) := rfl
      have opens := name.tokensFrom blanks stops
      rw [String.ofList_toList, Positional.tokensFrom_structural rfl] at opens
      have separates := Positional.tokensFrom_structural (c := ',') rfl []
        (bs ++ ')' :: (last ++ rest))
      have closes := Positional.tokensFrom_structural (c := ')') rfl [] (last ++ rest)
      rw [Positional.tokensFrom_blanks blank (Positional.ends_structural ends)] at closes
      let reduced := Positional.reduceTokens functions source
      calc reduced stack (Positional.tokensFrom [] (_ ++ rest))
        _ = reduced (.openParen :: .raw f.name :: stack) (Positional.tokensFrom [] arguments) := by
          rw [text, opens]
          rfl
        _ = reduced (t :: .openParen :: .raw f.name :: stack)
              (Positional.tokensFrom [] (',' :: (bs ++ ')' :: (last ++ rest)))) := reduces _ _ rfl
        _ = reduced (.comma :: t :: .openParen :: .raw f.name :: stack)
              (Positional.tokensFrom [] (bs ++ ')' :: (last ++ rest))) := by
          rw [separates]
          rfl
        _ = reduced (t' :: .comma :: t :: .openParen :: .raw f.name :: stack)
              (Positional.tokensFrom [] (')' :: (last ++ rest))) := reduces' _ _ rfl
        _ = reduced (.resolved w :: stack) (Positional.tokensFrom [] rest) := by
          rw [closes]
          exact reduceTokens_call keeps known positional stands stands' result stack _

/-- The reduction of a nested text has the value of its tree. -/
theorem Nested.reduce {s : String} (keeps : functions.KeepsPositional) (source : Source)
    (nested : Nested s.toList e) : ∃ w, e.eval functions source.filled = .ok w ∧
      Positional.reduce functions source s = .ok w := by
  obtain ⟨w, t, value, stands, reduces⟩ := nested.reduceTokens keeps source
  refine ⟨w, value, ?_⟩
  have reduced := reduces [] [] rfl
  rw [List.append_nil] at reduced
  have done : Positional.reduceTokens functions source [t] [] = .ok w := by
    simp only [Positional.reduceTokens, stands]
  rw [Positional.reduce, Positional.tokens, reduced]
  exact done

end Expr

end Questionnaire
