import Questionnaire.Expr.Function
import Questionnaire.Proofs.Expr.Renaming

/-! Texts of nested calls with two arguments each, the part of the language of conditions
that the grammar shares with the reduction of calls by position. The grammar reads each such
text as its tree, and no other part of the grammar is needed for it. -/
namespace Questionnaire.Expr

open Text

/-- What may stand in quotes: neither a quote nor a parenthesis nor a comma. -/
def isQuotable (c : Char) : Bool :=
  !(c == '"' || c == '\'' || c == '(' || c == ')' || c == ',')

/-- The words for fixed values. -/
def constants : List (String × Expr) :=
  [("true", boolean true), ("false", boolean false), ("null", null), ("undefined", null),
    (loopIndexToken, loopIndex)]

/-- An argument that is no call, as it is spelled. -/
inductive Leaf : List Char → Expr → Prop
  | number {digits : List Char} {n : Decimal} (numeral : Token.IsNumeral digits)
      (readable : Decimal.read? (String.ofList digits) = some n) : Leaf digits (number n)
  | text {quote : Char} {inner : List Char} (quotes : quote = '"' ∨ quote = '\'')
      (quotable : ∀ c ∈ inner, isQuotable c = true) :
      Leaf (quote :: inner ++ [quote]) (text (String.ofList inner))
  | constant {word : String} {e : Expr} (known : (word, e) ∈ constants) : Leaf word.toList e
  /-- The name of an answer, which may be that of a field and a question. -/
  | answer {head : List Char} {tail : Option (List Char)} (named : Token.IsName head)
      (within : ∀ w ∈ tail, Token.IsName w) (free : String.ofList head ∉ keywords) :
      Leaf (wordName head tail).toList (reference (wordName head tail))

/-- A leaf or a call of a positional function with two such texts as its arguments. There may
be blanks around everything. -/
inductive Nested : List Char → Expr → Prop
  | leaf {before cs after : List Char} {e : Expr} (spelled : Leaf cs e)
      (blanks : ∀ c ∈ before ++ after, Token.isBlank c = true) : Nested (before ++ cs ++ after) e
  | call {before after last as bs : List Char} {f : Function} {a b : Expr}
      (known : f ∈ Function.builtin) (positional : f.positional = true)
      (blanks : ∀ c ∈ before ++ after ++ last, Token.isBlank c = true)
      (first : Nested as a) (second : Nested bs b) :
      Nested (before ++ (f.name.toList ++ (after ++ '(' :: (as ++ ',' :: (bs ++ ')' :: last)))))
        (.call f.name [a, b])

theorem wordName_field (field question : List Char) :
    (wordName field (some question)).toList = field ++ '.' :: question := by
  simp [wordName]

theorem Leaf.question {name : List Char} (named : Token.IsName name)
    (free : String.ofList name ∉ keywords) : Leaf name (reference (String.ofList name)) := by
  have within : ∀ w ∈ (none : Option (List Char)), Token.IsName w := nofun
  have leaf := Leaf.answer named within free
  rwa [wordName, String.toList_ofList] at leaf

theorem Leaf.field {field question : List Char} (named : Token.IsName field)
    (within : Token.IsName question) (free : String.ofList field ∉ keywords) :
    Leaf (field ++ '.' :: question) (reference (String.ofList (field ++ '.' :: question))) := by
  have within : ∀ w ∈ some question, Token.IsName w := fun w same => Option.some.inj same ▸ within
  have leaf := Leaf.answer named within free
  rwa [← wordName_field, String.ofList_toList]

theorem Leaf.nested {cs : List Char} {e : Expr} (leaf : Leaf cs e) : Nested cs e := by
  have blanks : ∀ c ∈ [] ++ [], Token.isBlank c = true := nofun
  simpa using Nested.leaf leaf blanks

/-- The shortest spelling of a call. -/
def callText (name : String) (as bs : List Char) : List Char :=
  name.toList ++ '(' :: (as ++ ',' :: (bs ++ [')']))

theorem Nested.short {as bs : List Char} {a b : Expr} (name : String)
    (known : name ∈ (Function.builtin.filter Function.positional).map Function.name)
    (first : Nested as a) (second : Nested bs b) :
    Nested (callText name as bs) (.call name [a, b]) := by
  obtain ⟨f, member, rfl⟩ := List.mem_map.1 known
  obtain ⟨known, positional⟩ := List.mem_filter.1 member
  have blanks : ∀ c ∈ [] ++ [] ++ [], Token.isBlank c = true := nofun
  exact .call known positional blanks first second

/-! Tokens -/

theorem isName_of_all {w : List Char} (start : w.head?.any Token.isIdentStart = true)
    (chars : w.all Token.isIdentChar = true) : Token.IsName w := by
  cases w with
  | nil => cases start
  | cons c cs =>
    exact ⟨c, cs, rfl, start, fun x member =>
      List.all_eq_true.1 chars x (List.mem_cons_of_mem c member)⟩

/-- A character that does not end an argument. -/
def isInside (c : Char) : Bool := !(c == ',' || c == ')')

/-- Nothing, or what follows an argument. -/
def Token.Closing : List Token → Prop
  | [] | .comma :: _ | .closeParen :: _ => True
  | _ => False

variable {cs rest blanks : List Char} {e : Expr} {ts : List Token}

theorem ends_reference (blank : ∀ c ∈ blanks, Token.isBlank c = true)
    (ends : Ends Token.isReferenceChar rest) : Ends Token.isReferenceChar (blanks ++ rest) := by
  cases blanks with
  | nil => exact ends
  | cons c blanks =>
    have blank := blank c List.mem_cons_self
    simp only [Token.isBlank, Bool.or_eq_true, beq_iff_eq] at blank
    rcases blank with ((rfl | rfl) | rfl) | rfl <;> rfl

theorem ends_reference_of_inside (ends : Ends isInside rest) : Ends Token.isReferenceChar rest := by
  refine ends.mono fun c reference => ?_
  simp only [isInside, Bool.not_eq_true', Bool.or_eq_false_iff, beq_eq_false_iff_ne]
  constructor <;> rintro rfl <;> cases reference

/-- A leaf is one token, which the grammar reads as its tree. -/
theorem Leaf.token (leaf : Leaf cs e) : ∃ t : Token,
    (∀ rest, Ends Token.isReferenceChar rest → Token.Spells t cs rest) ∧
      (∀ rest, Token.Closing rest → Reads (.primary e) (t :: rest) rest) ∧
        t.isUnreadable = false := by
  have apart {rest : List Token} (closing : Token.Closing rest) (tail : Option (List Char)) :
      ∀ more, rest = .openParen :: more → tail ≠ none := by
    rintro more rfl
    exact closing.elim
  cases leaf with
  | @number _ n numeral readable =>
    have tree : literal cs = .number n := by rw [literal, readable, Option.getD_some]
    refine ⟨.number cs, fun rest ends => .number numeral (ends.mono fun c numeral => ?_),
      fun rest _ => tree ▸ .number cs rest, by rw [Token.isUnreadable, readable]; rfl⟩
    simp only [Token.isNumeralChar, Bool.or_eq_true] at numeral
    simp only [Token.isReferenceChar, Bool.or_eq_true]
    exact numeral.imp Token.isIdentChar_of_isDigit id
  | @text quote inner quotes quotable =>
    refine ⟨.text (String.ofList inner), fun rest _ => .text rest quotes fun member => ?_,
      fun rest _ => .text _ rest, rfl⟩
    have inside := quotable quote member
    rcases quotes with rfl | rfl <;> cases inside
  | @answer head tail named within free =>
    refine ⟨.word head tail, fun rest ends => ?_,
      fun rest closing => .word (apart closing tail) (ofWord?_name free tail), rfl⟩
    cases tail with
    | none => exact String.toList_ofList ▸ .word named ends
    | some tail =>
      exact wordName_field head tail ▸ .field named (within tail rfl)
        (ends.mono fun c char => by simp [Token.isReferenceChar, char])
  | @constant word e known =>
    have word {w : List Char} (named : Token.IsName w) (stands : ofWord? w none = some e) :
        ∃ t : Token, (∀ rest, Ends Token.isReferenceChar rest → Token.Spells t w rest) ∧
          (∀ rest, Token.Closing rest → Reads (.primary e) (t :: rest) rest) ∧
            t.isUnreadable = false :=
      ⟨.word w none, fun rest ends => .word named ends,
        fun rest closing => .word (apart closing none) stands, rfl⟩
    simp only [constants, List.mem_cons, Prod.mk.injEq, List.not_mem_nil, or_false] at known
    rcases known with ⟨rfl, rfl⟩ | ⟨rfl, rfl⟩ | ⟨rfl, rfl⟩ | ⟨rfl, rfl⟩ | ⟨rfl, rfl⟩
    · exact word (isName_of_all rfl rfl) rfl
    · exact word (isName_of_all rfl rfl) rfl
    · exact word (isName_of_all rfl rfl) rfl
    · exact word (isName_of_all rfl rfl) rfl
    · exact ⟨.loopIndex, fun rest ends => .index (ends.mono fun c char => by
        simp [Token.isReferenceChar, char]), fun rest _ => .loopIndex rest, rfl⟩

theorem reads_argument {toks rest : List Token} (reads : Reads (.primary e) toks rest)
    (closing : Token.Closing rest) : Reads (.level e) toks rest := by
  refine .level (.bare reads) (.chainEnd fun op more same => ?_)
  rw [same] at closing
  exact closing

/-- The symbols of a call. -/
def callSymbols : List (Char × Token) := [('(', .openParen), (',', .comma), (')', .closeParen)]

theorem spells_symbol {c : Char} {t : Token} (symbol : (c, t) ∈ callSymbols) (rest : List Char) :
    Token.Spells t [c] rest := by
  simp only [callSymbols, List.mem_cons, Prod.mk.injEq, List.not_mem_nil, or_false] at symbol
  rcases symbol with ⟨rfl, rfl⟩ | ⟨rfl, rfl⟩ | ⟨rfl, rfl⟩
  all_goals exact .symbol (by simp) (others_of_all rfl) fun _ _ => rfl

theorem builtin_name {f : Function} (known : f ∈ Function.builtin) :
    Token.IsName f.name.toList ∧ f.name.toList.head?.any Char.isAlpha = true := by
  have names : ∀ f ∈ Function.builtin, (f.name.toList.head?.any Token.isIdentStart = true ∧
      f.name.toList.all Token.isIdentChar = true) ∧
        f.name.toList.head?.any Char.isAlpha = true := by
    decide
  obtain ⟨⟨start, chars⟩, letter⟩ := names f known
  exact ⟨isName_of_all start chars, letter⟩

/-- A nested text falls into tokens that the grammar reads as its tree, in front of whatever
may follow an argument. -/
theorem Nested.tokens (nested : Nested cs e) : ∃ ts : List Token,
    (∀ rest toks, Ends isInside rest → Token.Spelled rest toks →
      Token.Spelled (cs ++ rest) (ts ++ toks)) ∧
    (∀ rest, Token.Closing rest → Reads (.level e) (ts ++ rest) rest) ∧
      ts.any Token.isUnreadable = false := by
  induction nested with
  | @leaf before cs after e leaf blank =>
    obtain ⟨t, spells, reads, readable⟩ := leaf.token
    obtain ⟨blank, blank'⟩ := List.forall_mem_append.1 blank
    refine ⟨[t], fun rest toks ends spelled => ?_,
      fun rest closing => reads_argument (reads rest closing) closing, by simpa using readable⟩
    rw [List.append_assoc, List.append_assoc]
    have ends := ends_reference blank' (ends_reference_of_inside ends)
    exact .blanks (.token (spells _ ends) (spelled.blanks blank')) blank
  | @call before after last as bs f a b known _ blank _ _ first second =>
    obtain ⟨ts, spelled, reads, readable⟩ := first
    obtain ⟨ts', spelled', reads', readable'⟩ := second
    obtain ⟨named, letter⟩ := builtin_name known
    simp only [List.forall_mem_append] at blank
    obtain ⟨⟨blank, blank'⟩, blank''⟩ := blank
    refine ⟨.word f.name.toList none :: .openParen :: (ts ++ .comma :: (ts' ++ [.closeParen])),
      fun rest toks ends tail => ?_, fun rest closing => ?_, ?_⟩
    · have opens (rest : List Char) : Token.Spells .openParen ['('] rest :=
        spells_symbol (by simp [callSymbols]) rest
      have parts (rest : List Char) : Token.Spells .comma [','] rest :=
        spells_symbol (by simp [callSymbols]) rest
      have closes (rest : List Char) : Token.Spells .closeParen [')'] rest :=
        spells_symbol (by simp [callSymbols]) rest
      have second := spelled' (')' :: (last ++ rest)) _ rfl
        (.token (closes _) (tail.blanks blank''))
      have first := spelled (',' :: (bs ++ ')' :: (last ++ rest))) _ rfl (.token (parts _) second)
      have name : Token.Spells (.word f.name.toList none) f.name.toList
          (after ++ '(' :: (as ++ ',' :: (bs ++ ')' :: (last ++ rest)))) :=
        .word named (ends_reference blank' rfl)
      have call := (Token.Spelled.token name (.blanks (.token (opens _) first) blank')).blanks blank
      simpa using call
    -- What follows an argument is a comma or a parenthesis, so no operator extends it.
    · have last := Reads.lastArgument (reads' (.closeParen :: rest) trivial)
      have first := reads (.comma :: (ts' ++ .closeParen :: rest)) trivial
      have call := Reads.call letter (.someArguments (.nextArgument first last))
      rw [String.ofList_toList] at call
      simpa using reads_argument call closing
    · simp [List.any_append, readable, readable', Token.isUnreadable]

/-- The grammar reads a nested text as its tree. -/
theorem Nested.read {s : String} {maxDepth : Nat} (nested : Nested s.toList e)
    (shallow : e.depth ≤ maxDepth) : Expr.read maxDepth s = .ok e := by
  obtain ⟨ts, spelled, reads, readable⟩ := nested.tokens
  refine read_eq_ok_iff.2 ⟨ts, ?_, ?_, readable, shallow⟩
  · simpa using spelled [] [] rfl .nil
  · simpa using reads [] trivial

end Questionnaire.Expr
