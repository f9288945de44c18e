import Questionnaire.Proofs.Expr.Grammar
import Questionnaire.Proofs.Expr.Spelling

/-! Other names in condition expressions. When the words of an expression are replaced and
names stay names, the text reads as the same tree with other names in its references. The
words of a tree that are no names of answers must stay: its keywords, the names of its
functions and what stands in quotes. -/
namespace Questionnaire.Expr

open Text

/-! Trees -/

/-- The name of an answer with a field and a question, or only one of them, replaced. -/
def renameReference (f : List Char → List Char) (name : String) : String :=
  match cutAtChars? (· == '.') name.toList with
  | some (field, question) => String.ofList (f field) ++ "." ++ String.ofList (f question)
  | none => String.ofList (f name.toList)

mutual

def rename (f : List Char → List Char) : Expr → Expr
  | reference name => reference (renameReference f name)
  | unary op arg => unary op (arg.rename f)
  | binary left op right => binary (left.rename f) op (right.rename f)
  | call name args => call name (renameAll f args)
  | number n => number n
  | text s => text s
  | boolean b => boolean b
  | null => null
  | loopIndex => loopIndex

def renameAll (f : List Char → List Char) : List Expr → List Expr
  | [] => []
  | arg :: args => arg.rename f :: renameAll f args

end

mutual

/-- No quoted text, no name of a function and no keyword holds a word that is replaced. -/
def Keeps (f : List Char → List Char) : Expr → Prop
  | text s => mapWords f s.toList = s.toList
  | call name args => f name.toList = name.toList ∧ KeepsAll f args
  | unary _ arg => arg.Keeps f
  | binary left _ right => left.Keeps f ∧ right.Keeps f
  | boolean b => f (toString b).toList = (toString b).toList
  | null => f "null".toList = "null".toList ∧ f "undefined".toList = "undefined".toList
  | loopIndex => f ['i'] = ['i']
  | reference _ | number _ => True

def KeepsAll (f : List Char → List Char) : List Expr → Prop
  | [] => True
  | arg :: args => arg.Keeps f ∧ KeepsAll f args

end

mutual

theorem depth_rename (f : List Char → List Char) (e : Expr) : (e.rename f).depth = e.depth := by
  match e with
  | unary op arg => rw [rename, depth, depth, depth_rename f arg]
  | binary left op right => rw [rename, depth, depth, depth_rename f left, depth_rename f right]
  | call name args => rw [rename, depth, depth, depthAll_rename f args]
  | reference _ | number _ | text _ | boolean _ | null | loopIndex => rw [rename, depth] <;> rfl

theorem depthAll_rename (f : List Char → List Char) (args : List Expr) :
    depthAll (renameAll f args) = depthAll args := by
  match args with
  | [] => rfl
  | arg :: args => rw [renameAll, depthAll, depthAll, depth_rename f arg, depthAll_rename f args]

end

namespace Chain
variable {f : List Char → List Char}

def rename (f : List Char → List Char) : Chain → Chain
  | operand e => operand (e.rename f)
  | node left op right => node (left.rename f) op (right.rename f)

theorem toExpr_rename (chain : Chain) : (chain.rename f).toExpr = chain.toExpr.rename f := by
  induction chain with
  | operand e => rfl
  | node left op right ihl ihr => rw [rename, toExpr, toExpr, Expr.rename, ihl, ihr]

theorem attach_rename (op : InfixOp) (e : Expr) (chain : Chain) :
    (chain.attach op e).rename f = (chain.rename f).attach op (e.rename f) := by
  induction chain with
  | operand => rfl
  | node left op' right ihl ihr =>
    simp only [attach, rename]
    split
    · rw [rename, ihr]
    · rfl

theorem attach_keeps (op : InfixOp) (e : Expr) (chain : Chain) :
    (chain.attach op e).toExpr.Keeps f ↔ chain.toExpr.Keeps f ∧ e.Keeps f := by
  induction chain with
  | operand => exact Iff.rfl
  | node left op' right ihl ihr =>
    simp only [attach]
    split
    · rw [toExpr, Expr.Keeps, ihr, toExpr, Expr.Keeps, and_assoc]
    · exact Iff.rfl

end Chain

/-! Tokens -/

def Token.rename (f : List Char → List Char) : Token → Token
  | word head tail => word (f head) (tail.map f)
  | number digits => number digits
  | text s => text s
  | loopIndex => loopIndex
  | infixOp op => infixOp op
  | bang => bang
  | openParen => openParen
  | closeParen => closeParen
  | comma => comma

/-- A word is made of names. -/
def Token.Formed : Token → Prop
  | word head tail => IsName head ∧ ∀ w ∈ tail, IsName w
  | _ => True

def keywords : List String := ["true", "false", "null", "undefined"]

/-- A replacement of words that makes names of names, and touches nothing else. -/
structure Renaming (f : List Char → List Char) : Prop where
  name : ∀ w, Token.IsName w → ∃ more, f w = w ++ more ∧ ∀ x ∈ more, Token.isIdentChar x = true
  other : ∀ w, ¬Token.IsName w → f w = w
  fresh : ∀ w, String.ofList (f w) ∈ keywords → String.ofList w ∈ keywords

variable {f : List Char → List Char} {head : List Char} {tail : Option (List Char)} {e : Expr}

/-- The name of an answer as it is written. -/
def wordName (head : List Char) : Option (List Char) → String
  | none => String.ofList head
  | some tail => String.ofList head ++ "." ++ String.ofList tail

theorem ofWord?_keyword (key : String.ofList head ∈ keywords) (stands : ofWord? head tail = some e)
    (keeps : e.Keeps f) : tail = none ∧ f head = head ∧ e.rename f = e := by
  unfold ofWord? at stands
  have text : head = (String.ofList head).toList := String.toList_ofList.symm
  revert key stands text
  generalize String.ofList head = name
  rintro key stands rfl
  simp only [keywords, List.mem_cons, List.not_mem_nil, or_false] at key
  rcases key with rfl | rfl | rfl | rfl
  all_goals
    cases tail with
    | some tail => cases stands
    | none =>
      cases stands
      first
        | exact ⟨rfl, keeps, rfl⟩
        | exact ⟨rfl, keeps.1, rfl⟩
        | exact ⟨rfl, keeps.2, rfl⟩

theorem ofWord?_name (free : String.ofList head ∉ keywords) (tail : Option (List Char)) :
    ofWord? head tail = some (reference (wordName head tail)) := by
  unfold ofWord?
  cases tail <;> rw [wordName] <;> split <;> simp_all [keywords]

theorem renameReference_wordName (named : Token.IsName head) (tail : Option (List Char)) :
    renameReference f (wordName head tail) = wordName (f head) (tail.map f) := by
  have pointless : ∀ x ∈ head, (x == '.') = false := fun x member => by
    refine beq_eq_false_iff_ne.2 ?_
    rintro rfl
    exact absurd (named.chars _ member) (by decide)
  cases tail with
  | none =>
    rw [renameReference, wordName, String.toList_ofList, cutAtChars?_eq_none.2 pointless]
    rfl
  | some tail =>
    have text : (wordName head (some tail)).toList = head ++ '.' :: tail := by simp [wordName]
    rw [renameReference, text, cutAtChars?_append pointless (beq_self_eq_true '.')]
    rfl

theorem Renaming.ofWord? (lawful : Renaming f) (named : Token.IsName head)
    (stands : Expr.ofWord? head tail = some e) (keeps : e.Keeps f) :
    Expr.ofWord? (f head) (tail.map f) = some (e.rename f) := by
  by_cases key : String.ofList head ∈ keywords
  · obtain ⟨rfl, same, tree⟩ := ofWord?_keyword key stands keeps
    rw [same, tree, Option.map_none, stands]
  · have free : String.ofList (f head) ∉ keywords := fun key' => key (lawful.fresh head key')
    rw [ofWord?_name key] at stands
    cases stands
    rw [ofWord?_name free, rename, renameReference_wordName named]

/-! Readings -/

def Phrase.rename (f : List Char → List Char) : Phrase → Phrase
  | level e => level (e.rename f)
  | chain before after => chain (before.rename f) (after.rename f)
  | operand e => operand (e.rename f)
  | primary e => primary (e.rename f)
  | arguments args => arguments (renameAll f args)
  | moreArguments args => moreArguments (renameAll f args)

def Phrase.Keeps (f : List Char → List Char) : Phrase → Prop
  | level e | operand e | primary e => e.Keeps f
  | chain _ after => after.toExpr.Keeps f
  | arguments args | moreArguments args => KeepsAll f args

/-- A chain holds what it began with. -/
def Phrase.KeepsMore (f : List Char → List Char) : Phrase → Prop
  | chain before after => after.toExpr.Keeps f → before.toExpr.Keeps f
  | level _ | operand _ | primary _ | arguments _ | moreArguments _ => True

variable {p : Phrase} {ts rest : List Token}

theorem Reads.keepsMore (reads : Reads p ts rest) : p.KeepsMore f := by
  induction reads with
  | chainEnd => exact id
  | chainMore _ _ _ further => exact fun keeps => ((Chain.attach_keeps _ _ _).1 (further keeps)).1
  | _ => trivial

theorem Reads.formed (reads : Reads p ts rest) (formed : ∀ t ∈ ts, t.Formed) :
    ∀ t ∈ rest, t.Formed := by
  obtain ⟨tokens, rfl, -⟩ := reads.consumes
  exact fun t member => formed t (List.mem_append_right _ member)

theorem Token.rename_eq_infixOp {t : Token} {op : InfixOp} (same : t.rename f = infixOp op) :
    t = infixOp op := by
  cases t <;> cases same
  rfl

theorem Token.rename_eq_openParen {t : Token} (same : t.rename f = openParen) :
    t = openParen := by
  cases t <;> cases same
  rfl

theorem Reads.rename (lawful : Renaming f) (reads : Reads p ts rest)
    (formed : ∀ t ∈ ts, t.Formed) (keeps : p.Keeps f) :
    Reads (p.rename f) (ts.map (Token.rename f)) (rest.map (Token.rename f)) := by
  have later {t : Token} {ts : List Token} (formed : ∀ t' ∈ t :: ts, t'.Formed) :
      ∀ t' ∈ ts, t'.Formed := fun t' member => formed t' (List.mem_cons_of_mem _ member)
  induction reads with
  | level head behind first further =>
    rw [Phrase.rename, ← Chain.toExpr_rename]
    exact .level (first formed (behind.keepsMore keeps)) (further (head.formed formed) keeps)
  | @chainEnd chain rest ends =>
    refine .chainEnd fun op more same => ?_
    obtain ⟨t, others, rfl, same, -⟩ := List.map_eq_cons_iff.1 same
    exact ends op others (by rw [Token.rename_eq_infixOp same])
  | chainMore operand behind right further =>
    have formed' := later formed
    have both := (Chain.attach_keeps _ _ _).1 (behind.keepsMore keeps)
    have rest := further (operand.formed formed') keeps
    rw [Phrase.rename, Chain.attach_rename] at rest
    exact .chainMore (right formed' both.2) rest
  | negate _ arg => exact .negate (arg (later formed) keeps)
  | not _ arg => exact .not (arg (later formed) keeps)
  | bare _ primary => exact .bare (primary formed keeps)
  | number digits rest => exact .number digits _
  | text s rest => exact .text s _
  | loopIndex rest => exact .loopIndex _
  | @call head args more rest letter _ inner =>
    have same : f head = head := by simpa using keeps.1
    have inner := inner (later (later formed)) keeps.2
    rw [List.map_cons, Token.rename, same]
    exact .call letter inner
  | @word head tail e rest alone stands =>
    have named := (formed _ List.mem_cons_self).1
    refine .word (fun more same => ?_) (lawful.ofWord? named stands keeps)
    obtain ⟨t, others, rfl, same, -⟩ := List.map_eq_cons_iff.1 same
    rw [Token.rename_eq_openParen same] at alone
    simpa using alone others rfl
  | group _ inner => exact .group (inner (later formed) keeps)
  | noArguments rest => exact .noArguments _
  | someArguments _ more => exact .someArguments (more formed keeps)
  | lastArgument _ arg => exact .lastArgument (arg formed keeps.1)
  | nextArgument arg _ first others =>
    refine .nextArgument (first formed keeps.1) (others ?_ keeps.2)
    exact fun t member => arg.formed formed t (List.mem_cons_of_mem _ member)

/-- A quoted text and the mark of the loop index hold no word that is replaced. -/
def Token.Keeps (f : List Char → List Char) : Token → Prop
  | text s => mapWords f s.toList = s.toList
  | loopIndex => f ['i'] = ['i']
  | _ => True

/-- What is read stands in the tree. -/
theorem Reads.tokens (reads : Reads p ts rest) (keeps : p.Keeps f) :
    ∀ t ∈ ts, t ∈ rest ∨ t.Keeps f := by
  have before {t : Token} {ts rest : List Token} (first : t.Keeps f)
      (more : ∀ t ∈ ts, t ∈ rest ∨ t.Keeps f) : ∀ t' ∈ t :: ts, t' ∈ rest ∨ t'.Keeps f :=
    List.forall_mem_cons.2 ⟨.inr first, more⟩
  have behind {t : Token} {ts rest : List Token} (last : t.Keeps f)
      (more : ∀ t' ∈ ts, t' ∈ t :: rest ∨ t'.Keeps f) : ∀ t' ∈ ts, t' ∈ rest ∨ t'.Keeps f := by
    intro t' member
    rcases more t' member with member | keeps
    · rcases List.mem_cons.1 member with rfl | member
      · exact .inr last
      · exact .inl member
    · exact .inr keeps
  have joined {ts mid rest : List Token} (first : ∀ t ∈ ts, t ∈ mid ∨ t.Keeps f)
      (more : ∀ t ∈ mid, t ∈ rest ∨ t.Keeps f) : ∀ t ∈ ts, t ∈ rest ∨ t.Keeps f :=
    fun t member => (first t member).elim (more t) .inr
  have closes : Token.Keeps f .closeParen := trivial
  induction reads with
  | level _ behind first further => exact joined (first (behind.keepsMore keeps)) (further keeps)
  | chainEnd => exact fun _ => .inl
  | chainMore _ behind right further =>
    have both := (Chain.attach_keeps _ _ _).1 (behind.keepsMore keeps)
    exact before trivial (joined (right both.2) (further keeps))
  | negate _ arg | not _ arg => exact before trivial (arg keeps)
  | bare _ primary => exact primary keeps
  | number | word | noArguments => exact before trivial fun _ => .inl
  | text | loopIndex => exact before keeps fun _ => .inl
  | call _ _ args => exact before trivial (before trivial (args keeps.2))
  | group _ inner => exact before trivial (behind closes (inner keeps))
  | someArguments _ more => exact more keeps
  | lastArgument _ arg => exact behind closes (arg keeps.1)
  | nextArgument _ _ arg others =>
    exact joined (arg keeps.1) (before trivial (others keeps.2))

/-! Spellings -/

/-- The first character stays as it is, so nothing else comes to stand behind a token. -/
theorem Renaming.head? (lawful : Renaming f) (cs : List Char) :
    (mapWords f cs).head? = cs.head? := by
  induction cs using words_induction with
  | nil => rw [mapWords_nil]
  | other c cs other _ => rw [mapWords_other other]; rfl
  | run w cs run ends _ =>
    have longer : ∃ more, f w = w ++ more := by
      by_cases named : Token.IsName w
      · obtain ⟨more, longer, -⟩ := lawful.name w named
        exact ⟨more, longer⟩
      · exact ⟨[], by rw [lawful.other w named, List.append_nil]⟩
    obtain ⟨more, longer⟩ := longer
    rw [mapWords_run run ends, longer]
    cases w with
    | nil => exact absurd rfl run.some
    | cons c w => rfl

theorem Renaming.ends (lawful : Renaming f) {cs : List Char} {p : Char → Bool} (ends : Ends p cs) :
    Ends p (mapWords f cs) := by
  rw [Ends, lawful.head?]
  exact ends

namespace Token
variable {cs spelling rest : List Char} {t : Token} {ts : List Token}

/-- A token that is neither a numeral nor quoted nor a word. -/
def IsSymbol : Token → Prop
  | number _ | text _ | word _ _ => False
  | loopIndex | infixOp _ | bang | openParen | closeParen | comma => True

theorem isSymbol_of_takeSymbol? (taken : takeSymbol? cs = some (t, rest)) : t.IsSymbol := by
  unfold takeSymbol? at taken
  split at taken
  case h_20 =>
    split at taken
    · cases taken
    · cases taken
      trivial
  all_goals cases taken
  all_goals trivial

theorem IsSymbol.rename (symbol : t.IsSymbol) : t.rename f = t := by
  cases t <;> first | rfl | cases symbol

theorem Spelled.formed (spelled : Spelled cs ts) : ∀ t ∈ ts, t.Formed := by
  induction spelled with
  | nil => exact nofun
  | blank _ _ formed => exact formed
  | @token t _ rest _ spells _ formed =>
    refine List.forall_mem_cons.2 ⟨?_, formed⟩
    cases spells with
    | word named => exact ⟨named, nofun⟩
    | field named within => exact ⟨named, fun w member => Option.some.inj member ▸ within⟩
    | number | text | index => trivial
    | symbol _ _ ahead =>
      have symbol := isSymbol_of_takeSymbol? (ahead rest rfl)
      cases t <;> trivial

theorem isWord_of_isBlank {c : Char} (blank : isBlank c = true) : isWord c = false := by
  simp only [isBlank, Bool.or_eq_true, beq_iff_eq] at blank
  rcases blank with ((rfl | rfl) | rfl) | rfl <;> decide

theorem isIdentChar_of_isDigit {c : Char} (digit : c.isDigit = true) : isIdentChar c = true := by
  simp [isIdentChar, Char.isAlphanum, digit]

/-- A text of tokens begins a word with an ASCII character. -/
theorem Spelled.ends (spelled : Spelled cs ts) (ends : Ends isIdentChar cs) : Ends isWord cs := by
  cases spelled with
  | nil => rfl
  | blank blank => exact isWord_of_isBlank blank
  | @token _ spelling _ _ spells =>
    cases spells with
    | number numeral =>
      obtain ⟨c, cs, rfl, digit⟩ := numeral.head
      exact absurd (isIdentChar_of_isDigit digit) (Bool.eq_false_iff.1 ends)
    | text rest quotes => rcases quotes with rfl | rfl <;> rfl
    | word named | field named =>
      obtain ⟨c, cs, rfl, start, -⟩ := named
      exact absurd (isIdentChar_of_start start) (Bool.eq_false_iff.1 ends)
    | index => rfl
    | symbol nonempty chars =>
      cases spelling with
      | nil => exact absurd rfl nonempty
      | cons c cs => exact chars c List.mem_cons_self

/-- Where a name begins, the first token is a word. -/
theorem Spelled.first_isName {c : Char} (spelled : Spelled (c :: cs) ts)
    (start : isIdentStart c = true) : ∃ t ∈ ts.head?, t.isName = true := by
  have word : isWord c = true := isWord_of_ascii (isIdentChar_of_start start)
  generalize text : c :: cs = whole at spelled
  cases spelled with
  | nil => cases text
  | blank blank =>
    cases text
    rw [isWord_of_isBlank blank] at word
    cases word
  | @token _ spelling _ _ spells =>
    cases spells with
    | number numeral =>
      obtain ⟨x, digits, rfl, digit⟩ := numeral.head
      cases text
      rw [isDigit_of_start start] at digit
      cases digit
    | text rest quotes =>
      cases text
      rcases quotes with rfl | rfl <;> cases word
    | word => exact ⟨_, rfl, rfl⟩
    | field => exact ⟨_, rfl, rfl⟩
    | index => cases text; cases word
    | symbol nonempty chars =>
      cases spelling with
      | nil => exact absurd rfl nonempty
      | cons x spelling =>
        cases text
        rw [chars c List.mem_cons_self] at word
        cases word

theorem IsNumeral.mapWords {digits : List Char} (numeral : IsNumeral digits) (lawful : Renaming f) :
    Text.mapWords f digits = digits := by
  have run {digits : List Char} (nonempty : digits ≠ []) (chars : ∀ c ∈ digits, c.isDigit = true) :
      IsRun digits := ⟨nonempty, fun c member => isWord_of_isDigit (chars c member)⟩
  have same {digits : List Char} (nonempty : digits ≠ []) (chars : ∀ c ∈ digits, c.isDigit = true) :
      f digits = digits := by
    refine lawful.other digits ?_
    rintro ⟨c, cs, rfl, start, -⟩
    have digit := chars c List.mem_cons_self
    rw [isDigit_of_start start] at digit
    cases digit
  have alone {digits : List Char} (nonempty : digits ≠ [])
      (chars : ∀ c ∈ digits, c.isDigit = true) :
      Text.mapWords f digits = digits := by
    have ends : Ends Text.isWord [] := rfl
    have mapped := mapWords_run (f := f) (run nonempty chars) ends
    rwa [List.append_nil, mapWords_nil, List.append_nil, same nonempty chars] at mapped
  cases numeral with
  | whole nonempty chars => exact alone nonempty chars
  | @fraction _ more nonempty further chars behind =>
    have point : Ends Text.isWord ('.' :: more) := rfl
    rw [mapWords_run (run nonempty chars) point, mapWords_other rfl, same nonempty chars,
      alone further behind]

theorem Spells.rename (lawful : Renaming f) (spells : Spells t spelling rest)
    (behind : Spelled rest ts) (fits : ∀ t' ∈ ts.head?, Fits t t')
    (keeps : t.Keeps f) :
    ∃ spelling', mapWords f (spelling ++ rest) = spelling' ++ mapWords f rest ∧
      Spells (t.rename f) spelling' (mapWords f rest) := by
  cases spells with
  | number numeral ends =>
    have identless : Ends isIdentChar rest := by
      cases rest with
      | nil => rfl
      | cons c rest =>
        refine Bool.eq_false_iff.2 fun char => ?_
        have digitless : c.isDigit = false := (Bool.or_eq_false_iff.1 ends).1
        have start : isIdentStart c = true := by
          simpa [isIdentChar, isIdentStart, Char.isAlphanum, digitless] using char
        obtain ⟨t, first, word⟩ := behind.first_isName start
        rw [fits t first rfl] at word
        cases word
    refine ⟨spelling, ?_, .number numeral (lawful.ends ends)⟩
    rw [mapWords_append (.inr (behind.ends identless)), numeral.mapWords lawful]
  | @text quote inner _ quotes other =>
    have outside : isWord quote = false := by rcases quotes with rfl | rfl <;> decide
    have same : mapWords f inner = inner := by simpa [Token.Keeps] using keeps
    refine ⟨quote :: inner ++ [quote], ?_, .text _ quotes other⟩
    have apart : Ends isWord (quote :: rest) := outside
    rw [List.append_assoc, List.cons_append, mapWords_other outside, List.singleton_append,
      mapWords_append (.inr apart), same, mapWords_other outside]
    simp
  | word named ends =>
    have stops : Ends isIdentChar rest :=
      Ends.mono (fun c char => by simp [isReferenceChar, char]) ends
    obtain ⟨more, longer, chars⟩ := lawful.name _ named
    refine ⟨f spelling, mapWords_run named.run (behind.ends stops), .word ?_ (lawful.ends ends)⟩
    rw [longer]
    exact named.append chars
  | @field head tail _ named within ends =>
    obtain ⟨more, longer, chars⟩ := lawful.name _ named
    obtain ⟨more', longer', chars'⟩ := lawful.name _ within
    have point : Ends isWord ('.' :: (tail ++ rest)) := rfl
    refine ⟨f head ++ '.' :: f tail, ?_, .field ?_ ?_ (lawful.ends ends)⟩
    · rw [List.append_assoc, List.cons_append, mapWords_run named.run point, mapWords_other rfl,
        mapWords_run within.run (behind.ends ends)]
      simp
    · rw [longer]
      exact named.append chars
    · rw [longer']
      exact within.append chars'
  | index ends =>
    have run : IsRun ['i'] := ⟨by simp, List.all_eq_true.1 rfl⟩
    have mapped := mapWords_run (f := f) run (behind.ends ends)
    refine ⟨['$', 'i'], ?_, .index (lawful.ends ends)⟩
    rw [List.cons_append, mapWords_other (by decide), mapped, keeps]
    rfl
  | symbol nonempty chars ahead =>
    have symbol := isSymbol_of_takeSymbol? (ahead rest rfl)
    refine ⟨spelling, mapWords_others chars rest, ?_⟩
    rw [symbol.rename]
    refine .symbol nonempty chars fun further same => ahead further ?_
    rw [same, lawful.head?]

theorem Spelled.rename (lawful : Renaming f) (spelled : Spelled cs ts) (fits : ts.IsChain Fits)
    (keeps : ∀ t ∈ ts, t.Keeps f) :
    Spelled (mapWords f cs) (ts.map (Token.rename f)) := by
  induction spelled with
  | nil => rw [mapWords_nil]; exact .nil
  | blank blank _ ih =>
    rw [mapWords_other (isWord_of_isBlank blank)]
    exact .blank blank (ih fits keeps)
  | token spells behind ih =>
    obtain ⟨first, fits⟩ := List.isChain_cons.1 fits
    obtain ⟨here, keeps⟩ := List.forall_mem_cons.1 keeps
    obtain ⟨spelling', text, spells'⟩ := spells.rename lawful behind first here
    rw [text]
    exact .token spells' (ih fits keeps)

end Token

theorem Token.isUnreadable_rename (t : Token) : (t.rename f).isUnreadable = t.isUnreadable := by
  cases t <;> rfl

/-- A text is read if it falls into tokens that are an expression with readable numbers and
no more levels than allowed. -/
theorem read_eq_ok_iff {maxDepth : Nat} {s : String} : Expr.read maxDepth s = .ok e ↔
    ∃ tokens, Token.Spelled s.toList tokens ∧ Reads (.level e) tokens [] ∧
      tokens.any Token.isUnreadable = false ∧ e.depth ≤ maxDepth := by
  have parsed (tokens : List Token) : ofChars? s.toList = some (e, tokens) ↔
      Token.Spelled s.toList tokens ∧ Reads (.level e) tokens [] := by
    rw [ofChars?_eq_some_iff, Token.ofChars?_eq_some_iff]
  unfold Expr.read
  constructor
  · intro read
    split at read
    · cases read
    · next e' tokens found =>
      split at read
      · cases read
      · next readable =>
        split at read
        · cases read
        · next shallow =>
          cases read
          obtain ⟨spelled, reads⟩ := (parsed tokens).1 found
          exact ⟨tokens, spelled, reads, by simpa using readable, Nat.le_of_not_lt shallow⟩
  · rintro ⟨tokens, spelled, reads, readable, shallow⟩
    rw [(parsed tokens).2 ⟨spelled, reads⟩]
    simp only [readable, Bool.false_eq_true, if_false, if_neg (Nat.not_lt.2 shallow)]

/-- With the words replaced an expression reads as its tree with other names in the
references. -/
theorem read_mapWords (lawful : Renaming f) {maxDepth : Nat} {s : String}
    (read : Expr.read maxDepth s = .ok e) (keeps : e.Keeps f) :
    Expr.read maxDepth (String.ofList (mapWords f s.toList)) = .ok (e.rename f) := by
  obtain ⟨tokens, spelled, reads, readable, shallow⟩ := read_eq_ok_iff.1 read
  obtain ⟨_, text, fits, -⟩ := reads.consumes
  rw [List.append_nil] at text
  subst text
  have kept (t : Token) (member : t ∈ tokens) : t.Keeps f :=
    (reads.tokens keeps t member).resolve_left nofun
  refine read_eq_ok_iff.2 ⟨tokens.map (Token.rename f), ?_, ?_, ?_, ?_⟩
  · rw [String.toList_ofList]
    exact spelled.rename lawful fits kept
  · exact reads.rename lawful spelled.formed keeps
  · rw [List.any_map, ← readable]
    exact congrArg tokens.any (funext Token.isUnreadable_rename)
  · rwa [depth_rename]

end Questionnaire.Expr
