import Mathlib.Data.List.Chain
import Questionnaire.Expr.Reader

/-! The grammar of condition expressions as a relation. The reader of tokens is sound and
complete for it, so facts about all expressions that are read go by induction on how they
are read. -/
namespace Questionnaire.Expr

/-- What can be read at some place: a level, the operators behind a chain, an operand with
its prefixes, an operand without, and the arguments of a call. -/
inductive Phrase where
  | level (e : Expr)
  | chain (before after : Chain)
  | operand (e : Expr)
  | primary (e : Expr)
  | arguments (args : List Expr)
  | moreArguments (args : List Expr)

inductive Reads : Phrase → List Token → List Token → Prop
  | level {first : Expr} {chain : Chain} {ts mid rest : List Token}
      (head : Reads (.operand first) ts mid)
      (behind : Reads (.chain (.operand first) chain) mid rest) :
      Reads (.level chain.toExpr) ts rest
  | chainEnd {chain : Chain} {rest : List Token} (ends : ∀ op more, rest ≠ .infixOp op :: more) :
      Reads (.chain chain chain) rest rest
  | chainMore {chain after : Chain} {op : InfixOp} {right : Expr} {more mid rest : List Token}
      (operand : Reads (.operand right) more mid)
      (behind : Reads (.chain (chain.attach op right) after) mid rest) :
      Reads (.chain chain after) (.infixOp op :: more) rest
  | negate {e : Expr} {more rest : List Token} (arg : Reads (.operand e) more rest) :
      Reads (.operand (.unary .negate e)) (.infixOp .subtract :: more) rest
  | not {e : Expr} {more rest : List Token} (arg : Reads (.operand e) more rest) :
      Reads (.operand (.unary .not e)) (.bang :: more) rest
  | bare {e : Expr} {ts rest : List Token} (primary : Reads (.primary e) ts rest) :
      Reads (.operand e) ts rest
  | number (digits : List Char) (rest : List Token) :
      Reads (.primary (literal digits)) (.number digits :: rest) rest
  | text (s : String) (rest : List Token) : Reads (.primary (.text s)) (.text s :: rest) rest
  | loopIndex (rest : List Token) : Reads (.primary .loopIndex) (.loopIndex :: rest) rest
  | call {head : List Char} {args : List Expr} {more rest : List Token}
      (letter : head.head?.any Char.isAlpha = true)
      (arguments : Reads (.arguments args) more rest) :
      Reads (.primary (.call (String.ofList head) args))
        (.word head none :: .openParen :: more) rest
  | word {head : List Char} {tail : Option (List Char)} {e : Expr} {rest : List Token}
      (alone : ∀ more, rest = .openParen :: more → tail ≠ none)
      (stands : ofWord? head tail = some e) : Reads (.primary e) (.word head tail :: rest) rest
  | group {e : Expr} {more rest : List Token}
      (inner : Reads (.level e) more (.closeParen :: rest)) :
      Reads (.primary e) (.openParen :: more) rest
  | noArguments (rest : List Token) : Reads (.arguments []) (.closeParen :: rest) rest
  | someArguments {args : List Expr} {ts rest : List Token}
      (more : Reads (.moreArguments args) ts rest) : Reads (.arguments args) ts rest
  | lastArgument {e : Expr} {ts rest : List Token}
      (arg : Reads (.level e) ts (.closeParen :: rest)) : Reads (.moreArguments [e]) ts rest
  | nextArgument {e : Expr} {args : List Expr} {ts further rest : List Token}
      (arg : Reads (.level e) ts (.comma :: further))
      (more : Reads (.moreArguments args) further rest) : Reads (.moreArguments (e :: args)) ts rest

/-! Soundness -/

theorem reads_of_readers :
    (∀ ts e rest, level? ts = some (e, rest) → Reads (.level e) ts rest.1) ∧
    (∀ chain ts rest after final, chain? chain ts rest = some (after, final) →
      Reads (.chain chain after) rest.1 final.1) ∧
    (∀ ts e rest, operand? ts = some (e, rest) → Reads (.operand e) ts rest.1) ∧
    (∀ ts e rest, primary? ts = some (e, rest) → Reads (.primary e) ts rest.1) ∧
    (∀ ts args rest, arguments? ts = some (args, rest) → Reads (.arguments args) ts rest.1) ∧
    (∀ ts args rest, moreArguments? ts = some (args, rest) →
      Reads (.moreArguments args) ts rest.1) := by
  apply level?.mutual_induct
    (fun ts => ∀ e rest, level? ts = some (e, rest) → Reads (.level e) ts rest.1)
    (fun chain ts rest => ∀ after final, chain? chain ts rest = some (after, final) →
      Reads (.chain chain after) rest.1 final.1)
    (fun ts => ∀ e rest, operand? ts = some (e, rest) →
      Reads (.operand e) ts rest.1)
    (fun ts => ∀ e rest, primary? ts = some (e, rest) →
      Reads (.primary e) ts rest.1)
    (fun ts => ∀ args rest, arguments? ts = some (args, rest) →
      Reads (.arguments args) ts rest.1)
    (fun ts => ∀ args rest, moreArguments? ts = some (args, rest) →
      Reads (.moreArguments args) ts rest.1)
  case case1 =>
    intro ts operand chain e rest read
    rw [level?] at read
    simp only [Option.bind_eq_bind, Option.bind_eq_some_iff, Prod.exists, Option.pure_def,
      Option.some.injEq, Prod.mk.injEq] at read
    obtain ⟨first, mid, head, after, _, behind, rfl, rfl⟩ := read
    exact .level (operand _ _ head) (chain _ _ _ _ behind)
  case case2 =>
    intro chain ts op more h hmore operand behind after final read
    rw [chain?] at read
    simp only [Option.bind_eq_bind, Option.bind_eq_some_iff, Prod.exists] at read
    obtain ⟨right, further, head, read⟩ := read
    exact .chainMore (operand _ _ head) (behind _ _ _ _ read)
  case case3 =>
    intro chain ts rest ends after final read
    unfold chain? at read
    split at read
    · exact (ends _ _ _ rfl).elim
    · cases read
      exact .chainEnd fun op more same => ends op more (same ▸ rest.2) (Subtype.ext same)
  case case4 =>
    intro more operand e rest read
    rw [operand?] at read
    simp only [Option.bind_eq_bind, Option.bind_eq_some_iff, Prod.exists, Option.pure_def,
      Option.some.injEq, Prod.mk.injEq] at read
    obtain ⟨arg, further, head, rfl, rfl⟩ := read
    exact .negate (operand _ _ head)
  case case5 =>
    intro more operand e rest read
    rw [operand?] at read
    simp only [Option.bind_eq_bind, Option.bind_eq_some_iff, Prod.exists, Option.pure_def,
      Option.some.injEq, Prod.mk.injEq] at read
    obtain ⟨arg, further, head, rfl, rfl⟩ := read
    exact .not (operand _ _ head)
  case case6 =>
    intro ts noMinus noBang primary e rest read
    unfold operand? at read
    split at read
    · exact (noMinus _ rfl).elim
    · exact (noBang _ rfl).elim
    · exact .bare (primary _ _ read)
  case case7 =>
    intro digits more e rest read
    rw [primary?] at read
    cases read
    exact .number digits more
  case case8 =>
    intro s more e rest read
    rw [primary?] at read
    cases read
    exact .text s more
  case case9 =>
    intro more e rest read
    rw [primary?] at read
    cases read
    exact .loopIndex more
  case case10 =>
    intro head more letter arguments e rest read
    rw [primary?, if_pos letter] at read
    simp only [Option.bind_eq_bind, Option.bind_eq_some_iff, Prod.exists, Option.pure_def,
      Option.some.injEq, Prod.mk.injEq] at read
    obtain ⟨args, further, inner, rfl, rfl⟩ := read
    exact .call letter (arguments _ _ inner)
  case case11 =>
    intro head more letter e rest read
    rw [primary?, if_neg letter] at read
    cases read
  case case12 =>
    intro head tail more alone e rest read
    have stands : primary? (.word head tail :: more) = (ofWord? head tail).bind fun e =>
        some (e, Rest.tail (.word head tail) more) := by
      rw [primary?]
      · rfl
      · exact alone
    simp only [stands, Option.bind_eq_some_iff, Option.some.injEq, Prod.mk.injEq] at read
    obtain ⟨_, stands, rfl, rfl⟩ := read
    exact .word (fun further same none => alone further same none) stands
  case case13 =>
    intro more level e rest read
    rw [primary?] at read
    simp only [Option.bind_eq_bind, Option.bind_eq_some_iff, Prod.exists] at read
    obtain ⟨inner, further, head, read⟩ := read
    split at read
    · next closed _ =>
      cases read
      exact .group (level _ _ head)
    · cases read
  case case14 =>
    intro ts noNumber noText noIndex noCall noWord noGroup e rest read
    unfold primary? at read
    split at read
    · exact (noNumber _ _ rfl).elim
    · exact (noText _ _ rfl).elim
    · exact (noIndex _ rfl).elim
    · exact (noCall _ _ rfl).elim
    · exact (noWord _ _ _ rfl).elim
    · exact (noGroup _ rfl).elim
    · cases read
  case case15 =>
    intro more args rest read
    rw [arguments?] at read
    cases read
    exact .noArguments more
  case case16 =>
    intro ts open' more args rest read
    unfold arguments? at read
    split at read
    · exact (open' _ rfl).elim
    · exact .someArguments (more _ _ read)
  case case17 =>
    intro ts level more args rest read
    rw [moreArguments?] at read
    simp only [Option.bind_eq_bind, Option.bind_eq_some_iff, Prod.exists] at read
    obtain ⟨arg, further, head, read⟩ := read
    split at read
    · next h =>
      simp only [Option.bind_eq_some_iff, Prod.exists, Option.pure_def, Option.some.injEq,
        Prod.mk.injEq] at read
      obtain ⟨others, final, behind, rfl, rfl⟩ := read
      exact .nextArgument (level _ _ head) (more _ h _ _ behind)
    · cases read
      exact .lastArgument (level _ _ head)
    · cases read

/-! Completeness -/

/-- What the reader of a phrase does with tokens, of which it leaves the rest. -/
def Phrase.IsRead (ts rest : List Token) : Phrase → Prop
  | level e => ∃ h, level? ts = some (e, ⟨rest, h⟩)
  | chain before after => rest.length ≤ ts.length ∧ ∀ whole (h : ts.length < whole.length),
      ∃ h', chain? before whole ⟨ts, h⟩ = some (after, ⟨rest, h'⟩)
  | operand e => ∃ h, operand? ts = some (e, ⟨rest, h⟩)
  | primary e => ∃ h, primary? ts = some (e, ⟨rest, h⟩)
  | arguments args => ∃ h, arguments? ts = some (args, ⟨rest, h⟩)
  | moreArguments args => ∃ h, moreArguments? ts = some (args, ⟨rest, h⟩)

theorem primary?_head {ts : List Token} {e : Expr} {rest : Rest ts}
    (read : primary? ts = some (e, rest)) : operand? ts = some (e, rest) := by
  unfold operand?
  split
  · simp [primary?] at read
  · simp [primary?] at read
  · exact read

/-- What begins with a closing parenthesis is the end of something. -/
def Phrase.Opens (ts : List Token) : Phrase → Prop
  | chain _ _ | arguments _ => True
  | level _ | operand _ | primary _ | moreArguments _ => ∀ more, ts ≠ .closeParen :: more

theorem Reads.opens {p : Phrase} {ts rest : List Token} (reads : Reads p ts rest) : p.Opens ts := by
  induction reads with
  | level _ _ opens _ | bare _ opens | lastArgument _ opens | nextArgument _ _ opens _ =>
    exact opens
  | chainEnd | chainMore | noArguments | someArguments => trivial
  | negate | not | number | text | loopIndex | call | word | group => exact nofun

theorem Reads.isRead {p : Phrase} {ts rest : List Token} (reads : Reads p ts rest) :
    p.IsRead ts rest := by
  induction reads with
  | level head behind headRead behindRead =>
    obtain ⟨h, first⟩ := headRead
    obtain ⟨-, read⟩ := behindRead
    obtain ⟨h', chain⟩ := read _ h
    refine ⟨h', ?_⟩
    rw [level?, first]
    simp only [Option.bind_eq_bind, Option.bind_some, chain]
    rfl
  | chainEnd ends =>
    refine ⟨Nat.le_refl _, fun whole h => ⟨h, ?_⟩⟩
    unfold chain?
    split
    · next eq => cases eq; exact (ends _ _ rfl).elim
    · rfl
  | chainMore operand behind operandRead behindRead =>
    obtain ⟨h, right⟩ := operandRead
    obtain ⟨shorter, read⟩ := behindRead
    refine ⟨Nat.le_trans shorter (Nat.le_of_lt (Nat.lt_succ_of_lt h)), fun whole longer => ?_⟩
    obtain ⟨h', chain⟩ := read whole (Nat.lt_trans h (Nat.lt_of_succ_lt longer))
    refine ⟨h', ?_⟩
    rw [chain?]
    simp only [Option.bind_eq_bind, right, Option.bind_some, chain]
  | negate arg argRead =>
    obtain ⟨h, read⟩ := argRead
    refine ⟨Nat.lt_succ_of_lt h, ?_⟩
    rw [operand?, read]
    rfl
  | not arg argRead =>
    obtain ⟨h, read⟩ := argRead
    refine ⟨Nat.lt_succ_of_lt h, ?_⟩
    rw [operand?, read]
    rfl
  | bare primary primaryRead =>
    obtain ⟨h, read⟩ := primaryRead
    exact ⟨h, primary?_head read⟩
  | number digits rest => exact ⟨Nat.lt_succ_self _, by rw [primary?]; rfl⟩
  | text s rest => exact ⟨Nat.lt_succ_self _, by rw [primary?]; rfl⟩
  | loopIndex rest => exact ⟨Nat.lt_succ_self _, by rw [primary?]; rfl⟩
  | call letter arguments argumentsRead =>
    obtain ⟨h, read⟩ := argumentsRead
    refine ⟨Nat.lt_succ_of_lt (Nat.lt_succ_of_lt h), ?_⟩
    rw [primary?, if_pos letter, read]
    rfl
  | @word head tail e rest alone stands =>
    refine ⟨Nat.lt_succ_self _, ?_⟩
    rw [primary?, stands]
    · rfl
    · exact fun more same none => alone more same none
  | group inner innerRead =>
    obtain ⟨h, read⟩ := innerRead
    refine ⟨Nat.lt_succ_of_lt (Nat.lt_of_succ_lt h), ?_⟩
    rw [primary?, read]
    rfl
  | noArguments rest => exact ⟨Nat.lt_succ_self _, by rw [arguments?]; rfl⟩
  | @someArguments args ts rest more moreRead =>
    obtain ⟨h, read⟩ := moreRead
    refine ⟨h, ?_⟩
    unfold arguments?
    split
    · exact (more.opens _ rfl).elim
    · exact read
  | lastArgument arg argRead =>
    obtain ⟨h, read⟩ := argRead
    refine ⟨Nat.lt_of_succ_lt h, ?_⟩
    rw [moreArguments?, read]
    rfl
  | nextArgument arg more argRead moreRead =>
    obtain ⟨h, read⟩ := argRead
    obtain ⟨h', others⟩ := moreRead
    refine ⟨Nat.lt_trans h' (Nat.lt_of_succ_lt h), ?_⟩
    rw [moreArguments?, read]
    simp only [Option.bind_eq_bind, Option.bind_some, others]
    rfl

theorem level?_eq_some_iff {ts rest : List Token} {e : Expr} :
    (∃ h, level? ts = some (e, ⟨rest, h⟩)) ↔ Reads (.level e) ts rest := by
  constructor
  · rintro ⟨h, read⟩
    exact reads_of_readers.1 _ _ _ read
  · exact Reads.isRead

theorem ofChars?_eq_some_iff {cs : List Char} {e : Expr} {tokens : List Token} :
    ofChars? cs = some (e, tokens) ↔
      Token.ofChars? cs = some tokens ∧ Reads (.level e) tokens [] := by
  simp only [ofChars?, Option.bind_eq_bind, Option.bind_eq_some_iff, Prod.exists]
  constructor
  · rintro ⟨ts, spelled, e', ⟨rest, h⟩, read, whole⟩
    split at whole
    · next done =>
      cases whole
      obtain rfl := List.isEmpty_iff.1 done
      exact ⟨spelled, level?_eq_some_iff.1 ⟨h, read⟩⟩
    · cases whole
  · rintro ⟨spelled, reads⟩
    obtain ⟨h, read⟩ := level?_eq_some_iff.2 reads
    exact ⟨tokens, spelled, e, ⟨[], h⟩, read, rfl⟩

/-! Neighbours -/

def Token.isNumeral : Token → Bool
  | number _ => true
  | _ => false

def Token.isName : Token → Bool
  | word _ _ => true
  | _ => false

/-- A word does not follow a number. -/
def Token.Fits (a b : Token) : Prop := a.isNumeral = true → b.isName = false

/-- Behind an operand no word follows. -/
def Phrase.Begins (tokens : List Token) : Phrase → Prop
  | chain _ _ => ∀ t ∈ tokens.head?, t.isName = false
  | level _ | operand _ | primary _ | arguments _ | moreArguments _ => True

theorem isChain_append {before after : List Token} (fits : before.IsChain Token.Fits)
    (fits' : after.IsChain Token.Fits) (first : ∀ t ∈ after.head?, t.isName = false) :
    (before ++ after).IsChain Token.Fits :=
  List.isChain_append.2 ⟨fits, fits', fun _ _ t head _ => first t head⟩

theorem isChain_cons {t : Token} {after : List Token} (other : t.isNumeral = false)
    (fits : after.IsChain Token.Fits) : (t :: after).IsChain Token.Fits :=
  List.isChain_cons.2 ⟨fun _ _ number => absurd number (by simp [other]), fits⟩

theorem Reads.consumes {p : Phrase} {ts rest : List Token} (reads : Reads p ts rest) :
    ∃ tokens, ts = tokens ++ rest ∧ tokens.IsChain Token.Fits ∧ p.Begins tokens := by
  induction reads with
  | level _ _ first further =>
    obtain ⟨tokens, rfl, fits, -⟩ := first
    obtain ⟨more, rfl, fits', begins⟩ := further
    exact ⟨tokens ++ more, (List.append_assoc _ _ _).symm, isChain_append fits fits' begins,
      trivial⟩
  | chainEnd => exact ⟨[], rfl, .nil, fun _ none => by cases none⟩
  | @chainMore _ _ op _ _ _ _ _ _ right further =>
    obtain ⟨tokens, rfl, fits, -⟩ := right
    obtain ⟨more, rfl, fits', begins⟩ := further
    refine ⟨.infixOp op :: (tokens ++ more), by simp,
      isChain_cons rfl (isChain_append fits fits' begins), ?_⟩
    rintro _ ⟨⟩
    rfl
  | negate _ arg | not _ arg =>
    obtain ⟨tokens, rfl, fits, -⟩ := arg
    exact ⟨_ :: tokens, rfl, isChain_cons rfl fits, trivial⟩
  | bare _ primary => exact primary
  | number | text | loopIndex | word => exact ⟨[_], rfl, .singleton _, trivial⟩
  | call _ _ args =>
    obtain ⟨tokens, rfl, fits, -⟩ := args
    exact ⟨_ :: _ :: tokens, rfl, isChain_cons rfl (isChain_cons rfl fits), trivial⟩
  | @group _ _ rest _ inner =>
    obtain ⟨tokens, rfl, fits, -⟩ := inner
    refine ⟨.openParen :: (tokens ++ [.closeParen]), by simp,
      isChain_cons rfl (isChain_append fits (.singleton _) ?_), trivial⟩
    rintro _ ⟨⟩
    rfl
  | noArguments => exact ⟨[_], rfl, .singleton _, trivial⟩
  | someArguments _ more =>
    obtain ⟨tokens, text, fits, -⟩ := more
    exact ⟨tokens, text, fits, trivial⟩
  | lastArgument _ arg =>
    obtain ⟨tokens, rfl, fits, -⟩ := arg
    refine ⟨tokens ++ [.closeParen], by simp, isChain_append fits (.singleton _) ?_, trivial⟩
    rintro _ ⟨⟩
    rfl
  | nextArgument _ _ arg others =>
    obtain ⟨tokens, rfl, fits, -⟩ := arg
    obtain ⟨more, rfl, fits', -⟩ := others
    refine ⟨tokens ++ .comma :: more, by simp, isChain_append fits (isChain_cons rfl fits') ?_,
      trivial⟩
    rintro _ ⟨⟩
    rfl

end Questionnaire.Expr
