import Mathlib.Order.Bounds.Basic
import Questionnaire.Proofs.Expr.Nested
import Questionnaire.Proofs.Expr.Precedence

/-! How expressions are written: a level is a row of operands with infix operators between them,
an operand a primary behind prefix operators, and within parentheses and between commas there are
levels again. What is read is what is written, at each level with the tree that its operators
declare, as long as no path through the tree is too long. -/
namespace Questionnaire

/-- The token of a prefix operator. -/
def PrefixOp.token : PrefixOp → Expr.Token
  | negate => .infixOp .subtract
  | not => .bang

namespace Expr

/-- What is written at some place: a level, the operators and operands behind its first operand,
an operand, its primary, and the arguments of a call. -/
inductive Part where
  | level (e : Expr)
  | links (links : List (InfixOp × Operand))
  | operand (o : Operand)
  | primary (e : Expr)
  | arguments (args : List Expr)
  | someArguments (args : List Expr)

inductive Writes : Part → List Token → Prop
  | level {first : Operand} {links : List (InfixOp × Operand)} {c : Chain} {ts ts' : List Token}
      (head : Writes (.operand first) ts) (behind : Writes (.links links) ts')
      (built : Chain.Built first.toExpr (linksOf links) c) : Writes (.level c.toExpr) (ts ++ ts')
  | noLinks : Writes (.links []) []
  | link {op : InfixOp} {o : Operand} {links : List (InfixOp × Operand)} {ts ts' : List Token}
      (operand : Writes (.operand o) ts) (behind : Writes (.links links) ts') :
      Writes (.links ((op, o) :: links)) (.infixOp op :: (ts ++ ts'))
  | bare {e : Expr} {ts : List Token} (primary : Writes (.primary e) ts) :
      Writes (.operand ⟨[], e⟩) ts
  | sign {op : PrefixOp} {signs : List PrefixOp} {e : Expr} {ts : List Token}
      (operand : Writes (.operand ⟨signs, e⟩) ts) :
      Writes (.operand ⟨op :: signs, e⟩) (op.token :: ts)
  | number (digits : List Char) : Writes (.primary (literal digits)) [.number digits]
  | text (s : String) : Writes (.primary (.text s)) [.text s]
  | loopIndex : Writes (.primary .loopIndex) [.loopIndex]
  | word {head : List Char} {tail : Option (List Char)} {e : Expr}
      (stands : ofWord? head tail = some e) : Writes (.primary e) [.word head tail]
  | call {head : List Char} {args : List Expr} {ts : List Token}
      (letter : head.head?.any Char.isAlpha = true) (arguments : Writes (.arguments args) ts) :
      Writes (.primary (.call (String.ofList head) args))
        (.word head none :: .openParen :: (ts ++ [.closeParen]))
  | group {e : Expr} {ts : List Token} (inner : Writes (.level e) ts) :
      Writes (.primary e) (.openParen :: (ts ++ [.closeParen]))
  | noArguments : Writes (.arguments []) []
  | arguments {args : List Expr} {ts : List Token} (some : Writes (.someArguments args) ts) :
      Writes (.arguments args) ts
  | lastArgument {e : Expr} {ts : List Token} (arg : Writes (.level e) ts) :
      Writes (.someArguments [e]) ts
  | nextArgument {e : Expr} {args : List Expr} {ts ts' : List Token} (arg : Writes (.level e) ts)
      (more : Writes (.someArguments args) ts') :
      Writes (.someArguments (e :: args)) (ts ++ .comma :: ts')

/-! What is read is written -/

/-- What is read of the tokens at the front is written with them. The closing parenthesis of
arguments is read with them. -/
def Phrase.IsWritten (front : List Token) : Phrase → Prop
  | level e => Writes (.level e) front
  | chain before after => ∃ links, Writes (.links links) front ∧ after = before.folded (linksOf links)
  | operand e => ∃ o : Operand, o.toExpr = e ∧ Writes (.operand o) front
  | primary e => Writes (.primary e) front
  | arguments args => ∃ inner, front = inner ++ [.closeParen] ∧ Writes (.arguments args) inner
  | moreArguments args => ∃ inner, front = inner ++ [.closeParen] ∧ Writes (.someArguments args) inner

theorem Reads.written {p : Phrase} {ts rest : List Token} (reads : Reads p ts rest) :
    ∃ front, ts = front ++ rest ∧ p.IsWritten front := by
  induction reads with
  | level _ _ ihHead ihBehind =>
    obtain ⟨front, rfl, o, same, head⟩ := ihHead
    obtain ⟨front', rfl, links, behind, rfl⟩ := ihBehind
    refine ⟨front ++ front', (List.append_assoc ..).symm, .level head behind ?_⟩
    rw [same]
    exact Chain.built_iff.2 rfl
  | chainEnd => exact ⟨[], rfl, [], .noLinks, rfl⟩
  | @chainMore _ _ op _ _ _ _ _ _ ihOperand ihBehind =>
    obtain ⟨front, rfl, o, rfl, operand⟩ := ihOperand
    obtain ⟨front', rfl, links, behind, rfl⟩ := ihBehind
    exact ⟨.infixOp op :: (front ++ front'), by simp, (op, o) :: links, .link operand behind, rfl⟩
  | negate _ ih =>
    obtain ⟨front, rfl, o, rfl, operand⟩ := ih
    exact ⟨PrefixOp.negate.token :: front, rfl, ⟨.negate :: o.signs, o.primary⟩, rfl, .sign operand⟩
  | not _ ih =>
    obtain ⟨front, rfl, o, rfl, operand⟩ := ih
    exact ⟨PrefixOp.not.token :: front, rfl, ⟨.not :: o.signs, o.primary⟩, rfl, .sign operand⟩
  | bare _ ih =>
    obtain ⟨front, rfl, primary⟩ := ih
    exact ⟨front, rfl, ⟨[], _⟩, rfl, .bare primary⟩
  | number digits => exact ⟨_, rfl, .number digits⟩
  | text s => exact ⟨_, rfl, .text s⟩
  | loopIndex => exact ⟨_, rfl, .loopIndex⟩
  | @call head _ _ _ letter _ ih =>
    obtain ⟨_, rfl, inner, rfl, arguments⟩ := ih
    exact ⟨.word head none :: .openParen :: (inner ++ [Token.closeParen]), rfl, .call letter arguments⟩
  | word _ stands => exact ⟨_, rfl, .word stands⟩
  | group _ ih =>
    obtain ⟨front, rfl, inner⟩ := ih
    exact ⟨.openParen :: (front ++ [Token.closeParen]), by simp, .group inner⟩
  | noArguments => exact ⟨[.closeParen], rfl, [], rfl, .noArguments⟩
  | someArguments _ ih =>
    obtain ⟨_, rfl, inner, rfl, more⟩ := ih
    exact ⟨_, rfl, inner, rfl, .arguments more⟩
  | lastArgument _ ih =>
    obtain ⟨front, rfl, arg⟩ := ih
    exact ⟨front ++ [.closeParen], by simp, front, rfl, .lastArgument arg⟩
  | nextArgument _ _ ihArg ihMore =>
    obtain ⟨front, rfl, arg⟩ := ihArg
    obtain ⟨_, rfl, inner, rfl, more⟩ := ihMore
    exact ⟨front ++ .comma :: (inner ++ [.closeParen]), by simp, front ++ .comma :: inner, by simp,
      .nextArgument arg more⟩

/-! What is written is read -/

/-- No parenthesis opens behind an operand, lest it makes a call of it. -/
def Token.Apart (rest : List Token) : Prop := ∀ more, rest ≠ .openParen :: more

theorem Token.Closing.apart {rest : List Token} (closing : Token.Closing rest) : Token.Apart rest := by
  rintro more rfl
  exact closing

/-- What is written is read in front of whatever may follow it. -/
def Part.IsRead (ts : List Token) : Part → Prop
  | level e => ∀ rest, Token.Closing rest → Reads (.level e) (ts ++ rest) rest
  | links ls => ∀ rest, Token.Closing rest → Token.Apart (ts ++ rest) ∧ ∀ before : Chain,
      Reads (.chain before (before.folded (linksOf ls))) (ts ++ rest) rest
  | operand o => ∀ rest, Token.Apart rest → Reads (.operand o.toExpr) (ts ++ rest) rest
  | primary e => ∀ rest, Token.Apart rest → Reads (.primary e) (ts ++ rest) rest
  | arguments args => ∀ rest, Reads (.arguments args) (ts ++ .closeParen :: rest) rest
  | someArguments args => ∀ rest, Reads (.moreArguments args) (ts ++ .closeParen :: rest) rest

theorem Writes.isRead {p : Part} {ts : List Token} (writes : Writes p ts) : p.IsRead ts := by
  induction writes with
  | @level first links c ts ts' _ _ built ihHead ihBehind =>
    intro rest closing
    obtain ⟨apart, behind⟩ := ihBehind rest closing
    obtain rfl := Chain.built_iff.1 built
    rw [List.append_assoc]
    exact .level (ihHead _ apart) (behind _)
  | noLinks =>
    intro rest closing
    refine ⟨closing.apart, fun before => .chainEnd ?_⟩
    rintro op more rfl
    exact closing
  | link _ _ ihOperand ihBehind =>
    intro rest closing
    obtain ⟨apart, behind⟩ := ihBehind rest closing
    refine ⟨nofun, fun before => ?_⟩
    rw [List.cons_append, List.append_assoc]
    exact .chainMore (ihOperand _ apart) (behind _)
  | bare _ ih => exact fun rest apart => .bare (ih rest apart)
  | @sign op _ _ _ _ ih =>
    intro rest apart
    cases op with
    | negate => exact .negate (ih rest apart)
    | not => exact .not (ih rest apart)
  | number digits => exact fun rest _ => .number digits rest
  | text s => exact fun rest _ => .text s rest
  | loopIndex => exact fun rest _ => .loopIndex rest
  | word stands => exact fun rest apart => .word (fun more same => (apart more same).elim) stands
  | call letter _ ih =>
    intro rest _
    simpa using Reads.call letter (ih rest)
  | group _ ih =>
    intro rest _
    simpa using Reads.group (ih (.closeParen :: rest) trivial)
  | noArguments => exact fun rest => .noArguments rest
  | arguments _ ih => exact fun rest => .someArguments (ih rest)
  | lastArgument _ ih => exact fun rest => .lastArgument (ih (.closeParen :: rest) trivial)
  | nextArgument _ _ ihArg ihMore =>
    intro rest
    rw [List.append_assoc, List.cons_append]
    exact .nextArgument (ihArg _ trivial) (ihMore rest)

theorem reads_iff_writes {e : Expr} {ts : List Token} :
    Reads (.level e) ts [] ↔ Writes (.level e) ts := by
  constructor
  · intro reads
    obtain ⟨front, rfl, written⟩ := reads.written
    rwa [List.append_nil]
  · intro writes
    have reads := writes.isRead [] trivial
    rwa [List.append_nil] at reads

/-! Depth -/

def children : Expr → List Expr
  | unary _ arg => [arg]
  | binary left _ right => [left, right]
  | call _ args => args
  | number _ | text _ | boolean _ | null | loopIndex | reference _ => []

/-- A way down to a node without children, with the number of nodes on it. -/
inductive Path : Expr → Nat → Prop
  | last {e : Expr} (childless : e.children = []) : Path e 1
  | down {e child : Expr} {n : Nat} (below : child ∈ e.children) (further : Path child n) :
      Path e (n + 1)

theorem depth_le_depthAll {e : Expr} {es : List Expr} (member : e ∈ es) : e.depth ≤ depthAll es := by
  induction es with
  | nil => cases member
  | cons first es ih =>
    rw [depthAll]
    rcases List.mem_cons.1 member with rfl | member
    · exact Nat.le_max_left ..
    · exact Nat.le_trans (ih member) (Nat.le_max_right ..)

theorem depthAll_attained {es : List Expr} (some : es ≠ []) : ∃ e ∈ es, depthAll es = e.depth := by
  induction es with
  | nil => exact (some rfl).elim
  | cons first es ih =>
    rw [depthAll]
    by_cases none : es = []
    · subst none
      exact ⟨first, by simp, by simp [depthAll]⟩
    · obtain ⟨e, member, same⟩ := ih none
      rw [same]
      rcases Nat.le_total first.depth e.depth with le | le
      · exact ⟨e, by simp [member], Nat.max_eq_right le⟩
      · exact ⟨first, by simp, Nat.max_eq_left le⟩

theorem depth_eq (e : Expr) : e.depth = 1 + depthAll e.children := by
  cases e <;> simp [depth, depthAll, children]

theorem Path.le_depth {e : Expr} {n : Nat} (path : Path e n) : n ≤ e.depth := by
  induction path with
  | @last e childless => rw [depth_eq]; omega
  | @down e child n below _ ih =>
    have le := depth_le_depthAll below
    rw [depth_eq]
    omega

theorem path_depth (e : Expr) : Path e e.depth := by
  generalize depth : e.depth = n
  induction n generalizing e with
  | zero =>
    rw [depth_eq] at depth
    omega
  | succ n ih =>
    rw [depth_eq] at depth
    by_cases childless : e.children = []
    · obtain rfl : n = 0 := by
        rw [childless, depthAll] at depth
        omega
      exact .last childless
    · obtain ⟨child, below, same⟩ := depthAll_attained childless
      exact .down below (ih child (by omega))

/-- The depth is that of the longest way down. -/
theorem depth_isGreatest (e : Expr) : IsGreatest {n | Path e n} e.depth :=
  ⟨path_depth e, fun _ path => path.le_depth⟩

/-! Texts -/

/-- A text that is written as an expression with readable numbers. -/
def Denotes (s : String) (e : Expr) : Prop :=
  ∃ ts, Token.Spelled s.toList ts ∧ Writes (.level e) ts ∧ ts.any Token.isUnreadable = false

variable {s : String} {e e' : Expr}

theorem ofChars?_eq_some_iff_writes {ts : List Token} :
    ofChars? s.toList = some (e, ts) ↔ Token.Spelled s.toList ts ∧ Writes (.level e) ts := by
  rw [ofChars?_eq_some_iff, Token.ofChars?_eq_some_iff, reads_iff_writes]

theorem denotes_iff : Denotes s e ↔
    ∃ ts, ofChars? s.toList = some (e, ts) ∧ ts.any Token.isUnreadable = false := by
  simp only [Denotes, ofChars?_eq_some_iff_writes, and_assoc]

theorem Denotes.unique (denotes : Denotes s e) (denotes' : Denotes s e') : e = e' := by
  obtain ⟨ts, parsed, -⟩ := denotes_iff.1 denotes
  obtain ⟨ts', parsed', -⟩ := denotes_iff.1 denotes'
  cases parsed.symm.trans parsed'
  rfl

/-- What the reader makes of a text that denotes a tree. -/
theorem Denotes.read (denotes : Denotes s e) (maxDepth : Nat) :
    read maxDepth s = if e.depth > maxDepth then .error (.tooDeep e.depth maxDepth) else .ok e := by
  obtain ⟨ts, parsed, readable⟩ := denotes_iff.1 denotes
  simp only [Expr.read, parsed, readable, Bool.false_eq_true, if_false]

/-- What the reader makes of any other text. -/
theorem read_undenoted (undenoted : ¬∃ e, Denotes s e) (maxDepth : Nat) :
    read maxDepth s = .error .grammar ∨ read maxDepth s = .error .badNumber := by
  unfold read
  cases parsed : ofChars? s.toList with
  | none => exact .inl rfl
  | some found =>
    obtain ⟨e, ts⟩ := found
    cases readable : ts.any Token.isUnreadable with
    | true => exact .inr (by simp [readable])
    | false => exact (undenoted ⟨e, denotes_iff.2 ⟨ts, parsed, readable⟩⟩).elim

theorem denoted_of_read {outcome : Except ReadError Expr} {maxDepth : Nat}
    (done : read maxDepth s = outcome) (parsed : outcome ≠ .error .grammar)
    (readable : outcome ≠ .error .badNumber) : ∃ e, Denotes s e := by
  by_contra undenoted
  subst done
  exact (read_undenoted undenoted maxDepth).elim parsed readable

theorem read_ok_iff {maxDepth : Nat} :
    read maxDepth s = .ok e ↔ Denotes s e ∧ e.depth ≤ maxDepth := by
  constructor
  · intro done
    obtain ⟨e', denotes⟩ := denoted_of_read done nofun nofun
    rw [denotes.read] at done
    split at done
    · contradiction
    · next shallow =>
      cases done
      exact ⟨denotes, Nat.le_of_not_lt shallow⟩
  · rintro ⟨denotes, shallow⟩
    rw [denotes.read, if_neg (Nat.not_lt.2 shallow)]

theorem read_tooDeep_iff {maxDepth depth limit : Nat} :
    read maxDepth s = .error (.tooDeep depth limit) ↔
      limit = maxDepth ∧ maxDepth < depth ∧ ∃ e, Denotes s e ∧ e.depth = depth := by
  constructor
  · intro done
    obtain ⟨e, denotes⟩ := denoted_of_read done nofun nofun
    rw [denotes.read] at done
    split at done
    · next deep =>
      cases done
      exact ⟨rfl, deep, e, denotes, rfl⟩
    · contradiction
  · rintro ⟨rfl, deep, e, denotes, rfl⟩
    rw [denotes.read, if_pos deep]

/-- A text is read as the tree that the precedences of its operators declare, at each of its
levels, which is the one that climbing comes to. A tree is too deep exactly if the longest way
down has more nodes than allowed. -/
theorem read_follows_precedence (maxDepth : Nat) (s : String) :
    (∀ e, read maxDepth s = .ok e ↔ Denotes s e ∧ e.depth ≤ maxDepth) ∧
    (∀ depth limit, read maxDepth s = .error (.tooDeep depth limit) ↔
      limit = maxDepth ∧ maxDepth < depth ∧ ∃ e, Denotes s e ∧ e.depth = depth) ∧
    ((∃ e, Denotes s e) ↔ ∃! e, Denotes s e) ∧
    (∀ e : Expr, IsGreatest {n | Path e n} e.depth) ∧
    ∀ (first : Operand) (links : List (InfixOp × Operand)) (e : Expr),
      Climbs (.expression 0) (first.items ++ linkItems links) e [] ↔
        ∃ c, Chain.Built first.toExpr (linksOf links) c ∧ c.toExpr = e := by
  refine ⟨fun _ => read_ok_iff, fun _ _ => read_tooDeep_iff, ⟨?_, ?_⟩, depth_isGreatest,
    fun _ _ _ => climbs_iff⟩
  · rintro ⟨e, denotes⟩
    exact ⟨e, denotes, fun e' denotes' => denotes'.unique denotes⟩
  · rintro ⟨e, denotes, -⟩
    exact ⟨e, denotes⟩

end Expr

end Questionnaire
