import Questionnaire.Expr.Reader

/-! The tree of one level. Its root is the rightmost of the loosest infix operators, and both
sides are built by the same rule. The fold of the reader comes to that tree, and so does the
climbing of precedences with binding powers. -/
namespace Questionnaire

namespace Expr

/-- An infix operator with the operand behind it. -/
abbrev Link := InfixOp × Expr

namespace Chain

/-- The tree of a first operand and the links behind it, split at one operator after the other. -/
inductive Built : Expr → List Link → Chain → Prop
  | operand (e : Expr) : Built e [] (.operand e)
  | split {first middle : Expr} {before after : List Link} {op : InfixOp} {left right : Chain}
      (loosest : ∀ link ∈ before, op.tightness ≤ link.1.tightness)
      (rightmost : ∀ link ∈ after, op.tightness < link.1.tightness)
      (front : Built first before left) (back : Built middle after right) :
      Built first (before ++ (op, middle) :: after) (.node left op right)

variable {first : Expr} {links : List Link} {c c' : Chain}

/-- A level has one tree only. -/
theorem Built.unique (built : Built first links c) (built' : Built first links c') : c = c' := by
  induction built generalizing c' with
  | operand e =>
    generalize none : ([] : List Link) = links at built'
    cases built' with
    | operand => rfl
    | split => simp at none
  | @split first middle before after op left right loosest rightmost _ _ ihLeft ihRight =>
    generalize same : before ++ (op, middle) :: after = links at built'
    cases built' with
    | operand => simp at same
    | @split _ middle' before' after' op' left' right' loosest' rightmost' front back =>
      -- Of two operators that both are the root, neither can stand in front of the other.
      rcases List.append_eq_append_iff.1 same with ⟨between, rfl, tail⟩ | ⟨between, rfl, tail⟩
      · cases between with
        | nil =>
          cases tail
          rw [List.append_nil] at front
          rw [ihLeft front, ihRight back]
        | cons link between =>
          cases tail
          have le := loosest' (op, middle) (by simp)
          have lt := rightmost (op', middle') (by simp)
          exact absurd lt (Nat.not_lt.2 le)
      · cases between with
        | nil =>
          cases tail
          rw [ihRight back, ihLeft (by rwa [List.append_nil])]
        | cons link between =>
          cases tail
          have le := loosest (op', middle') (by simp)
          have lt := rightmost' (op, middle) (by simp)
          exact absurd lt (Nat.not_lt.2 le)

/-- The fold takes one more link in. -/
theorem Built.attach (built : Built first links c) (op : InfixOp) (operand : Expr) :
    Built first (links ++ [(op, operand)]) (c.attach op operand) := by
  induction built with
  | operand e =>
    have alone : Built e ([] ++ (op, operand) :: []) (.node (.operand e) op (.operand operand)) :=
      .split (by simp) (by simp) (.operand e) (.operand operand)
    exact alone
  | @split first middle before after op' left right loosest rightmost front back _ ih =>
    rw [Chain.attach]
    split
    · next tighter =>
      rw [List.append_assoc, List.cons_append]
      refine .split loosest ?_ front ih
      exact List.forall_mem_append.2 ⟨rightmost, List.forall_mem_singleton.2 tighter⟩
    · next looser =>
      have looser := Nat.le_of_not_lt looser
      refine .split ?_ (by simp) (.split loosest rightmost front back) (.operand operand)
      refine List.forall_mem_append.2 ⟨fun link member => ?_, List.forall_mem_cons.2 ⟨looser, ?_⟩⟩
      · exact Nat.le_trans looser (loosest link member)
      · exact fun link member => Nat.le_of_lt (Nat.lt_of_le_of_lt looser (rightmost link member))

/-- Links taken in from the left, as the reader takes them in. -/
def folded (c : Chain) (links : List Link) : Chain :=
  links.foldl (fun c link => c.attach link.1 link.2) c

theorem Built.folded {more : List Link} (built : Built first links c) :
    Built first (links ++ more) (c.folded more) := by
  induction more generalizing links c with
  | nil => rwa [List.append_nil]
  | cons link more ih => simpa [Chain.folded] using ih (built.attach link.1 link.2)

theorem built_iff : Built first links c ↔ c = (Chain.operand first).folded links := by
  have folded : Built first links ((Chain.operand first).folded links) := (Built.operand first).folded
  exact ⟨fun built => built.unique folded, fun same => same ▸ folded⟩

end Chain

end Expr

/-! Climbing -/

/-- The classes of infix operators bind the more the tighter they are. -/
def InfixOp.power (op : InfixOp) : Nat := op.tightness + 1

/-- Prefix operators bind more than all infix operators. -/
def PrefixOp.power : Nat := 7

theorem InfixOp.power_lt (op : InfixOp) : op.power < PrefixOp.power := by
  cases op <;> decide

namespace Expr

/-- What one level consists of. -/
inductive Item where
  | sign (op : PrefixOp)
  | primary (e : Expr)
  | infixOp (op : InfixOp)

/-- A primary behind prefix operators. -/
structure Operand where
  signs : List PrefixOp
  primary : Expr

namespace Operand

def items (o : Operand) : List Item := o.signs.map .sign ++ [.primary o.primary]

/-- Prefix operators apply to their own primary. -/
def toExpr (o : Operand) : Expr := o.signs.foldr .unary o.primary

end Operand

/-- The items of operands behind infix operators. -/
def linkItems (links : List (InfixOp × Operand)) : List Item :=
  links.flatMap fun (op, o) => .infixOp op :: o.items

/-- What climbing is about to do with the items ahead: to read an expression whose infix operators
bind more than a bound, to read what it begins with, or to go on behind what has been read. -/
inductive Climb where
  | expression (bound : Nat)
  | front
  | behind (bound : Nat) (left : Expr)

/-- Precedence climbing. The right side of an infix operator is an expression whose operators bind
more than it does, that of a prefix operator one whose operators bind at least as much. -/
inductive Climbs : Climb → List Item → Expr → List Item → Prop
  | expression {bound : Nat} {items mid rest : List Item} {left e : Expr}
      (front : Climbs .front items left mid) (further : Climbs (.behind bound left) mid e rest) :
      Climbs (.expression bound) items e rest
  | primary (e : Expr) (rest : List Item) : Climbs .front (.primary e :: rest) e rest
  | sign {op : PrefixOp} {items rest : List Item} {arg : Expr}
      (argument : Climbs (.expression (PrefixOp.power - 1)) items arg rest) :
      Climbs .front (.sign op :: items) (.unary op arg) rest
  | stop {bound : Nat} {left : Expr} {rest : List Item}
      (loose : ∀ op more, rest = .infixOp op :: more → op.power ≤ bound) :
      Climbs (.behind bound left) rest left rest
  | turn {bound : Nat} {left right e : Expr} {op : InfixOp} {items mid rest : List Item}
      (tight : bound < op.power) (side : Climbs (.expression op.power) items right mid)
      (further : Climbs (.behind bound (.binary left op right)) mid e rest) :
      Climbs (.behind bound left) (.infixOp op :: items) e rest

namespace Climbs
variable {p : Climb} {items rest rest' : List Item} {e e' : Expr}

/-- Climbing is determined at every point. -/
theorem unique (climbs : Climbs p items e rest) (climbs' : Climbs p items e' rest') :
    e = e' ∧ rest = rest' := by
  induction climbs generalizing e' rest' with
  | expression _ _ ihFront ihFurther =>
    cases climbs' with
    | expression front further =>
      obtain ⟨rfl, rfl⟩ := ihFront front
      exact ihFurther further
  | primary =>
    cases climbs'
    exact ⟨rfl, rfl⟩
  | sign _ ih =>
    cases climbs' with
    | sign argument =>
      obtain ⟨rfl, rfl⟩ := ih argument
      exact ⟨rfl, rfl⟩
  | stop loose =>
    cases climbs' with
    | stop => exact ⟨rfl, rfl⟩
    | turn tight => exact absurd tight (Nat.not_lt.2 (loose _ _ rfl))
  | turn tight _ _ ihSide ihFurther =>
    cases climbs' with
    | stop loose => exact absurd tight (Nat.not_lt.2 (loose _ _ rfl))
    | turn _ side further =>
      obtain ⟨rfl, rfl⟩ := ihSide side
      exact ihFurther further

theorem operand (o : Operand) (rest : List Item) : Climbs .front (o.items ++ rest) o.toExpr rest := by
  obtain ⟨signs, e⟩ := o
  induction signs with
  | nil => exact .primary e rest
  | cons op signs ih => 
    refine .sign (.expression ih (.stop fun op _ _ => ?_))
    exact Nat.le_pred_of_lt op.power_lt

end Climbs

/-- The links of a level, with what their operands stand for. -/
def linksOf (links : List (InfixOp × Operand)) : List Link :=
  links.map fun link => (link.1, link.2.toExpr)

/-- Climbing goes through the links of a level as their tree is built, if all of them bind more
than the bound and nothing behind them binds more than one of them. -/
theorem Chain.Built.climbs {first : Expr} {built : List Link} {c : Chain} (tree : Built first built c)
    {links : List (InfixOp × Operand)} (same : linksOf links = built) {bound : Nat}
    (tight : ∀ link ∈ links, bound < link.1.power) {items rest : List Item} {e : Expr}
    (loose : ∀ op more, items = .infixOp op :: more → ∀ link ∈ links, op.power ≤ link.1.power)
    (further : Climbs (.behind bound c.toExpr) items e rest) :
    Climbs (.behind bound first) (linkItems links ++ items) e rest := by
  induction tree generalizing links bound items rest e with
  | operand e =>
    obtain rfl := List.map_eq_nil_iff.1 same
    exact further
  | @split first middle before after op left right loosest rightmost _ _ ihLeft ihRight =>
    obtain ⟨front, tail, rfl, rfl, mapped⟩ := List.map_eq_append_iff.1 same
    obtain ⟨⟨op, o⟩, back, rfl, root, rfl⟩ := List.map_eq_cons_iff.1 mapped
    cases root
    have split : linkItems (front ++ (op, o) :: back) ++ items =
        linkItems front ++ .infixOp op :: (o.items ++ (linkItems back ++ items)) := by
      simp [linkItems]
    -- The right side ends in front of what follows the level, the left side at the root.
    have side : Climbs (.expression op.power) (o.items ++ (linkItems back ++ items)) right.toExpr
        items := by
      refine .expression (Climbs.operand o _) (ihRight rfl ?_ ?_ (.stop ?_))
      · intro link member
        exact Nat.succ_lt_succ (rightmost _ (List.mem_map_of_mem member))
      · intro op' more ahead link member
        exact loose op' more ahead link (by simp [member])
      · intro op' more ahead
        exact loose op' more ahead (op, o) (by simp)
    rw [split]
    refine ihLeft rfl ?_ ?_ (.turn (tight (op, o) (by simp)) side further)
    · intro link member
      exact tight link (by simp [member])
    · intro op' more ahead link member
      cases ahead
      exact Nat.succ_le_succ (loosest _ (List.mem_map_of_mem member))

/-- On a level of its own, climbing comes to the tree that is split at the rightmost of the
loosest operators. -/
theorem climbs_iff {first : Operand} {links : List (InfixOp × Operand)} {e : Expr} :
    Climbs (.expression 0) (first.items ++ linkItems links) e [] ↔
      ∃ c, Chain.Built first.toExpr (linksOf links) c ∧ c.toExpr = e := by
  have climbs {c : Chain} (built : Chain.Built first.toExpr (linksOf links) c) :
      Climbs (.expression 0) (first.items ++ linkItems links) c.toExpr [] := by
    have behind : Climbs (.behind 0 first.toExpr) (linkItems links ++ []) c.toExpr [] :=
      built.climbs rfl (fun link _ => Nat.succ_pos _) nofun (.stop nofun)
    rw [List.append_nil] at behind
    exact .expression (Climbs.operand first _) behind
  constructor
  · intro climbed
    have built := Chain.built_iff.2 (rfl : (Chain.operand first.toExpr).folded (linksOf links) = _)
    exact ⟨_, built, ((climbs built).unique climbed).1⟩
  · rintro ⟨c, built, rfl⟩
    exact climbs built

end Expr

end Questionnaire
