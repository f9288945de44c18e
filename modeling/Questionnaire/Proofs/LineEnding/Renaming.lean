import Questionnaire.Proofs.Definition.Regions
import Questionnaire.Proofs.Definition.Renaming
import Questionnaire.Proofs.LineEnding.Pieces

/-! Renaming in texts that differ in carriage returns in front of line feeds. Names of one line are
replaced line by line, and a piece of code is the same in both texts unless it reaches to the end
of its line, where the return is no part of a name. -/
namespace Questionnaire.Definition

open Text

/-- A function of texts that goes from line end to line end and brings in no returns. -/
structure ByLine (f : List Char → List Char) : Prop where
  nil : f [] = []
  line : ∀ x t c, isNewline c = true → f (x ++ c :: t) = f x ++ c :: f t
  plain : ∀ x, '\r' ∉ x → '\r' ∉ f x

namespace ByLine
variable {f g : List Char → List Char} {l d : List Char}

theorem id : ByLine fun cs => cs := ⟨rfl, fun _ _ _ _ => rfl, fun _ plain => plain⟩

theorem comp (outer : ByLine g) (inner : ByLine f) : ByLine fun cs => g (f cs) where
  nil := by rw [inner.nil, outer.nil]
  line x t c newline := by rw [inner.line x t c newline, outer.line _ _ c newline]
  plain x plain := outer.plain _ (inner.plain x plain)

theorem foldl {α : Type} {step : α → List Char → List Char} (items : List α)
    (each : ∀ a ∈ items, ByLine (step a)) :
    ByLine fun cs => items.foldl (fun cs a => step a cs) cs := by
  induction items with
  | nil => exact .id
  | cons a items ih =>
    obtain ⟨first, more⟩ := List.forall_mem_cons.1 each
    exact (ih more).comp first

theorem returns (byLine : ByLine f) (related : Returns l d) : Returns (f l) (f d) := by
  induction size : l.length using Nat.strongRecOn generalizing l d with
  | _ n ih =>
    subst size
    obtain ⟨x, t, u, rfl, rfl, oneLine, rest, ends, -⟩ := related.line
    have kept : Returns (f x) (f x) := .refl (byLine.plain x fun member => by
      cases oneLine _ member)
    have shorter {t : List Char} : t.length < (x ++ '\n' :: t).length := by
      rw [List.length_append, List.length_cons]
      omega
    cases rest with
    | nil => rwa [List.append_nil]
    | @same c t u plain rest =>
      obtain rfl := (isNewline_cases (ends c rfl)).resolve_right plain
      rw [byLine.line x t _ rfl, byLine.line x u _ rfl]
      exact kept.append (.same plain (ih t.length shorter rest rfl))
    | @feed t u rest =>
      have behind : f ('\n' :: u) = '\n' :: f u := by
        have line := byLine.line [] u '\n' rfl
        rwa [byLine.nil] at line
      rw [byLine.line x t _ rfl, byLine.line x ('\n' :: u) _ rfl, behind]
      exact kept.append (.feed (ih t.length shorter rest rfl))

end ByLine

/-! ### Literals and names -/

section Literal
variable {a c : Char} {literal replacement cs : List Char}

theorem replaceLiteral_miss (missed : stripLeading? (a :: literal) (c :: cs) = none) :
    replaceLiteral.go (a :: literal) replacement 0 (c :: cs) =
      c :: replaceLiteral.go (a :: literal) replacement 0 cs := by
  rw [replaceLiteral.go, missed]

theorem replaceLiteral_hit {rest : List Char}
    (found : stripLeading? (a :: literal) (c :: cs) = some rest) :
    replaceLiteral.go (a :: literal) replacement 0 (c :: cs) =
      replacement ++ replaceLiteral.go (a :: literal) replacement literal.length cs := by
  rw [replaceLiteral.go, found]

theorem mem_replaceLiteral {x : Char} (pending : Nat)
    (member : x ∈ replaceLiteral.go (a :: literal) replacement pending cs) :
    x ∈ cs ∨ x ∈ replacement := by
  induction cs generalizing pending with
  | nil => cases pending <;> cases member
  | cons c cs ih =>
    have later {pending : Nat}
        (inside : x ∈ replaceLiteral.go (a :: literal) replacement pending cs) :
        x ∈ c :: cs ∨ x ∈ replacement := (ih pending inside).imp_left (List.mem_cons_of_mem c)
    cases pending with
    | succ pending => exact later member
    | zero =>
      cases found : stripLeading? (a :: literal) (c :: cs) with
      | some rest =>
        rw [replaceLiteral_hit found] at member
        exact (List.mem_append.1 member).elim .inr later
      | none =>
        rw [replaceLiteral_miss found] at member
        rcases List.mem_cons.1 member with rfl | inside
        · exact .inl List.mem_cons_self
        · exact later inside

/-- A literal within one line is replaced line by line. -/
theorem replaceLiteral_byLine (oneLine : OneLine (a :: literal)) (plain : '\r' ∉ replacement) :
    ByLine (replaceLiteral (a :: literal) replacement) where
  nil := rfl
  plain x none member := (mem_replaceLiteral 0 member).elim none plain
  line x t c newline := by
    have ends : LineEnd (c :: t) := lineEnd_cons newline t
    have missed : stripLeading? (a :: literal) (c :: t) = none :=
      stripLeading?_lineEnd ends oneLine []
    have line (pending : Nat) (within : pending ≤ x.length) :
        replaceLiteral.go (a :: literal) replacement pending (x ++ c :: t) =
          replaceLiteral.go (a :: literal) replacement pending x ++
            c :: replaceLiteral (a :: literal) replacement t := by
      induction x generalizing pending with
      | nil =>
        obtain rfl := Nat.le_zero.1 within
        exact replaceLiteral_miss missed
      | cons b x ih =>
        cases pending with
        | succ pending => exact ih pending (Nat.le_of_succ_le_succ within)
        | zero =>
          have whole := stripLeading?_lineEnd ends oneLine (b :: x)
          cases found : stripLeading? (a :: literal) (b :: x) with
          | none =>
            rw [found, List.cons_append] at whole
            rw [replaceLiteral_miss found, List.cons_append, replaceLiteral_miss whole,
              ih 0 (Nat.zero_le _)]
            rfl
          | some rest =>
            rw [found, List.cons_append] at whole
            have length := congrArg List.length (stripLeading?_eq_some_iff.1 found)
            simp only [List.length_append, List.length_cons] at length
            rw [replaceLiteral_hit found, List.cons_append, replaceLiteral_hit whole,
              ih literal.length (by omega), List.append_assoc]
    exact line 0 (Nat.zero_le _)

end Literal

theorem any_lineEnd {t : List Char} (ends : LineEnd t) : t.head?.any isWord = false := by
  cases t with
  | nil => rfl
  | cons c t => exact isWord_newline (ends c rfl)

theorem nameAhead_lineEnd {name t : List Char} (ends : LineEnd t) (oneLine : OneLine name)
    (before : Option Char) (c : Char) (cs : List Char) :
    nameAhead name before (c :: cs ++ t) = nameAhead name before (c :: cs) := by
  rw [nameAhead, nameAhead, stripLeading?_lineEnd ends oneLine]
  cases stripLeading? name (c :: cs) with
  | none => rfl
  | some rest =>
    cases rest with
    | cons d rest => rfl
    | nil =>
      have behind : isWordBoundary name.getLast? t.head? = isWordBoundary name.getLast? none := by
        rw [isWordBoundary, isWordBoundary, any_lineEnd ends]
        rfl
      simp only [Option.map_some, List.nil_append, List.head?_nil, behind]
      rfl

section Name
variable {name replacement cs : List Char} {c : Char} {before : Option Char}

theorem renameWord_miss (missed : nameAhead name before (c :: cs) = false) :
    renameWord.go name replacement before 0 (c :: cs) =
      c :: renameWord.go name replacement (some c) 0 cs := by
  rw [renameWord.go, missed]
  rfl

theorem renameWord_hit (ahead : nameAhead name before (c :: cs) = true) :
    renameWord.go name replacement before 0 (c :: cs) =
      replacement ++ renameWord.go name replacement (some c) (name.length - 1) cs := by
  rw [renameWord.go, ahead]
  rfl

theorem mem_renameWord {x : Char} (pending : Nat)
    (member : x ∈ renameWord.go name replacement before pending cs) :
    x ∈ cs ∨ x ∈ replacement := by
  induction cs generalizing before pending with
  | nil => cases pending <;> cases member
  | cons c cs ih =>
    have later {before : Option Char} {pending : Nat}
        (inside : x ∈ renameWord.go name replacement before pending cs) :
        x ∈ c :: cs ∨ x ∈ replacement := (ih pending inside).imp_left (List.mem_cons_of_mem c)
    cases pending with
    | succ pending => exact later member
    | zero =>
      cases ahead : nameAhead name before (c :: cs) with
      | true =>
        rw [renameWord_hit ahead] at member
        exact (List.mem_append.1 member).elim .inr later
      | false =>
        rw [renameWord_miss ahead] at member
        rcases List.mem_cons.1 member with rfl | inside
        · exact .inl List.mem_cons_self
        · exact later inside

theorem renameWord_start (other : before.any isWord = false) (cs : List Char) :
    renameWord.go name replacement before 0 cs = renameWord name replacement cs := by
  have start (cs : List Char) : nameAhead name before cs = nameAhead name none cs := by
    rw [nameAhead, nameAhead]
    cases stripLeading? name cs with
    | none => rfl
    | some rest => simp only [isWordBoundary, other, Option.any_none]
  cases cs with
  | nil => rfl
  | cons c cs => rw [renameWord, renameWord.go, renameWord.go, start]

theorem nameAhead_length (ahead : nameAhead name before cs = true) : name.length ≤ cs.length := by
  rw [nameAhead] at ahead
  split at ahead
  · next rest found =>
    have length := congrArg List.length (stripLeading?_eq_some_iff.1 found)
    rw [List.length_append] at length
    omega
  · cases ahead

/-- A name within one line is replaced line by line. -/
theorem renameWord_byLine (oneLine : OneLine name) (named : name ≠ [])
    (plain : '\r' ∉ replacement) :
    ByLine (renameWord name replacement) where
  nil := rfl
  plain x none member := (mem_renameWord 0 member).elim none plain
  line x t c newline := by
    have ends : LineEnd (c :: t) := lineEnd_cons newline t
    have missed (before : Option Char) : nameAhead name before (c :: t) = false := by
      have nothing := stripLeading?_lineEnd ends oneLine []
      cases name with
      | nil => exact absurd rfl named
      | cons a name =>
        have none : stripLeading? (a :: name) (c :: t) = none := nothing
        rw [nameAhead, none]
    have line (before : Option Char) (pending : Nat) (within : pending ≤ x.length) :
        renameWord.go name replacement before pending (x ++ c :: t) =
          renameWord.go name replacement before pending x ++
            c :: renameWord name replacement t := by
      induction x generalizing before pending with
      | nil =>
        obtain rfl := Nat.le_zero.1 within
        have other : (some c).any isWord = false := isWord_newline newline
        rw [List.nil_append, renameWord_miss (missed before), renameWord_start other]
        rfl
      | cons b x ih =>
        cases pending with
        | succ pending => exact ih _ pending (Nat.le_of_succ_le_succ within)
        | zero =>
          have whole := nameAhead_lineEnd ends oneLine before b x
          cases ahead : nameAhead name before (b :: x) with
          | true =>
            rw [ahead, List.cons_append] at whole
            have length := nameAhead_length ahead
            rw [List.length_cons] at length
            rw [renameWord_hit ahead, List.cons_append, renameWord_hit whole,
              ih _ _ (by omega), List.append_assoc]
          | false =>
            rw [ahead, List.cons_append] at whole
            rw [renameWord_miss ahead, List.cons_append, renameWord_miss whole,
              ih _ 0 (Nat.zero_le _)]
            rfl
    exact line none 0 (Nat.zero_le _)

end Name

theorem mem_expandTemplate {whole template : List Char} {c : Char}
    (member : c ∈ expandTemplate whole template) : c ∈ whole ∨ c ∈ template := by
  have group {name : List Char} (inside : c ∈ expandTemplate.group whole name) : c ∈ whole := by
    rw [expandTemplate.group] at inside
    split at inside
    · exact inside
    · cases inside
  have go (cs : List Char) (fuel : Nat) (inside : c ∈ expandTemplate.go whole cs fuel) :
      c ∈ whole ∨ c ∈ cs := by
    fun_induction expandTemplate.go whole cs fuel with
    | case1 => exact .inr inside
    | case2 => cases inside
    | case3 cs fuel ih =>
      rcases List.mem_cons.1 inside with rfl | later
      · exact .inr List.mem_cons_self
      · exact (ih later).imp_right fun behind =>
          List.mem_cons_of_mem _ (List.mem_cons_of_mem _ behind)
    | case4 cs fuel name rest cut ih =>
      rcases List.mem_append.1 inside with here | later
      · exact .inl (group here)
      · obtain ⟨close, -, rfl, -⟩ := cutAtChars?_eq_some cut
        exact (ih later).imp_right fun behind => by simp [behind]
    | case5 cs fuel cut ih =>
      simp only [List.mem_cons] at inside ⊢
      rcases inside with here | here | later
      · exact .inr (.inl here)
      · exact .inr (.inr (.inl here))
      · exact (ih later).imp_right fun behind => .inr (.inr behind)
    | case6 cs fuel _ _ name rest _ _ ih =>
      rcases List.mem_cons.1 inside with rfl | later
      · exact .inr List.mem_cons_self
      · exact (ih later).imp_right (List.mem_cons_of_mem _)
    | case7 cs fuel _ _ name rest run _ ih =>
      rcases List.mem_append.1 inside with here | later
      · exact .inl (group here)
      · have within : rest ⊆ cs := by
          rw [← (Prod.mk.inj run).2]
          exact (List.dropWhile_sublist _).subset
        exact (ih later).imp_right fun behind => List.mem_cons_of_mem _ (within behind)
    | case8 a cs fuel _ _ _ ih =>
      rcases List.mem_cons.1 inside with rfl | later
      · exact .inr List.mem_cons_self
      · exact (ih later).imp_right (List.mem_cons_of_mem _)
  exact go _ _ member

/-- Names that are written within one line. -/
def NamesInLine (names : List String) : Prop :=
  ∀ name ∈ names, name.toList ≠ [] ∧ OneLine name.toList

theorem renameAll_byLine {names : List String} (inLine : NamesInLine names) (iteration : Nat) :
    ByLine (renameAll names iteration) := by
  refine .foldl names fun name member => ?_
  obtain ⟨some, oneLine⟩ := inLine name member
  have plain {cs : List Char} (oneLine : OneLine cs) : '\r' ∉ cs := fun member => by
    cases oneLine _ member
  refine renameWord_byLine oneLine some fun member => ?_
  rcases mem_expandTemplate member with within | within
  · exact plain oneLine within
  · rw [iterationId, String.toList_append, List.mem_append] at within
    rcases within with within | within
    · exact plain oneLine within
    · cases iterationSuffix_chars iteration _ within

/-! ### Grid blocks and code -/

namespace Returns
variable {rename : List Char → List Char} {l d : List Char}

theorem renameRow (byLine : ByLine rename) (returns : Returns l d) :
    Returns (Definition.renameRow rename l) (Definition.renameRow rename d) := by
  have cut := returns.cutAtChars? (p := (· == '=')) rfl rfl
  rw [Definition.renameRow, Definition.renameRow]
  generalize Text.cutAtChars? (· == '=') l = a, Text.cutAtChars? (· == '=') d = b at cut ⊢
  cases cut with
  | none => exact returns
  | some related => exact (byLine.returns related.1).append (.same (by decide) related.2)

theorem intercalate {ls ds : List (List Char)} (related : List.Forall₂ Returns ls ds) :
    Returns ([';'].intercalate ls) ([';'].intercalate ds) := by
  induction related with
  | nil => exact .nil
  | cons first more ih =>
    cases more with
    | nil => simpa using first
    | cons second more =>
      rw [List.intercalate_cons_cons, List.intercalate_cons_cons]
      exact (first.append (.same (by decide) .nil)).append ih

theorem renameRows (byLine : ByLine rename) (returns : Returns l d) :
    Returns (Definition.renameRows rename l) (Definition.renameRows rename d) := by
  have rows := returns.splitChars (p := (· == ';')) rfl rfl
  refine intercalate (List.forall₂_map_left_iff.2 (List.forall₂_map_right_iff.2 ?_))
  exact rows.imp fun _ _ => Returns.renameRow byLine

theorem bar (first : Returns l d) {m n : List Char} (rest : Returns m n) :
    Returns (l ++ '|' :: m) (d ++ '|' :: n) := first.append (.same (by decide) rest)

theorem renameGrid (byLine : ByLine rename) {b c : GridBlock} (shape : b.WellFormed)
    (alike : b.Alike c) : Returns (b.rename rename).toChars (c.rename rename).toChars := by
  have blank {cs : List Char} (blanks : Blanks cs) : Returns cs cs :=
    .refl fun member => by cases blanks.oneLine _ member
  have id : Returns b.id b.id := by
    refine .refl fun member => ?_
    cases shape.id.chars '\r' (by simpa using member)
  have keyword : Returns GridBlock.keyword GridBlock.keyword := .refl (by decide)
  simp only [GridBlock.rename, GridBlock.toChars, alike.indent, alike.gap, alike.id,
    List.append_assoc, List.cons_append]
  refine (blank shape.indent).append (keyword.append ((blank shape.gap).append ?_))
  refine (byLine.returns id).bar ((byLine.returns alike.args).bar (alike.shared.bar ?_))
  exact (alike.rows.renameRows byLine).bar (alike.columns.bar .nil)

theorem renameInGrids (byLine : ByLine rename) (returns : Returns l d) :
    Returns (Definition.renameInGrids rename l) (Definition.renameInGrids rename d) := by
  rw [Definition.renameInGrids, Definition.renameInGrids]
  have related := returns.pieces
  generalize Definition.pieces l = left, Definition.pieces d = right at related ⊢
  induction related with
  | nil => exact .nil
  | cons first _ ih =>
    rw [List.flatMap_cons, List.flatMap_cons]
    cases first with
    | plain returns => exact returns.append ih
    | grid shape alike => exact (renameGrid byLine shape alike).append ih

end Returns

/-- What is read as code. The code of an arrow takes in the return at the end of its line. -/
inductive CodeAlike : Option (List Char × List Char) → Option (List Char × List Char) → Prop
  | none : CodeAlike none none
  | same {code l d : List Char} (rest : Returns l d) : CodeAlike (some (code, l)) (some (code, d))
  | returned {code l d : List Char} (rest : Returns l d) :
      CodeAlike (some (code, '\n' :: l)) (some (code ++ ['\r'], '\n' :: d))

namespace Returns
variable {rename : List Char → List Char} {l d : List Char}

/-- What ends at a closing character of its line. -/
theorem closed (returns : Returns l d) {p : Char → Bool} {close : Char} (feed : p '\n' = false)
    (back : p '\r' = true) (plain : isNewline close = false) :
    Text.stripLeading? [close] (l.dropWhile p) = none ∧
        Text.stripLeading? [close] (d.dropWhile p) = none ∨
      l.takeWhile p = d.takeWhile p ∧ ∃ t u, Text.stripLeading? [close] (l.dropWhile p) = some t ∧
        Text.stripLeading? [close] (d.dropWhile p) = some u ∧ Returns t u := by
  rcases returns.takeRun_feed feed back with ⟨taken, left⟩ | ⟨run, t, u, left, right, -⟩
  · have read := Returns.stripLeading? left (oneLine_single plain)
    change Option.Rel Returns (Text.stripLeading? [close] (l.dropWhile p))
      (Text.stripLeading? [close] (d.dropWhile p)) at read
    generalize Text.stripLeading? [close] (l.dropWhile p) = a,
      Text.stripLeading? [close] (d.dropWhile p) = b at read ⊢
    cases read with
    | none => exact .inl ⟨rfl, rfl⟩
    | some rest => exact .inr ⟨taken, _, _, rfl, rfl, rest⟩
  · have missed (cs : List Char) : Text.stripLeading? [close] ('\n' :: cs) = none := by
      rw [Text.stripLeading?, if_neg]
      intro same
      rw [eq_of_beq same] at plain
      cases plain
    refine .inl ⟨?_, ?_⟩
    · rw [(Prod.mk.inj left).2, missed]
    · rw [(Prod.mk.inj right).2, missed]

theorem takeHeader? (returns : Returns l d) :
    CodeAlike (Definition.takeHeader? l) (Definition.takeHeader? d) := by
  obtain ⟨blanks, rest⟩ := returns.takeRun (p := isLineBlank) rfl rfl
  have opened := rest.stripLeading? (oneLine_single (show isNewline '[' = false from rfl))
  change l.takeWhile isLineBlank = d.takeWhile isLineBlank at blanks
  change Option.Rel Returns (Text.stripLeading? ['['] (l.dropWhile isLineBlank))
    (Text.stripLeading? ['['] (d.dropWhile isLineBlank)) at opened
  rw [Definition.takeHeader?, Definition.takeHeader?]
  simp only [Text.takeRun, ← blanks]
  generalize Text.stripLeading? ['['] (l.dropWhile isLineBlank) = a,
    Text.stripLeading? ['['] (d.dropWhile isLineBlank) = b at opened ⊢
  cases opened with
  | none => exact .none
  | @some r s inner =>
    rcases inner.closed (p := fun c => c != ']' && c != '\n') rfl rfl
        (show isNewline ']' = false from rfl) with
      ⟨left, right⟩ | ⟨taken, t, u, left, right, behind⟩
    · simp only [Option.bind_eq_bind, Option.bind_some, left, right]
      exact .none
    · simp only [Option.bind_eq_bind, Option.bind_some, left, right, taken]
      exact .same behind

theorem takeBraces? (returns : Returns l d) :
    CodeAlike (Definition.takeBraces? l) (Definition.takeBraces? d) := by
  have opened := returns.stripLeading? (oneLine_single (show isNewline '{' = false from rfl))
  rw [Definition.takeBraces?, Definition.takeBraces?]
  simp only [Text.takeRun]
  generalize Text.stripLeading? ['{'] l = a, Text.stripLeading? ['{'] d = b at opened ⊢
  cases opened with
  | none => exact .none
  | @some r s inner =>
    rcases inner.closed (p := fun c => c != '}' && c != '\n') rfl rfl
        (show isNewline '}' = false from rfl) with
      ⟨left, right⟩ | ⟨taken, t, u, left, right, behind⟩
    · simp only [Option.bind_eq_bind, Option.bind_some, left, right]
      exact .none
    · simp only [Option.bind_eq_bind, Option.bind_some, left, right, taken]
      exact .same behind

theorem takeArrow? (returns : Returns l d) :
    CodeAlike (Definition.takeArrow? l) (Definition.takeArrow? d) := by
  have opened := returns.stripLeading? (show OneLine ['-', '>'] by decide)
  rw [Definition.takeArrow?, Definition.takeArrow?]
  generalize Text.stripLeading? ['-', '>'] l = a, Text.stripLeading? ['-', '>'] d = b at opened ⊢
  cases opened with
  | none => exact .none
  | @some r s inner =>
    rcases inner.takeRun_feed (p := (· != '\n')) rfl rfl with
      ⟨taken, rest⟩ | ⟨run, t, u, left, right, behind⟩
    · simp only [Option.bind_eq_bind, Option.bind_some, taken]
      exact .same rest
    · simp only [Option.bind_eq_bind, Option.bind_some, left, right]
      exact .returned behind

theorem takeCode? (returns : Returns l d) (lineStart : Bool) :
    CodeAlike (Definition.takeCode? lineStart l) (Definition.takeCode? lineStart d) := by
  have or {a b a' b' : Option (List Char × List Char)} (first : CodeAlike a b)
      (second : CodeAlike a' b') : CodeAlike (a.or a') (b.or b') := by
    cases first with
    | none => exact second
    | same rest => exact .same rest
    | returned rest => exact .returned rest
  refine or ?_ (or returns.takeArrow? returns.takeBraces?)
  cases lineStart with
  | true => exact returns.takeHeader?
  | false => exact .none

theorem takeCode?_feed (lineStart : Bool) (cs : List Char) :
    Definition.takeCode? lineStart ('\n' :: cs) = none := by
  cases lineStart <;> rfl

theorem renameInCode (byLine : ByLine rename) (returns : Returns l d) :
    Returns (Definition.renameInCode rename l) (Definition.renameInCode rename d) := by
  have go (lineStart : Bool) : Returns (renameInCode.go rename lineStart 0 l)
      (renameInCode.go rename lineStart 0 d) := by
    induction size : l.length using Nat.strongRecOn generalizing l d lineStart with
    | _ n ih =>
      subst size
      have code := returns.takeCode? lineStart
      have plain := returns.plain
      cases left : Definition.takeCode? lineStart l with
      | some read =>
        obtain ⟨taken, t⟩ := read
        obtain ⟨rfl, region⟩ := takeCode?_eq_some_iff.1 left
        have kept : Returns (rename taken) (rename taken) :=
          .refl (byLine.plain _ fun member => plain (List.mem_append_left _ member))
        have shorter := List.length_pos_iff.2 region.some
        rw [left] at code
        cases right : Definition.takeCode? lineStart d with
        | none => rw [right] at code; cases code
        | some read =>
          obtain ⟨taken', u⟩ := read
          obtain ⟨rfl, region'⟩ := takeCode?_eq_some_iff.1 right
          rw [right] at code
          rw [renameInCode_region rename region, renameInCode_region rename region']
          cases code with
          | same rest =>
            have further := ih t.length (by rw [List.length_append]; omega) rest false rfl
            exact kept.append further
          | @returned _ t u rest =>
            have further := ih t.length (by rw [List.length_append, List.length_cons]; omega) rest
              true rfl
            have carriage : rename (taken ++ ['\r']) = rename taken ++ ['\r'] := by
              rw [byLine.line taken [] '\r' rfl, byLine.nil]
            rw [carriage, List.append_assoc, renameInCode_other rename (takeCode?_feed false t),
              renameInCode_other rename (takeCode?_feed false u)]
            exact kept.append (.feed further)
      | none =>
        rw [left] at code
        cases right : Definition.takeCode? lineStart d with
        | some => rw [right] at code; cases code
        | none =>
          cases returns with
          | nil => exact .nil
          | @same c l d other rest =>
            rw [renameInCode_other rename left, renameInCode_other rename right]
            exact .same other (ih l.length (Nat.lt_succ_self _) rest _ rfl)
          | @feed l d rest =>
            rw [renameInCode_other rename left, renameInCode_other rename right,
              renameInCode_other rename (takeCode?_feed _ d)]
            exact .feed (ih l.length (Nat.lt_succ_self _) rest _ rfl)
  exact go true

end Returns

end Questionnaire.Definition
