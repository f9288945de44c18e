import Mathlib
import Questionnaire.Proofs.Definition.Regions
import Questionnaire.Proofs.Definition.Unrolled

/-! Conditions in the copies of a loop body. Renaming the declared identifiers touches whole
words only. An expression that stands in code is renamed as a whole, so that it reads as its
tree with the identifiers of its references in the form of the iteration. -/
namespace Questionnaire

namespace Text
variable {f : List Char → List Char} {cs ds after es : List Char} {c : Char}

theorem intercalate_splitChars (c : Char) (cs : List Char) :
    [c].intercalate (splitChars (· == c) cs) = cs := by
  induction cs with
  | nil => rfl
  | cons d cs ih =>
    unfold splitChars
    cases split : splitChars (· == c) cs with
    | nil =>
      rw [split] at ih
      subst ih
      cases split
    | cons piece pieces =>
      rw [split] at ih
      by_cases same : d = c
      · rw [if_pos (beq_iff_eq.2 same), List.intercalate_cons_cons, ih, same]
        rfl
      · rw [if_neg (mt beq_iff_eq.1 same)]
        cases pieces with
        | nil => simpa [List.intercalate] using ih
        | cons second more =>
          rw [List.intercalate_cons_cons] at ih ⊢
          rw [List.cons_append, List.cons_append, ih]

theorem Rewords.around (first : Rewords f cs ds) (other : isWord c = false)
    (second : Rewords f after es) : Rewords f (cs ++ c :: after) (ds ++ c :: es) :=
  first.append (.inr other) (.other other second)

theorem Rewords.intercalate {g : List Char → List Char} (other : isWord c = false)
    (each : ∀ cs, Rewords f cs (g cs)) (parts : List (List Char)) :
    Rewords f ([c].intercalate parts) ([c].intercalate (parts.map g)) := by
  induction parts with
  | nil => exact .nil
  | cons first parts ih =>
    cases parts with
    | nil => simpa [List.intercalate] using each first
    | cons second more =>
      rw [List.map_cons, List.map_cons, List.intercalate_cons_cons, List.intercalate_cons_cons,
        List.append_assoc, List.append_assoc]
      exact (each first).around other ih

theorem Rewords.getLast?_any {p : Char → Bool} {b : Bool} (rewords : Rewords f cs ds)
    (settles : Settles f) (words : ∀ c, isWord c = true → p c = b) :
    ds.getLast?.any p = cs.getLast?.any p := by
  have last (cs : List Char) : cs.getLast?.any p = cs.foldl (fun _ c => p c) false := by
    induction cs using List.reverseRecOn with
    | nil => rfl
    | append_singleton cs c => rw [List.getLast?_concat, List.foldl_concat]; rfl
  rw [last, last]
  exact rewords.foldl settles (fun _ => b) (fun _ => words) (fun _ => rfl) false

theorem Rewords.getLast? (rewords : Rewords f cs ds) (settles : Settles f) :
    ds.getLast?.any isWord = cs.getLast?.any isWord :=
  rewords.getLast?_any settles fun _ word => word

theorem Apart.rewords (apart : Apart cs after) (settles : Settles f) (first : Rewords f cs ds)
    (second : Rewords f after es) : Apart ds es :=
  apart.imp (fun last => (first.getLast? settles).trans last) (second.ends settles).2

end Text

namespace Definition

open Text

section Grid
variable {f : List Char → List Char} {cs e : List Char} {b : GridBlock}

theorem renameRow_rewords (f : List Char → List Char) (row : List Char) :
    Rewords f row (renameRow (mapWords f) row) := by
  unfold renameRow
  cases cut : cutAtChars? (· == '=') row with
  | none => exact .refl row
  | some parts =>
    obtain ⟨c, equals, rfl, -⟩ := cutAtChars?_eq_some cut
    rw [beq_iff_eq.1 equals]
    exact (Rewords.mapWords parts.1).around rfl (.refl parts.2)

theorem renameRows_rewords (f : List Char → List Char) (rows : List Char) :
    Rewords f rows (renameRows (mapWords f) rows) := by
  have joined := Rewords.intercalate (c := ';') rfl (renameRow_rewords f)
    (splitChars (· == ';') rows)
  rwa [intercalate_splitChars] at joined

/-- A grid block up to its arguments. -/
def GridBlock.front (b : GridBlock) : List Char :=
  b.indent ++ GridBlock.keyword ++ b.gap ++ b.id

/-- A grid block behind its arguments. -/
def GridBlock.back (b : GridBlock) : List Char :=
  '|' :: b.shared ++ '|' :: b.rows ++ '|' :: b.columns ++ ['|']

theorem GridBlock.toChars_eq (b : GridBlock) :
    b.toChars = b.front ++ '|' :: (b.args ++ b.back) := by
  simp [toChars, front, back]

theorem GridBlock.front_rewords (shape : b.WellFormed) (f : List Char → List Char) :
    Rewords f b.front (b.rename (mapWords f)).front := by
  refine (Rewords.refl _).append ?_ (.mapWords b.id)
  refine .inl ?_
  obtain ⟨gap, last, same⟩ := (List.eq_nil_or_concat' b.gap).resolve_left shape.gap_some
  rw [same, ← List.append_assoc, List.getLast?_concat]
  exact Region.isWord_of_isLineBlank (shape.gap last (by simp [same]))

theorem GridBlock.back_rewords (f : List Char → List Char) (b : GridBlock) :
    Rewords f b.back (b.rename (mapWords f)).back := by
  have rows := (renameRows_rewords f b.rows).around (c := '|') rfl (.refl (b.columns ++ ['|']))
  have shared := (Rewords.refl (f := f) b.shared).around (c := '|') rfl rows
  have bar := Rewords.other (c := '|') rfl shared
  simpa [back, rename] using bar

/-- A part of the arguments of a grid is renamed as a whole. -/
theorem GridBlock.renamed_argument {front after : List Char} (f : List Char → List Char)
    (args : b.args = front ++ (e ++ after)) (left : Apart front (e ++ after))
    (right : Apart e after) : (b.rename (mapWords f)).toChars =
      (b.rename (mapWords f)).front ++ '|' :: mapWords f front ++
        (mapWords f e ++ (mapWords f after ++ (b.rename (mapWords f)).back)) := by
  have renamed : (b.rename (mapWords f)).args =
      mapWords f front ++ (mapWords f e ++ mapWords f after) := by
    rw [← mapWords_append right, ← mapWords_append left, ← args]
    rfl
  rw [toChars_eq, renamed]
  simp

/-- What becomes of a piece of a text. -/
def Piece.renamed (g : List Char → List Char) : Piece → List Char
  | plain cs => cs
  | grid b => (b.rename g).toChars

/-- Pieces that are well formed and end where a word may end. -/
inductive Joined : List Piece → Prop
  | nil : Joined []
  | cons {piece : Piece} {ps : List Piece} (shape : ∀ b, piece = .grid b → b.WellFormed)
      (apart : Apart piece.toChars (ps.flatMap Piece.toChars)) (more : Joined ps) :
      Joined (piece :: ps)

theorem Joined.cons_inv {piece : Piece} {ps : List Piece} (joined : Joined (piece :: ps)) :
    (∀ b, piece = .grid b → b.WellFormed) ∧
      Apart piece.toChars (ps.flatMap Piece.toChars) ∧ Joined ps := by
  cases joined with
  | cons shape apart more => exact ⟨shape, apart, more⟩

theorem joined_pieces (cs : List Char) : Joined (pieces cs) := by
  have grid (b : GridBlock) (after : List Char) : Apart (Piece.grid b).toChars after := by
    refine .inl ?_
    rw [Piece.toChars, b.toChars_getLast?]
    rfl
  have line (cs : List Char) : Apart (Piece.plain (takeLine cs).1).toChars
      ((pieces (takeLine cs).2).flatMap Piece.toChars) := by
    rw [pieces_flatMap_toChars, Piece.toChars]
    by_cases further : (takeLine cs).2 = []
    · rw [further]
      exact .inr rfl
    · refine .inl ?_
      have ends := takeLine_endsLine further
      cases last : (takeLine cs).1.getLast? with
      | none => rfl
      | some c =>
        obtain rfl := ends c last
        rfl
  have well {cs rest : List Char} {b : GridBlock} (taken : GridBlock.take? cs = some (b, rest))
      (b' : GridBlock) (same : Piece.grid b = .grid b') : b'.WellFormed := by
    cases same
    exact GridBlock.take?_sound taken
  have plain (cs : List Char) (b : GridBlock) (same : Piece.plain cs = .grid b) :
      b.WellFormed := by
    cases same
  fun_induction pieces cs with
  | case1 => exact .nil
  | case2 c rest b taken => exact .cons (well taken) (grid b _) .nil
  | case3 c rest b d more taken _ ih =>
    exact .cons (well taken) (grid b _) (.cons (plain _) (line _) ih)
  | case4 c rest _ _ ih => exact .cons (plain _) (line _) ih

theorem Piece.renamed_rewords {piece : Piece} (shape : ∀ b, piece = .grid b → b.WellFormed)
    (f : List Char → List Char) : Rewords f piece.toChars (piece.renamed (mapWords f)) := by
  cases piece with
  | plain cs => exact .refl cs
  | grid b =>
    have apart : Apart b.args b.back := .inr rfl
    have args := (Rewords.mapWords b.args).append apart (b.back_rewords f)
    rw [toChars, renamed, GridBlock.toChars_eq, GridBlock.toChars_eq]
    exact (GridBlock.front_rewords (shape b rfl) f).around rfl args

theorem Joined.rewords {ps : List Piece} (joined : Joined ps) (f : List Char → List Char) :
    Rewords f (ps.flatMap Piece.toChars) (ps.flatMap (Piece.renamed (mapWords f))) := by
  induction joined with
  | nil => exact .nil
  | cons shape apart _ ih => exact (Piece.renamed_rewords shape f).append apart ih

theorem Joined.append_inv {ps qs : List Piece} (joined : Joined (ps ++ qs)) :
    Joined ps ∧ Joined qs ∧ Apart (ps.flatMap Piece.toChars) (qs.flatMap Piece.toChars) := by
  induction ps with
  | nil => exact ⟨.nil, joined, .inl rfl⟩
  | cons piece ps ih =>
    rw [List.cons_append] at joined
    obtain ⟨shape, apart, more⟩ := joined.cons_inv
    obtain ⟨front, back, further⟩ := ih more
    rw [List.flatMap_append] at apart
    exact ⟨.cons shape apart.front front, back, apart.join further⟩

theorem renameInGrids_split {ps qs : List Piece} {piece : Piece} (g : List Char → List Char)
    (split : pieces cs = ps ++ piece :: qs) : renameInGrids g cs =
      ps.flatMap (Piece.renamed g) ++ (piece.renamed g ++ qs.flatMap (Piece.renamed g)) := by
  change (pieces cs).flatMap (Piece.renamed g) = _
  rw [split, List.flatMap_append, List.flatMap_cons]

end Grid

/-! ### Places of conditions -/

/-- A condition in a text, with the text in front of it and behind it: in code that belongs to
no grid, or among the arguments of a grid, which become the options of its header. -/
inductive Stands (cs e : List Char) : (before after : List Char) → Prop
  | line {ps qs : List Piece} {front after : List Char}
      (split : pieces cs = ps ++ .plain (front ++ (e ++ after)) :: qs)
      (code : InCode (ps.flatMap Piece.toChars) e front after) :
      Stands cs e (ps.flatMap Piece.toChars ++ front) (after ++ qs.flatMap Piece.toChars)
  | arguments {ps qs : List Piece} {b : GridBlock} {front after : List Char}
      (split : pieces cs = ps ++ .grid b :: qs) (args : b.args = front ++ (e ++ after)) :
      Stands cs e (ps.flatMap Piece.toChars ++ (b.front ++ '|' :: front))
        (after ++ (b.back ++ qs.flatMap Piece.toChars))

section Stands
variable {f : List Char → List Char} {cs e before after lead lead' front : List Char}

theorem Stands.text (stands : Stands cs e before after) : cs = before ++ (e ++ after) := by
  cases stands with
  | line split =>
    have whole := pieces_flatMap_toChars cs
    rw [split, List.flatMap_append, List.flatMap_cons] at whole
    simpa [Piece.toChars] using whole.symm
  | arguments split args =>
    have whole := pieces_flatMap_toChars cs
    rw [split, List.flatMap_append, List.flatMap_cons, Piece.toChars, GridBlock.toChars_eq,
      args] at whole
    simpa using whole.symm

theorem atLineStart_rewords (settles : Settles f) (rewords : Rewords f lead lead')
    (lineStart : Bool) : atLineStart lineStart lead' = atLineStart lineStart lead := by
  refine rewords.foldl settles (fun _ => false) (fun _ c word => ?_) (fun _ => rfl) _
  refine beq_eq_false_iff_ne.2 ?_
  rintro rfl
  cases word

theorem isOpen_rewords {opening close : Char} (settles : Settles f) (rewords : Rewords f lead lead')
    (opens : isWord opening = false) (closes : isWord close = false) (line : List Char) :
    isOpen opening close (lead' ++ line) = isOpen opening close (lead ++ line) := by
  have blind (s : Bool) (c : Char) (word : isWord c = true) :
      bracketStep opening close s c = id s := by
    have other {d : Char} (outside : isWord d = false) : (c == d) = false := by
      refine beq_eq_false_iff_ne.2 ?_
      rintro rfl
      rw [word] at outside
      cases outside
    have feed := other (d := '\n') rfl
    simp [bracketStep, bne, other opens, other closes, feed]
  have same := rewords.foldl settles id blind (fun _ => rfl) false
  rw [isOpen, isOpen, List.foldl_append, List.foldl_append, same]

/-- Words replaced in front of a line leave the code of the line where it is. -/
theorem InCode.rewords (code : InCode lead e front after) (settles : Settles f)
    (rewords : Rewords f lead lead') : InCode lead' e front after := by
  cases code with
  | header line blank plain =>
    exact .header ((atLineStart_rewords settles rewords true).trans line) blank plain
  | guard oneLine brackets braces =>
    refine .guard oneLine (fun opens => brackets ?_) (fun opens => braces ?_)
    · rwa [isOpen_rewords settles rewords rfl rfl] at opens
    · rwa [isOpen_rewords settles rewords rfl rfl] at opens
  | span plain brackets =>
    refine .span plain fun opens => brackets ?_
    rwa [isOpen_rewords settles rewords rfl rfl] at opens

theorem Stands.line_renamed {ps qs : List Piece} (settles : Settles f)
    (split : pieces cs = ps ++ .plain (front ++ (e ++ after)) :: qs)
    (code : InCode (ps.flatMap Piece.toChars) e front after)
    (left : Apart (ps.flatMap Piece.toChars ++ front) e)
    (right : Apart e (after ++ qs.flatMap Piece.toChars)) (some : e ≠ []) :
    ∃ xs ys, renameInCode (mapWords f) (renameInGrids (mapWords f) cs) =
        xs ++ (mapWords f e ++ ys) ∧ Rewords f (ps.flatMap Piece.toChars ++ front) xs ∧
      Rewords f (after ++ qs.flatMap Piece.toChars) ys := by
  have joined := joined_pieces cs
  rw [split] at joined
  obtain ⟨above, within, apart⟩ := joined.append_inv
  obtain ⟨-, stops, below⟩ := within.cons_inv
  have ahead : Rewords f (ps.flatMap Piece.toChars ++ front)
      (ps.flatMap (Piece.renamed (mapWords f)) ++ front) := by
    refine (above.rewords f).append ?_ (.refl front)
    rw [List.flatMap_cons, Piece.toChars, List.append_assoc] at apart
    exact apart.front
  have behind : Rewords f (after ++ qs.flatMap Piece.toChars)
      (after ++ qs.flatMap (Piece.renamed (mapWords f))) := by
    refine (Rewords.refl after).append ?_ (below.rewords f)
    rw [Piece.toChars, ← List.append_assoc] at stops
    exact stops.back
  have code := (code.rewords settles (above.rewords f)).more
    (qs.flatMap (Piece.renamed (mapWords f)))
  obtain ⟨xs, ys, text, first, last⟩ := code.renamed f (left.rewords settles ahead (.refl e))
    (right.rewords settles (.refl e) behind) some
  refine ⟨xs, ys, ?_, ahead.trans settles first, behind.trans settles last⟩
  rw [renameInGrids_split _ split, ← text, Piece.renamed]
  simp

/-- The words of an argument are in their final form before the code is dealt with. -/
theorem Stands.argument_renamed {ps qs : List Piece} {b : GridBlock} (settles : Settles f)
    (split : pieces cs = ps ++ .grid b :: qs) (args : b.args = front ++ (e ++ after))
    (left : Apart (ps.flatMap Piece.toChars ++ (b.front ++ '|' :: front)) e)
    (right : Apart e (after ++ (b.back ++ qs.flatMap Piece.toChars))) (some : e ≠ []) :
    ∃ xs ys, renameInCode (mapWords f) (renameInGrids (mapWords f) cs) =
        xs ++ (mapWords f e ++ ys) ∧
      Rewords f (ps.flatMap Piece.toChars ++ (b.front ++ '|' :: front)) xs ∧
      Rewords f (after ++ (b.back ++ qs.flatMap Piece.toChars)) ys := by
  have joined := joined_pieces cs
  rw [split] at joined
  obtain ⟨above, within, apart⟩ := joined.append_inv
  obtain ⟨shape, stops, below⟩ := within.cons_inv
  have whole : (Piece.grid b).toChars = b.front ++ '|' :: front ++ (e ++ (after ++ b.back)) := by
    rw [Piece.toChars, GridBlock.toChars_eq, args]
    simp
  have ahead : Rewords f (ps.flatMap Piece.toChars ++ (b.front ++ '|' :: front))
      (ps.flatMap (Piece.renamed (mapWords f)) ++
        ((b.rename (mapWords f)).front ++ '|' :: mapWords f front)) := by
    refine (above.rewords f).append ?_
      ((GridBlock.front_rewords (shape b rfl) f).around rfl (.mapWords front))
    rw [List.flatMap_cons, whole, List.append_assoc] at apart
    exact apart.front
  have behind : Rewords f (after ++ (b.back ++ qs.flatMap Piece.toChars))
      (mapWords f after ++ ((b.rename (mapWords f)).back ++
        qs.flatMap (Piece.renamed (mapWords f)))) := by
    have bar : Apart after (b.back ++ qs.flatMap Piece.toChars) := .inr rfl
    refine (Rewords.mapWords after).append bar ((b.back_rewords f).append ?_ (below.rewords f))
    rw [whole, ← List.append_assoc, ← List.append_assoc] at stops
    exact stops.back
  have within : Apart front e := by
    rw [List.append_cons, ← List.append_assoc] at left
    exact left.back
  have grids : renameInGrids (mapWords f) cs = ps.flatMap (Piece.renamed (mapWords f)) ++
      ((b.rename (mapWords f)).front ++ '|' :: mapWords f front) ++ (mapWords f e ++
        (mapWords f after ++ ((b.rename (mapWords f)).back ++
          qs.flatMap (Piece.renamed (mapWords f))))) := by
    rw [renameInGrids_split _ split, Piece.renamed,
      GridBlock.renamed_argument f args (within.extend some after) right.front]
    simp
  have rewords := renameInCode_rewords f true (renameInGrids (mapWords f) cs)
  rw [grids] at rewords ⊢
  obtain ⟨xs, ys, text, first, last⟩ := rewords.settled settles
    ((left.extend some _).rewords settles ahead ((Rewords.mapWords e).append right behind))
    (right.rewords settles (.mapWords e) behind)
  exact ⟨xs, ys, text, ahead.trans settles first, behind.trans settles last⟩

/-- A condition is renamed as a whole, and what stands around it word by word. -/
theorem Stands.renamed (stands : Stands cs e before after) (settles : Settles f)
    (left : Apart before e) (right : Apart e after) (some : e ≠ []) :
    ∃ xs ys, renameInCode (mapWords f) (renameInGrids (mapWords f) cs) =
        xs ++ (mapWords f e ++ ys) ∧ Rewords f before xs ∧ Rewords f after ys := by
  cases stands with
  | line split code => exact line_renamed settles split code left right some
  | arguments split args => exact argument_renamed settles split args left right some

end Stands

/-- A word in the form of an iteration, if the body declares it. -/
def LoopBlock.inIteration (b : LoopBlock) (iteration : Nat) : List Char → List Char :=
  iterated (declaredIds b.body) iteration

/-- In every copy of a loop body a condition reads as its tree with the declared identifiers of
its references in the form of the iteration. That takes identifiers that can be told apart from
their forms, and a tree in which no quoted text, no function and no keyword goes by the name of
one. Around the condition words are kept or put into that form. -/
theorem LoopBlock.copy_condition (b : LoopBlock) (iteration : Nat)
    (renamable : Renamable (declaredIds b.body) iteration) {e before after : List Char}
    (stands : Stands (writeIndex b.body iteration) e before after) (left : Apart before e)
    (right : Apart e after) {maxDepth : Nat} {tree : Expr}
    (read : Expr.read maxDepth (String.ofList e) = .ok tree)
    (keeps : tree.Keeps (b.inIteration iteration)) :
    ∃ xs ys, writeIndex b.body iteration = before ++ (e ++ after) ∧
      b.copy iteration = xs ++ (mapWords (b.inIteration iteration) e ++ ys) ∧
      Rewords (b.inIteration iteration) before xs ∧ Rewords (b.inIteration iteration) after ys ∧
      Expr.read maxDepth (String.ofList (mapWords (b.inIteration iteration) e)) =
        .ok (tree.rename (b.inIteration iteration)) := by
  have some : e ≠ [] := by
    rintro rfl
    have unread : Expr.ofChars? [] = none := by cbv
    rw [Expr.read, String.toList_ofList, unread] at read
    cases read
  obtain ⟨xs, ys, text, first, last⟩ := stands.renamed renamable.settles left right some
  have reads := Expr.read_mapWords renamable.renaming read keeps
  rw [String.toList_ofList] at reads
  have rename : renameAll (declaredIds b.body) iteration = mapWords (b.inIteration iteration) :=
    funext (renameAll_eq_mapWords renamable)
  refine ⟨xs, ys, stands.text, ?_, first, last, reads⟩
  rw [inIteration, ← text, ← inIteration, ← rename]
  rfl

/-- A loop in which one question is shown on a condition about another one. -/
def askingLoop : LoopBlock :=
  ⟨" bound=N max=2".toList, "\n[A]\n[B,displayif=equals(A,\"no\") && answered(N)]\n".toList⟩

theorem copy_condition_asking : ∃ xs ys,
    askingLoop.copy 2 = xs ++ ("equals(A_2_2,\"no\") && answered(N)".toList ++ ys) ∧
    Expr.read 50 "equals(A_2_2,\"no\") && answered(N)" =
      .ok (.binary (.call "equals" [.reference "A_2_2", .text "no"]) .and
        (.call "answered" [.reference "N"])) := by
  have names : declaredIds askingLoop.body = ["A", "B"] := by cbv
  have renamable : Renamable ["A", "B"] 2 := by
    refine ⟨?_, by decide⟩
    rw [List.forall_mem_cons, List.forall_mem_singleton]
    exact ⟨⟨'A', [], rfl, rfl, List.forall_mem_nil _⟩, ⟨'B', [], rfl, rfl, List.forall_mem_nil _⟩⟩
  have split : pieces (writeIndex askingLoop.body 2) =
      [.plain ['\n'], .plain "[A]\n".toList] ++ .plain ("[B,displayif=".toList ++
        ("equals(A,\"no\") && answered(N)".toList ++ "]\n".toList)) :: [] := by cbv
  have code : InCode "\n[A]\n".toList "equals(A,\"no\") && answered(N)".toList
      ([] ++ '[' :: "B,displayif=".toList) ([] ++ ']' :: ['\n']) :=
    .header rfl blanks_nil (List.all_eq_true.1 rfl)
  have read : Expr.read 50 (String.ofList "equals(A,\"no\") && answered(N)".toList) =
      .ok (.binary (.call "equals" [.reference "A", .text "no"]) .and
        (.call "answered" [.reference "N"])) := by cbv
  rw [← names] at renamable
  obtain ⟨xs, ys, -, text, -, -, reads⟩ := LoopBlock.copy_condition _ 2 renamable (.line split code)
    (.inl rfl) (.inr rfl) read ⟨⟨by cbv, trivial, by cbv, trivial⟩, by cbv, trivial, trivial⟩
  have renamed : mapWords (iterated ["A", "B"] 2) "equals(A,\"no\") && answered(N)".toList =
      "equals(A_2_2,\"no\") && answered(N)".toList := by cbv
  rw [LoopBlock.inIteration, names, renamed] at text reads
  have tree : Expr.rename (iterated ["A", "B"] 2) (.binary
      (.call "equals" [.reference "A", .text "no"]) .and (.call "answered" [.reference "N"])) =
        .binary (.call "equals" [.reference "A_2_2", .text "no"]) .and
          (.call "answered" [.reference "N"]) := by cbv
  rw [tree] at reads
  exact ⟨xs, ys, text, reads⟩

/-- A loop in which a quoted text looks like an identifier. -/
def quotingLoop : LoopBlock :=
  ⟨" bound=N max=1".toList, "\n[A]\n[B,displayif=equals(A,\"A\")]\n".toList⟩

/-- A quoted text is renamed with the identifier that it looks like. -/
theorem copy_quoted_renamed :
    Stands (writeIndex quotingLoop.body 1) "equals(A,\"A\")".toList "\n[A]\n[B,displayif=".toList
      "]\n".toList ∧
    Expr.read 50 "equals(A,\"A\")" = .ok (.call "equals" [.reference "A", .text "A"]) ∧
    quotingLoop.copy 1 = "\n[A_1_1]\n[B_1_1,displayif=equals(A_1_1,\"A_1_1\")]\n".toList ∧
    Expr.read 50 "equals(A_1_1,\"A_1_1\")" =
      .ok (.call "equals" [.reference "A_1_1", .text "A_1_1"]) := by
  have split : pieces (writeIndex quotingLoop.body 1) =
      [.plain ['\n'], .plain "[A]\n".toList] ++ .plain ("[B,displayif=".toList ++
        ("equals(A,\"A\")".toList ++ "]\n".toList)) :: [] := by cbv
  have code : InCode "\n[A]\n".toList "equals(A,\"A\")".toList
      ([] ++ '[' :: "B,displayif=".toList) ([] ++ ']' :: ['\n']) :=
    .header rfl blanks_nil (List.all_eq_true.1 rfl)
  exact ⟨.line split code, by cbv, by cbv, by cbv⟩

end Definition

end Questionnaire
