import Questionnaire.Definition.Rename
import Questionnaire.Proofs.Definition.Annotation
import Questionnaire.Proofs.Expr.Renaming

/-! What renaming does to one region of code. A declared name that stands as a word of its
own is replaced by its form in the iteration, one name after the other. As long as no such
form is declared itself this is one pass over the words. -/
namespace Questionnaire.Definition

open Expr.Token (IsName)
open Text

variable {name replacement w cs : List Char} {before : Option Char}

theorem expandTemplate_plain (whole : List Char) {template : List Char} (plain : '$' ∉ template) :
    expandTemplate whole template = template := by
  have steps (fuel : Nat) (cs : List Char) (plain : '$' ∉ cs) :
      expandTemplate.go whole cs fuel = cs := by
    induction fuel generalizing cs with
    | zero => rw [expandTemplate.go]
    | succ fuel ih =>
      cases cs with
      | nil => rfl
      | cons c cs =>
        simp only [List.mem_cons, not_or] at plain
        have other : c ≠ '$' := fun same => plain.1 same.symm
        simp [expandTemplate.go, other, ih cs plain.2]
  exact steps _ _ plain

theorem nameAhead_run (named : IsRun name) (run : IsRun w) (ends : Ends isWord cs)
    (outside : before.any isWord = false) :
    nameAhead name before (w ++ cs) = decide (w = name) := by
  have first : (w ++ cs).head?.any isWord = true := by
    cases w with
    | nil => exact absurd rfl run.some
    | cons c w => exact run.chars c List.mem_cons_self
  unfold nameAhead
  cases strips : stripLeading? name (w ++ cs) with
  | none =>
    refine (decide_eq_false fun same => ?_).symm
    subst same
    rw [stripLeading?_eq_some_iff.2 rfl] at strips
    cases strips
  | some rest =>
    have text := stripLeading?_eq_some_iff.1 strips
    simp only [isWordBoundary, outside, first, named.last]
    by_cases same : w = name
    · subst same
      rw [List.append_cancel_left text] at ends
      have stops : rest.head?.any isWord = false := ends
      simp [stops]
    · -- Were the name a word of its own, it would be the word that the text begins with.
      have goes : ¬Ends isWord rest := by
        intro stops
        refine same ?_
        rw [← (takeWhile_append_ends run.chars ends).1, text,
          (takeWhile_append_ends named.chars stops).1]
      have inside : rest.head?.any isWord = true := by simpa [Ends] using goes
      simp [inside, same]

theorem nameAhead_other (named : IsRun name) {c : Char} (other : isWord c = false) :
    nameAhead name before (c :: cs) = false := by
  cases name with
  | nil => exact absurd rfl named.some
  | cons n name =>
    have word := named.chars n List.mem_cons_self
    have different : n ≠ c := by
      rintro rfl
      rw [word] at other
      cases other
    simp [nameAhead, stripLeading?, different]

/-- Within a word nothing is replaced. -/
theorem renameWord_inside (name replacement cs : List Char) {b : Char}
    (inside : isWord b = true) (chars : ∀ c ∈ w, isWord c = true) :
    ∃ last, renameWord.go name replacement (some b) 0 (w ++ cs) =
      w ++ renameWord.go name replacement last 0 cs := by
  induction w generalizing b with
  | nil => exact ⟨some b, rfl⟩
  | cons c w ih =>
    have word := chars c List.mem_cons_self
    have ahead : nameAhead name (some b) (c :: (w ++ cs)) = false := by
      unfold nameAhead
      split <;> simp [isWordBoundary, inside, word]
    obtain ⟨last, rest⟩ := ih word fun x member => chars x (List.mem_cons_of_mem _ member)
    refine ⟨last, ?_⟩
    rw [List.cons_append, renameWord.go, if_neg (by simp [ahead]), rest, List.cons_append]

theorem renameWord_pending (name replacement w cs : List Char) (before : Option Char) :
    ∃ last, renameWord.go name replacement before w.length (w ++ cs) =
      renameWord.go name replacement last 0 cs := by
  induction w generalizing before with
  | nil => exact ⟨before, rfl⟩
  | cons c w ih =>
    rw [List.cons_append, List.length_cons, renameWord.go]
    exact ih (some c)

theorem renameWord_eq_mapWords (named : IsRun name) (replacement cs : List Char) :
    renameWord name replacement cs =
      mapWords (fun w => if w = name then replacement else w) cs := by
  have outside (cs : List Char) (before : Option Char)
      (outside : before.any isWord = false ∨ Ends isWord cs) :
      renameWord.go name replacement before 0 cs =
        mapWords (fun w => if w = name then replacement else w) cs := by
    induction cs using words_induction generalizing before with
    | nil => rw [mapWords_nil, renameWord.go]
    | other c cs other ih =>
      rw [renameWord.go, if_neg (by simp [nameAhead_other named other]), mapWords_other other,
        ih (some c) (.inl other)]
    | run w cs run ends ih =>
      cases w with
      | nil => exact absurd rfl run.some
      | cons c w =>
        have word := run.chars c List.mem_cons_self
        have out : before.any isWord = false := outside.resolve_right (run.begins cs)
        have ahead : nameAhead name before (c :: (w ++ cs)) = decide (c :: w = name) :=
          nameAhead_run named run ends out
        rw [mapWords_run run ends]
        by_cases same : c :: w = name
        · obtain ⟨last, rest⟩ := renameWord_pending name replacement w cs (some c)
          have length : name.length - 1 = w.length := by rw [← same]; rfl
          rw [List.cons_append, renameWord.go, if_pos (ahead.trans (decide_eq_true same)), length,
            rest, ih last (.inr ends), if_pos same]
        · obtain ⟨last, rest⟩ := renameWord_inside name replacement cs word
            fun x member => run.chars x (List.mem_cons_of_mem _ member)
          rw [List.cons_append, renameWord.go, if_neg (by simp [ahead, same]), rest,
            ih last (.inr ends), if_neg same, List.cons_append]
  exact outside cs none (.inl rfl)

/-! All declared names -/

/-- Names that can be told apart from their forms in an iteration. -/
structure Renamable (names : List String) (iteration : Nat) : Prop where
  name : ∀ n ∈ names, IsName n.toList
  form : ∀ n ∈ names, iterationId n iteration ∉ names

/-- A word in the form of an iteration, if it is a name. -/
def iterated (names : List String) (iteration : Nat) (w : List Char) : List Char :=
  if String.ofList w ∈ names then w ++ (iterationSuffix iteration).toList else w

theorem iterationSuffix_chars (iteration : Nat) :
    ∀ x ∈ (iterationSuffix iteration).toList, Expr.Token.isIdentChar x = true := by
  have digits : ∀ x ∈ (toString iteration).toList, Expr.Token.isIdentChar x = true := by
    intro x member
    simp [Expr.Token.isIdentChar, Char.isAlphanum, isDigit_toString iteration x member]
  intro x member
  simp only [iterationSuffix, String.toList_append, List.mem_append] at member
  rcases member with ((underscore | number) | underscore) | number
  · simp_all [Expr.Token.isIdentChar]
  · exact digits x number
  · simp_all [Expr.Token.isIdentChar]
  · exact digits x number

theorem iterationId_toList (n : String) (iteration : Nat) :
    (iterationId n iteration).toList = n.toList ++ (iterationSuffix iteration).toList := by
  simp [iterationId]

/-- A word after the names have been dealt with one after the other. -/
def renameStep (iteration : Nat) (w : List Char) (n : String) : List Char :=
  if w = n.toList then (iterationId n iteration).toList else w

theorem foldl_renameStep {names : List String} {iteration : Nat}
    (form : ∀ n ∈ names, iterationId n iteration ∉ names) (later : List String)
    (among : ∀ n ∈ later, n ∈ names) (w : List Char) :
    later.foldl (renameStep iteration) w = iterated later iteration w := by
  induction later generalizing w with
  | nil => simp [iterated]
  | cons n later ih =>
    have ih := ih fun m member => among m (List.mem_cons_of_mem _ member)
    rw [List.foldl_cons, ih, renameStep]
    by_cases same : w = n.toList
    · subst same
      have unnamed : iterationId n iteration ∉ later := fun member =>
        form n (among n List.mem_cons_self) (among _ (List.mem_cons_of_mem _ member))
      have whole : String.ofList n.toList ∈ n :: later := by simp
      rw [if_pos rfl, iterated, String.ofList_toList, if_neg unnamed, iterated, if_pos whole,
        iterationId_toList]
    · have different : String.ofList w ≠ n := fun eq => same (by rw [← eq, String.toList_ofList])
      simp [iterated, same, different]

/-- Renaming one name after the other deals with each word for itself. -/
theorem renameAll_eq_foldl {names : List String} (named : ∀ n ∈ names, IsName n.toList)
    (iteration : Nat) (cs : List Char) :
    renameAll names iteration cs = mapWords (fun w => names.foldl (renameStep iteration) w) cs := by
  induction names generalizing cs with
  | nil => exact (mapWords_id cs).symm
  | cons n names ih =>
    obtain ⟨named, later⟩ := List.forall_mem_cons.1 named
    have formed : IsName (iterationId n iteration).toList := by
      rw [iterationId_toList]
      exact named.append (iterationSuffix_chars iteration)
    have template : expandTemplate n.toList (iterationId n iteration).toList =
        (iterationId n iteration).toList := by
      refine expandTemplate_plain _ fun member => ?_
      have char := formed.chars '$' member
      revert char
      decide
    have keeps (w : List Char) (run : IsRun w) : IsRun (renameStep iteration w n) := by
      unfold renameStep
      split
      · exact formed.run
      · exact run
    have first : renameWord n.toList (iterationId n iteration).toList cs =
        mapWords (fun w => renameStep iteration w n) cs := renameWord_eq_mapWords named.run _ cs
    rw [renameAll, List.foldl_cons, template, first]
    refine (ih later _).trans ?_
    exact mapWords_mapWords keeps cs

/-- Renaming one name after the other is one pass over the words. -/
theorem renameAll_eq_mapWords {names : List String} {iteration : Nat}
    (renamable : Renamable names iteration) (cs : List Char) :
    renameAll names iteration cs = mapWords (iterated names iteration) cs := by
  rw [renameAll_eq_foldl renamable.name]
  exact mapWords_congr (fun w _ => foldl_renameStep renamable.form names (fun _ => id) w) cs

variable {names : List String} {iteration : Nat}

theorem iterated_extends (names : List String) (iteration : Nat) (w : List Char) :
    ∃ more, iterated names iteration w = w ++ more ∧
      ∀ x ∈ more, Expr.Token.isIdentChar x = true := by
  unfold iterated
  split
  · exact ⟨_, rfl, iterationSuffix_chars iteration⟩
  · exact ⟨[], by simp, nofun⟩

/-- Renaming makes names of names, and touches no other words of an expression. -/
theorem Renamable.renaming (renamable : Renamable names iteration) :
    Expr.Renaming (iterated names iteration) where
  name w _ := iterated_extends names iteration w
  other w unnamed := by
    refine if_neg fun member => unnamed ?_
    have named := renamable.name _ member
    rwa [String.toList_ofList] at named
  fresh w key := by
    unfold iterated at key
    split at key
    · -- The form of a name has an underscore, and no keyword has one.
      have plain : ∀ k ∈ Expr.keywords, '_' ∉ k.toList := by decide
      refine absurd ?_ (plain _ key)
      simp [iterationSuffix]
    · exact key

theorem Renamable.settles (renamable : Renamable names iteration) :
    Settles (iterated names iteration) where
  run w run := by
    obtain ⟨more, longer, chars⟩ := iterated_extends names iteration w
    rw [longer]
    refine ⟨by simp [run.some], fun c member => ?_⟩
    exact (List.mem_append.1 member).elim (run.chars c) fun later => isWord_of_ascii (chars c later)
  twice w _ := by
    by_cases named : String.ofList w ∈ names
    · have unnamed := renamable.form _ named
      have same : iterationId (String.ofList w) iteration =
          String.ofList (w ++ (iterationSuffix iteration).toList) := by
        rw [← String.toList_inj, iterationId_toList, String.toList_ofList, String.toList_ofList]
      rw [same] at unnamed
      rw [iterated, iterated, if_pos named, if_neg unnamed]
    · simp only [iterated, if_neg named]

end Questionnaire.Definition
