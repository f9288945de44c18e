import Mathlib.Data.String.Basic
import Questionnaire.Proofs.Definition.IterationIds
import Questionnaire.Proofs.Text.Reworded

/-! Forms of the names that a loop body declares. The names are dealt with in ascending order, so
that one whose form in the iteration is declared as well goes on to the form of that one, until
what is there is no name. -/
namespace Questionnaire.Definition

open Expr.Token (IsName)
open Text

/-! Names in ascending order -/

theorem lt_append (a : String) {b : String} (some : b.toList ≠ []) : a < a ++ b := by
  have longer (xs : List Char) {ys : List Char} (some : ys ≠ []) : xs < xs ++ ys := by
    induction xs with
    | nil =>
      obtain ⟨y, ys, rfl⟩ := List.exists_cons_of_ne_nil some
      exact List.nil_lt_cons y ys
    | cons x xs ih => exact List.cons_lt_cons_iff.2 (.inr ⟨rfl, ih⟩)
  rw [String.lt_iff_toList_lt, String.toList_append]
  exact longer _ some

theorem lt_iterationId (n : String) (iteration : Nat) : n < iterationId n iteration := by
  refine lt_append n ?_
  simp [iterationSuffix]

theorem iterationId_ne (n : String) (iteration : Nat) : iterationId n iteration ≠ n := by
  intro same
  have longer := lt_iterationId n iteration
  rw [same] at longer
  exact String.lt_irrefl n longer

theorem mem_insertSorted_iff {name other : String} {names : List String} :
    name ∈ insertSorted other names ↔ name = other ∨ name ∈ names := by
  fun_induction insertSorted other names with
  | case1 => simp
  | case2 n names => simp
  | case3 n names order =>
    obtain rfl : other = n := by
      unfold compareOfLessAndEq at order
      split at order
      · cases order
      · split at order
        · assumption
        · cases order
    simp
  | case4 n names _ ih => simp only [List.mem_cons, ih, or_left_comm]

theorem sorted_insertSorted {names : List String} (sorted : names.Pairwise (· < ·))
    (other : String) : (insertSorted other names).Pairwise (· < ·) := by
  fun_induction insertSorted other names with
  | case1 => exact List.pairwise_singleton _ _
  | case2 n names order =>
    obtain ⟨least, -⟩ := List.pairwise_cons.1 sorted
    have first : other < n := compareOfLessAndEq_eq_lt.1 order
    exact List.pairwise_cons.2
      ⟨List.forall_mem_cons.2 ⟨first, fun m member => String.lt_trans first (least m member)⟩,
        sorted⟩
  | case3 n names => exact sorted
  | case4 n names order ih =>
    obtain ⟨least, sorted⟩ := List.pairwise_cons.1 sorted
    have first : n < other := by
      unfold compareOfLessAndEq at order
      split at order
      · cases order
      · next notLess =>
        split at order
        · cases order
        · next other => exact Dict.lt_of_not_lt_of_ne notLess other
    refine List.pairwise_cons.2 ⟨fun m member => ?_, ih sorted⟩
    rcases mem_insertSorted_iff.1 member with rfl | member
    · exact first
    · exact least m member

theorem sorted_declaredIds (body : List Char) : (declaredIds body).Pairwise (· < ·) := by
  have fold (declared names : List String) (sorted : names.Pairwise (· < ·)) :
      (declared.foldl (fun names name => insertSorted name names) names).Pairwise (· < ·) := by
    induction declared generalizing names with
    | nil => exact sorted
    | cons name declared ih => exact ih _ (sorted_insertSorted sorted name)
  exact fold _ [] List.Pairwise.nil

/-- What a text declares, in its order. -/
def declarations (body : List Char) : List String :=
  headerIds body ++ (gridBlocks body).flatMap fun b => String.ofList b.id :: rowIds b.rows

theorem mem_declaredIds_iff {name : String} {body : List Char} :
    name ∈ declaredIds body ↔ name ∈ declarations body := by
  have fold (declared names : List String) :
      name ∈ declared.foldl (fun names name => insertSorted name names) names ↔
        name ∈ declared ∨ name ∈ names := by
    induction declared generalizing names with
    | nil => simp
    | cons other declared ih =>
      rw [List.foldl_cons, ih, mem_insertSorted_iff, List.mem_cons, or_left_comm, or_assoc]
  have whole := fold (declarations body) []
  rwa [or_iff_left List.not_mem_nil] at whole

/-! One name after the other -/

/-- The form of a word in an iteration: what becomes of it as the names are dealt with. -/
def formOf (names : List String) (iteration : Nat) (w : List Char) : List Char :=
  names.foldl (renameStep iteration) w

variable {names : List String} {iteration : Nat} {n : String} {w : List Char}

theorem renameStep_self (iteration : Nat) (n : String) :
    renameStep iteration n.toList n = (iterationId n iteration).toList := if_pos rfl

theorem renameStep_other {s : String} (iteration : Nat) (other : s ≠ n) :
    renameStep iteration s.toList n = s.toList :=
  if_neg (mt String.toList_inj.1 other)

theorem formOf_other {s : String} (iteration : Nat) (other : s ∉ names) :
    formOf names iteration s.toList = s.toList := by
  induction names with
  | nil => rfl
  | cons n names ih =>
    rw [List.mem_cons, not_or] at other
    rw [formOf, List.foldl_cons, renameStep_other iteration other.1]
    exact ih other.2

/-- A name ends in the form of a name that is none itself. -/
theorem formOf_name (sorted : names.Pairwise (· < ·)) (iteration : Nat) (member : n ∈ names) :
    ∃ m ∈ names, iterationId m iteration ∉ names ∧
      formOf names iteration n.toList = (iterationId m iteration).toList := by
  induction names generalizing n with
  | nil => cases member
  | cons first names ih =>
    obtain ⟨least, rest⟩ := List.pairwise_cons.1 sorted
    have beyond {m : String} (later : m ∈ names) : iterationId m iteration ≠ first := by
      rintro rfl
      exact String.lt_irrefl m (String.lt_trans (lt_iterationId m iteration) (least m later))
    have later {n : String} (member : n ∈ names) : ∃ m ∈ first :: names,
        iterationId m iteration ∉ first :: names ∧
          formOf names iteration n.toList = (iterationId m iteration).toList := by
      obtain ⟨m, member, stops, ends⟩ := ih rest member
      exact ⟨m, List.mem_cons_of_mem first member, by simp [stops, beyond member], ends⟩
    rw [formOf, List.foldl_cons]
    by_cases same : n = first
    · subst same
      rw [renameStep_self]
      by_cases form : iterationId n iteration ∈ names
      · exact later form
      · refine ⟨n, member, ?_, formOf_other iteration form⟩
        simp [form, iterationId_ne n iteration]
    · rw [renameStep_other iteration same]
      exact later ((List.mem_cons.1 member).resolve_left same)

/-- A name has the form of its own form, if that is a name. -/
theorem formOf_iterationId (sorted : names.Pairwise (· < ·)) (iteration : Nat)
    (member : n ∈ names) :
    formOf names iteration (iterationId n iteration).toList = formOf names iteration n.toList := by
  induction names with
  | nil => cases member
  | cons m names ih =>
    obtain ⟨least, sorted⟩ := List.pairwise_cons.1 sorted
    rw [formOf, formOf, List.foldl_cons, List.foldl_cons]
    rcases List.mem_cons.1 member with rfl | member
    · rw [renameStep_other iteration (iterationId_ne n iteration), renameStep_self]
    · have before : m < n := least n member
      have other : n ≠ m := by
        rintro rfl
        exact String.lt_irrefl n before
      have other' : iterationId n iteration ≠ m := by
        rintro rfl
        exact String.lt_irrefl n (String.lt_trans (lt_iterationId n iteration) before)
      rw [renameStep_other iteration other, renameStep_other iteration other']
      exact ih sorted member

theorem formOf_extends (names : List String) (iteration : Nat) (w : List Char) :
    ∃ more, formOf names iteration w = w ++ more ∧
      ∀ c ∈ more, isQuestionIdChar c = true := by
  have digits : ∀ c ∈ (toString iteration).toList, isQuestionIdChar c = true := by
    intro c member
    simp [isQuestionIdChar, isDigit_toString iteration c member]
  have underscore : ∀ c ∈ ['_'], isQuestionIdChar c = true := List.forall_mem_singleton.2 rfl
  have suffix : ∀ c ∈ (iterationSuffix iteration).toList, isQuestionIdChar c = true := by
    have split : (iterationSuffix iteration).toList =
        ['_'] ++ ((toString iteration).toList ++ (['_'] ++ (toString iteration).toList)) := by
      simp [iterationSuffix]
    simp only [split, List.forall_mem_append]
    exact ⟨underscore, digits, underscore, digits⟩
  induction names generalizing w with
  | nil => exact ⟨[], by simp [formOf], List.forall_mem_nil _⟩
  | cons n names ih =>
    rw [formOf, List.foldl_cons]
    obtain ⟨more, longer, chars⟩ := ih (renameStep iteration w n)
    by_cases same : w = n.toList
    · rw [same, renameStep_self, iterationId_toList, List.append_assoc] at longer
      refine ⟨_, ?_, List.forall_mem_append.2 ⟨suffix, chars⟩⟩
      rw [same, renameStep_self, iterationId_toList]
      exact longer
    · have stays : renameStep iteration w n = w := if_neg same
      rw [stays] at longer ⊢
      exact ⟨more, longer, chars⟩

/-- Without forms among the names a name goes to its form in one step. -/
theorem formOf_eq (form : ∀ n ∈ names, iterationId n iteration ∉ names) (member : n ∈ names) :
    formOf names iteration n.toList = (iterationId n iteration).toList := by
  rw [formOf, foldl_renameStep form names (fun _ => id), iterated, String.ofList_toList,
    if_pos member, iterationId_toList]

theorem formOf_injective_iff (sorted : names.Pairwise (· < ·)) (iteration : Nat) :
    (∀ n ∈ names, ∀ m ∈ names, formOf names iteration n.toList = formOf names iteration m.toList →
      n = m) ↔ ∀ n ∈ names, iterationId n iteration ∉ names := by
  constructor
  · intro injective n member form
    exact iterationId_ne n iteration
      (injective _ form n member (formOf_iterationId sorted iteration member))
  · intro form n member m member' same
    rw [formOf_eq form member, formOf_eq form member', String.toList_inj] at same
    exact (iterationId_inj.1 same).1

theorem isWord_of_isQuestionIdChar {c : Char} (char : isQuestionIdChar c = true) :
    isWord c = true := by
  refine isWord_of_ascii ?_
  simp only [isQuestionIdChar, Bool.or_eq_true] at char
  delta isAsciiWord Char.isAlphanum Char.isAlpha
  simp only [Bool.or_eq_true]
  tauto

/-- Words that are kept or made longer by what identifiers are made of. -/
structure Lengthens (f : List Char → List Char) : Prop extends Settles f where
  longer : ∀ w, ∃ more, f w = w ++ more ∧ ∀ c ∈ more, isQuestionIdChar c = true

/-- Words in their forms stand as they are. -/
theorem formOf_lengthens (sorted : names.Pairwise (· < ·)) (iteration : Nat) :
    Lengthens (formOf names iteration) where
  longer := formOf_extends names iteration
  run w run := by
    obtain ⟨more, longer, chars⟩ := formOf_extends names iteration w
    rw [longer]
    refine ⟨by simp [run.some], fun c member => ?_⟩
    exact (List.mem_append.1 member).elim (run.chars c) fun later =>
      isWord_of_isQuestionIdChar (chars c later)
  twice w _ := by
    have settled (s : String) : formOf names iteration (formOf names iteration s.toList) =
        formOf names iteration s.toList := by
      by_cases name : s ∈ names
      · obtain ⟨m, -, stops, ends⟩ := formOf_name sorted iteration name
        rw [ends, formOf_other iteration stops]
      · rw [formOf_other iteration name, formOf_other iteration name]
    have once := settled (String.ofList w)
    rwa [String.toList_ofList] at once

end Questionnaire.Definition
