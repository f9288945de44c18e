import Questionnaire.Text.Cut

/-! Cutting a text at the first character of a kind: where the cut is known, and when there
is none. -/
namespace Questionnaire.Text
variable {p : Char → Bool} {before : List Char} {c : Char}

theorem cutAtChars?_append (others : ∀ x ∈ before, p x = false) (hit : p c = true)
    (after : List Char) : cutAtChars? p (before ++ c :: after) = some (before, after) := by
  induction before with
  | nil => simp [cutAtChars?, hit]
  | cons x before ih =>
    obtain ⟨other, others⟩ := List.forall_mem_cons.1 others
    simp [cutAtChars?, other, ih others]

theorem cutAtChars?_eq_none {cs : List Char} :
    cutAtChars? p cs = none ↔ ∀ x ∈ cs, p x = false := by
  induction cs with
  | nil => simp [cutAtChars?]
  | cons x cs ih => by_cases hit : p x = true <;> simp [cutAtChars?, hit, ih]

end Questionnaire.Text
