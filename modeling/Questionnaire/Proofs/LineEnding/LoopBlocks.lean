import Questionnaire.Definition.LoopBlock
import Questionnaire.Proofs.LineEnding.Returns

/-! Loop blocks in texts that differ in carriage returns in front of line feeds. The blocks of the
two texts stand at the same places and have the same attributes, since no value runs over a line
end. -/
namespace Questionnaire.Definition

open Text

structure LoopBlock.Alike (b c : LoopBlock) : Prop where
  attributes : Returns b.attributes c.attributes
  body : Returns b.body c.body

namespace Returns
variable {l d : List Char}

theorem takeLoop? (returns : Returns l d) :
    Option.Rel (fun a b => a.1.Alike b.1 ∧ Returns a.2 b.2)
      (LoopBlock.take? l) (LoopBlock.take? d) := by
  have opened : Option.Rel Returns ((Text.stripLeading? LoopBlock.openTag l).filter atWordEnd)
      ((Text.stripLeading? LoopBlock.openTag d).filter atWordEnd) := by
    have read := returns.stripLeading? (show OneLine LoopBlock.openTag by decide)
    generalize Text.stripLeading? LoopBlock.openTag l = a,
      Text.stripLeading? LoopBlock.openTag d = b at read ⊢
    cases read with
    | none => exact .none
    | some rest =>
      have same := rest.any_head? ((isWord_newline rfl).trans (isWord_newline rfl).symm)
      rw [Option.filter_some, Option.filter_some, atWordEnd, atWordEnd, same]
      split
      · exact .some rest
      · exact .none
  refine rel_bind opened fun r₁ s₁ h₁ => ?_
  refine rel_bind (h₁.cutAtChars? rfl rfl) ?_
  rintro ⟨attributes, r₂⟩ ⟨attributes', s₂⟩ ⟨attributesRel, h₂⟩
  refine rel_bind (h₂.cutAtLiteral? (by decide) (by decide)) ?_
  rintro ⟨body, r₃⟩ ⟨body', s₃⟩ ⟨bodyRel, h₃⟩
  exact .some ⟨⟨attributesRel, bodyRel⟩, h₃⟩

/-- What is found in both texts. -/
def FindsAlike (a b : List Char × LoopBlock × List Char) : Prop :=
  Returns a.1 b.1 ∧ a.2.1.Alike b.2.1 ∧ Returns a.2.2 b.2.2

theorem findLoop? (returns : Returns l d) :
    Option.Rel FindsAlike (LoopBlock.find? l) (LoopBlock.find? d) := by
  have missed {c : Char} (newline : isNewline c = true) (cs : List Char) :
      LoopBlock.take? (c :: cs) = none := by
    rcases isNewline_cases newline with rfl | rfl <;> rfl
  induction returns with
  | nil => exact .none
  | @same c l d plain rest ih =>
    rw [LoopBlock.find?, LoopBlock.find?]
    have here := (Returns.same plain rest).takeLoop?
    generalize LoopBlock.take? (c :: l) = a, LoopBlock.take? (c :: d) = b at here ⊢
    cases here with
    | some related => exact .some ⟨.nil, related⟩
    | none => exact rel_map ih fun _ _ related => ⟨.same plain related.1, related.2⟩
  | @feed l d rest ih =>
    have left : LoopBlock.find? ('\n' :: l) =
        (LoopBlock.find? l).map fun found => ('\n' :: found.1, found.2) := by
      rw [LoopBlock.find?, missed (show isNewline '\n' = true from rfl)]
    have right : LoopBlock.find? ('\r' :: '\n' :: d) =
        (LoopBlock.find? d).map fun found => ('\r' :: '\n' :: found.1, found.2) := by
      rw [LoopBlock.find?, missed (show isNewline '\r' = true from rfl), LoopBlock.find?,
        missed (show isNewline '\n' = true from rfl)]
      simp only [Option.map_map]
      rfl
    rw [left, right]
    exact rel_map ih fun _ _ related => ⟨.feed related.1, related.2⟩

theorem skipQuote (returns : Returns l d) :
    Returns (LoopBlock.skipQuote l) (LoopBlock.skipQuote d) := by
  cases returns with
  | nil => exact .nil
  | feed rest => exact .feed rest
  | @same c l d plain rest =>
    by_cases quote : c = '"'
    · subst quote
      exact rest
    · have kept (cs : List Char) : LoopBlock.skipQuote (c :: cs) = c :: cs := by
        unfold LoopBlock.skipQuote
        split
        · next same => exact absurd (List.cons.inj same).1 quote
        · rfl
      rw [kept, kept]
      exact .same plain rest

theorem takeValue? (returns : Returns l d) :
    Option.Rel ReadsSame (LoopBlock.takeValue? l) (LoopBlock.takeValue? d) := by
  have trimmed := returns.dropWhile (p := isBlank) rfl
  rw [LoopBlock.takeValue?, LoopBlock.takeValue?, trimStartChars, trimStartChars]
  generalize l.dropWhile isBlank = x, d.dropWhile isBlank = y at trimmed ⊢
  cases trimmed with
  | nil => exact .none
  | feed => exact .none
  | @same c x y plain rest =>
    by_cases equals : c = '='
    · subst equals
      have trimmed : Returns (trimStartChars x) (trimStartChars y) := rest.dropWhile rfl
      have taken := trimmed.skipQuote.takeRun
        (p := fun c => c != '"' && c != '>' && !isBlank c) rfl rfl
      simp only
      generalize Text.takeRun _ (LoopBlock.skipQuote (trimStartChars x)) = a,
        Text.takeRun _ (LoopBlock.skipQuote (trimStartChars y)) = b at taken ⊢
      obtain ⟨value, x⟩ := a
      obtain ⟨_, y⟩ := b
      obtain ⟨rfl, behind⟩ := taken
      cases value with
      | nil => exact .none
      | cons => exact .some ⟨rfl, Returns.skipQuote behind⟩
    · split
      · next same => exact absurd (List.cons.inj same).1 equals
      · split
        · next same => exact absurd (List.cons.inj same).1 equals
        · exact .none

end Returns

theorem takeValue?_length {cs value rest : List Char}
    (taken : LoopBlock.takeValue? cs = some (value, rest)) : rest.length ≤ cs.length := by
  have skipped (cs : List Char) : (LoopBlock.skipQuote cs).length ≤ cs.length := by
    unfold LoopBlock.skipQuote
    split
    · exact Nat.le_succ _
    · exact Nat.le_refl _
  have trimmed := trimStartChars_length_le cs
  unfold LoopBlock.takeValue? at taken
  split at taken
  · next more same =>
    rw [same, List.length_cons] at trimmed
    dsimp only at taken
    split at taken
    · cases taken
    · obtain ⟨rfl, rfl⟩ := Prod.mk.inj (Option.some.inj taken)
      have first := trimStartChars_length_le more
      have second := skipped (trimStartChars more)
      have third := length_dropWhile_le (fun c => c != '"' && c != '>' && !isBlank c)
        (LoopBlock.skipQuote (trimStartChars more))
      have last := skipped ((LoopBlock.skipQuote (trimStartChars more)).dropWhile
        fun c => c != '"' && c != '>' && !isBlank c)
      simp only [takeRun]
      omega
  · cases taken

theorem takeRun_length {p : Char → Bool} {c : Char} (holds : p c = true) (cs : List Char) :
    (takeRun p (c :: cs)).2.length ≤ cs.length := by
  simp only [takeRun, List.dropWhile_cons, holds, if_true]
  exact length_dropWhile_le p cs

theorem Returns.attributePairs {l d : List Char} (returns : Returns l d) {n m : Nat}
    (left : l.length ≤ n) (right : d.length ≤ m) :
    LoopBlock.attributePairs d m = LoopBlock.attributePairs l n := by
  -- The texts are read with fuel of their own length, which is not the same.
  have done (m : Nat) : LoopBlock.attributePairs [] m = [] := by cases m <;> rfl
  induction n generalizing l d m with
  | zero =>
    obtain rfl := List.length_eq_zero_iff.1 (Nat.le_zero.1 left)
    cases returns
    exact done m
  | succ n ih =>
    cases m with
    | zero =>
      obtain rfl := List.length_eq_zero_iff.1 (Nat.le_zero.1 right)
      cases returns
      exact (done _).symm
    | succ m =>
      have named := returns.dropWhile (p := fun c => !isWord c)
        (congrArg not ((isWord_newline rfl).trans (isWord_newline rfl).symm))
      have leftLength := length_dropWhile_le (fun c => !isWord c) l
      have rightLength := length_dropWhile_le (fun c => !isWord c) d
      have word := List.head?_dropWhile_not (fun c => !isWord c) l
      rw [LoopBlock.attributePairs, LoopBlock.attributePairs]
      generalize l.dropWhile (fun c => !isWord c) = x, d.dropWhile (fun c => !isWord c) = y
        at named leftLength rightLength word ⊢
      cases named with
      | nil => rfl
      | feed => simp [isWord_newline (show isNewline '\n' = true from rfl)] at word
      | @same c x y plain rest =>
        obtain ⟨name, behind⟩ :=
          (Returns.same plain rest).takeRun (isWord_newline rfl) (isWord_newline rfl)
        have run : isWord c = true := by simpa using word
        have leftShorter := takeRun_length run x
        have rightShorter := takeRun_length run y
        rw [List.length_cons] at leftLength rightLength
        simp only
        rw [name]
        generalize Text.takeRun isWord (c :: x) = r, Text.takeRun isWord (c :: y) = s
          at behind leftShorter rightShorter ⊢
        have value := behind.takeValue?
        have leftValue (v t) (taken : LoopBlock.takeValue? r.2 = some (v, t)) :=
          takeValue?_length taken
        have rightValue (v t) (taken : LoopBlock.takeValue? s.2 = some (v, t)) :=
          takeValue?_length taken
        generalize LoopBlock.takeValue? r.2 = a, LoopBlock.takeValue? s.2 = b
          at value leftValue rightValue ⊢
        cases value with
        | none => exact ih behind (by omega) (by omega)
        | @some a b related =>
          obtain ⟨v, t⟩ := a
          obtain ⟨_, u⟩ := b
          obtain ⟨rfl, further⟩ : v = _ ∧ Returns t u := related
          have := leftValue v t rfl
          have := rightValue v u rfl
          exact congrArg (_ :: ·) (ih further (by omega) (by omega))

theorem takeValue?_plain {cs value rest : List Char}
    (taken : LoopBlock.takeValue? cs = some (value, rest)) : '\r' ∉ value := by
  unfold LoopBlock.takeValue? at taken
  split at taken
  · dsimp only at taken
    split at taken
    · cases taken
    · obtain ⟨rfl, -⟩ := Prod.mk.inj (Option.some.inj taken)
      intro member
      cases List.mem_takeWhile_imp member
  · cases taken

theorem attributePairs_plain {cs : List Char} {n : Nat} {pair : List Char × List Char}
    (member : pair ∈ LoopBlock.attributePairs cs n) : '\r' ∉ pair.2 := by
  fun_induction LoopBlock.attributePairs cs n with
  | case1 => cases member
  | case2 => cases member
  | case3 cs n name rest value more taken _ _ ih =>
    rcases List.mem_cons.1 member with rfl | later
    · exact takeValue?_plain taken
    · exact ih later
  | case4 cs n name rest none _ _ ih => exact ih member

theorem LoopBlock.attribute?_plain {b : LoopBlock} {name value : String}
    (found : b.attribute? name = some value) : '\r' ∉ value.toList := by
  obtain ⟨pair, inside, rfl⟩ := Option.map_eq_some_iff.1 found
  rw [String.toList_ofList]
  exact attributePairs_plain (List.mem_reverse.1 (List.mem_of_find?_eq_some inside))

theorem LoopBlock.Alike.attribute? {b c : LoopBlock} (alike : b.Alike c) (name : String) :
    c.attribute? name = b.attribute? name := by
  rw [LoopBlock.attribute?, LoopBlock.attribute?,
    alike.attributes.attributePairs (Nat.le_refl _) (Nat.le_refl _)]

end Questionnaire.Definition
