import Questionnaire.Proofs.Definition.Value

/-! How the options of a header are read. Within their line they can be put in front of
others, or behind them, without being read differently. -/
namespace Questionnaire.Definition

open Text

theorem takeOptionValue_bare {t : List Char} (bare : ∀ v, t ≠ '=' :: v) :
    takeOptionValue t = (none, t) := by
  unfold takeOptionValue
  split
  · next v => exact absurd rfl (bare v)
  · rfl

section LineEnd
variable {t : List Char} (lineEnd : LineEnd t)
include lineEnd

theorem takeOptionValue_lineEnd (cs : List Char) : takeOptionValue (cs ++ t) =
    ((takeOptionValue cs).1, (takeOptionValue cs).2 ++ t) := by
  cases cs with
  | nil =>
    cases t with
    | nil => rfl
    | cons c t =>
      have newline := lineEnd c rfl
      rw [List.nil_append, takeOptionValue_bare]
      · rfl
      · intro v same
        exact ne_of_holds newline rfl (List.cons.inj same).1
  | cons c cs =>
    by_cases equals : c = '='
    · subst equals
      change (some (String.ofList (trimChars (takeValue _ 0 (skipLineBlanks (cs ++ t))).1)),
        (takeValue _ 0 (skipLineBlanks (cs ++ t))).2) = _
      rw [skipLineBlanks_lineEnd lineEnd, takeValue_lineEnd lineEnd]
      rfl
    · have read (more : List Char) : takeOptionValue (c :: more) = (none, c :: more) :=
        takeOptionValue_bare fun v same => equals (List.cons.inj same).1
      rw [List.cons_append, read, read]
      rfl

theorem takeOption?_lineEnd (cs : List Char) : takeOption? (cs ++ t) =
    (takeOption? cs).map fun read => (read.1, read.2 ++ t) := by
  have keyEnd : ∀ c ∈ t.head?, isOptionKeyChar c = false := lineEnd.stop rfl rfl
  cases cs with
  | nil =>
    cases t with
    | nil => rfl
    | cons c t =>
      have plain : c.isAlpha = false := eq_false_of_newline (lineEnd c rfl) rfl rfl
      simp [takeOption?, plain]
  | cons c cs =>
    rw [List.cons_append, takeOption?, takeOption?]
    split
    · simp only [takeWhile_append_stop cs keyEnd, dropWhile_append_stop cs keyEnd,
        skipLineBlanks_lineEnd lineEnd, takeOptionValue_lineEnd lineEnd]
      rfl
    · rfl

theorem stripLeading?_lineEnd {literal : List Char} (oneLine : OneLine literal)
    (cs : List Char) : stripLeading? literal (cs ++ t) = (stripLeading? literal cs).map (· ++ t) := by
  induction literal generalizing cs with
  | nil => rfl
  | cons l ls ih =>
    obtain ⟨plain, oneLine⟩ := List.forall_mem_cons.1 oneLine
    cases cs with
    | nil =>
      cases t with
      | nil => rfl
      | cons d t =>
        have different : (l == d) = false := by
          apply beq_eq_false_iff_ne.2
          rintro rfl
          rw [lineEnd l rfl] at plain
          contradiction
        simp [stripLeading?, different]
    | cons d cs =>
      simp only [List.cons_append, stripLeading?]
      split
      · exact ih oneLine cs
      · rfl

theorem takeNextOption?_lineEnd (cs : List Char) : takeNextOption? (cs ++ t) =
    (takeNextOption? cs).map fun read => (read.1, read.2 ++ t) := by
  rw [takeNextOption?, takeNextOption?, skipLineBlanks_lineEnd lineEnd,
    stripLeading?_lineEnd lineEnd (oneLine_single rfl)]
  cases stripLeading? [','] (skipLineBlanks cs) with
  | none => rfl
  | some rest =>
    change takeOption? (skipLineBlanks (rest ++ t)) = _
    rw [skipLineBlanks_lineEnd lineEnd, takeOption?_lineEnd lineEnd]
    rfl

end LineEnd

theorem takeOptions_none {cs : List Char} (none : takeNextOption? cs = none) :
    takeOptions cs = ([], cs) := by
  unfold takeOptions
  split
  · next read =>
    rw [none] at read
    contradiction
  · rfl

theorem takeOptions_some {cs rest : List Char} {o : String × Option String}
    (read : takeNextOption? cs = some (o, rest)) :
    takeOptions cs = (o :: (takeOptions rest).1, (takeOptions rest).2) := by
  rw [takeOptions.eq_def cs]
  split
  · next read' =>
    rw [read] at read'
    cases read'
    rfl
  · next none =>
    rw [read] at none
    contradiction

theorem takeOptions_lineEnd {t : List Char} (lineEnd : LineEnd t) (cs : List Char) :
    takeOptions (cs ++ t) = ((takeOptions cs).1, (takeOptions cs).2 ++ t) := by
  induction h : cs.length using Nat.strongRecOn generalizing cs with
  | _ n ih =>
    subst h
    have further := takeNextOption?_lineEnd lineEnd cs
    cases read : takeNextOption? cs with
    | none =>
      rw [read] at further
      rw [takeOptions_none read, takeOptions_none further]
    | some next =>
      rw [read] at further
      rw [takeOptions_some read, takeOptions_some further,
        ih _ (takeNextOption?_length read) _ rfl]

/-! ### Options between others -/

def endsValue (c : Char) : Bool := c == ',' || c == ']'

/-- What stands behind an option inside a header. -/
def Follows (t : List Char) : Prop := ∀ c ∈ t.head?, endsValue c = true

def Blanks (cs : List Char) : Prop := ∀ c ∈ cs, isLineBlank c = true

theorem blanks_nil : Blanks [] := by
  intro c member
  cases member

theorem skipLineBlanks_append {bs t : List Char} (blanks : Blanks bs)
    (stop : ∀ c ∈ t.head?, isLineBlank c = false) : skipLineBlanks (bs ++ t) = t := by
  rw [skipLineBlanks, List.dropWhile_append_of_pos blanks]
  cases t with
  | nil => rfl
  | cons c t => simp [stop c rfl]

theorem blanks_takeWhile (cs : List Char) : Blanks (cs.takeWhile isLineBlank) :=
  fun _ member => List.mem_takeWhile_imp member

theorem blanks_append_skip (cs : List Char) :
    cs.takeWhile isLineBlank ++ skipLineBlanks cs = cs := List.takeWhile_append_dropWhile

/-- A text that is read as an option wherever another one, or the end of the header, follows. -/
structure OptionText (p : List Char) (o : String × Option String) : Prop where
  oneLine : OneLine p
  paired : Paired p
  reads : ∀ t, Follows t → takeNextOption? (p ++ t) = some (o, t)

theorem Blanks.oneLine {cs : List Char} (blanks : Blanks cs) : OneLine cs :=
  oneLine_of_holds blanks rfl rfl

theorem Blanks.paired {cs : List Char} (blanks : Blanks cs) : Paired cs :=
  paired_of_holds blanks rfl rfl

theorem Follows.stop {t : List Char} (follows : Follows t) {p : Char → Bool}
    (comma : p ',' = false) (bracket : p ']' = false) : ∀ c ∈ t.head?, p c = false := by
  intro c head
  have ends := follows c head
  simp only [endsValue, Bool.or_eq_true, beq_iff_eq] at ends
  rcases ends with rfl | rfl
  · exact comma
  · exact bracket

theorem Follows.valueEnd {t : List Char} (follows : Follows t) : ValueEnd endsValue t := by
  cases t with
  | nil => exact .nil
  | cons c t =>
    have ends := follows c rfl
    exact .stop (ne_of_holds ends rfl) (ne_of_holds ends rfl) (by rw [ends, Bool.or_true])

theorem ValueEnd.unblank {t : List Char} (ends : ValueEnd endsValue t) :
    ∀ c ∈ t.head?, isLineBlank c = false := by
  intro c head
  cases ends with
  | nil => cases head
  | stop opens closes ends =>
    obtain rfl := Option.some.inj head
    exact isLineBlank_eq_false (p := fun c => isNewline c || endsValue c) ends rfl rfl
  | closing => cases head; rfl
  | unclosed => cases head; rfl

section Option
variable {before inside behind lead key value : List Char} {c : Char}

/-- The key of an option, with the blanks and the comma in front of it. -/
def keyText (before inside : List Char) (c : Char) (key behind : List Char) : List Char :=
  before ++ ',' :: (inside ++ c :: (key ++ behind))

/-- The places of an option where blanks may stand, and the characters of its key. -/
structure KeyText (before inside : List Char) (c : Char) (key behind : List Char) : Prop where
  before : Blanks before
  inside : Blanks inside
  alpha : c.isAlpha = true
  key : ∀ x ∈ key, isOptionKeyChar x = true
  behind : Blanks behind

theorem KeyText.oneLine (shape : KeyText before inside c key behind) :
    OneLine (keyText before inside c key behind) := by
  have start : isNewline c = false := isNewline_eq_false shape.alpha rfl rfl
  have letters : OneLine key := oneLine_of_holds shape.key rfl rfl
  exact shape.before.oneLine.append (List.forall_mem_cons.2 ⟨rfl, shape.inside.oneLine.append
    (List.forall_mem_cons.2 ⟨start, letters.append shape.behind.oneLine⟩)⟩)

theorem KeyText.paired (shape : KeyText before inside c key behind) :
    Paired (keyText before inside c key behind) := by
  have letters : Paired key := paired_of_holds shape.key rfl rfl
  have word : Paired (c :: (key ++ behind)) :=
    .cons (ne_of_holds shape.alpha rfl) (ne_of_holds shape.alpha rfl)
      (letters.append shape.behind.paired)
  exact shape.before.paired.append (.cons (by decide) (by decide) (shape.inside.paired.append word))

/-- Behind the key of an option its value is looked for. -/
theorem KeyText.reads (shape : KeyText before inside c key behind) {t : List Char}
    (blank : ∀ x ∈ t.head?, isLineBlank x = false)
    (stop : ∀ x ∈ (behind ++ t).head?, isOptionKeyChar x = false) :
    takeNextOption? (keyText before inside c key behind ++ t) =
      some ((String.ofList ((c :: key).map Char.toLower), (takeOptionValue t).1),
        (takeOptionValue t).2) := by
  have alpha : ∀ x ∈ (c :: (key ++ (behind ++ t))).head?, isLineBlank x = false := by
    intro x head
    obtain rfl := Option.some.inj head
    exact isLineBlank_eq_false shape.alpha rfl rfl
  have whole : keyText before inside c key behind ++ t =
      before ++ ',' :: (inside ++ c :: (key ++ (behind ++ t))) := by
    simp [keyText]
  rw [whole, takeNextOption?, skipLineBlanks_append shape.before (by
    intro x head
    cases head
    rfl)]
  change takeOption? (skipLineBlanks (inside ++ c :: (key ++ (behind ++ t)))) = _
  rw [skipLineBlanks_append shape.inside alpha, takeOption?, if_pos shape.alpha,
    takeWhile_append_stop key stop, dropWhile_append_stop key stop,
    List.takeWhile_eq_self_iff.2 shape.key, List.dropWhile_eq_nil_iff.2 shape.key, List.nil_append,
    skipLineBlanks_append shape.behind blank]

theorem keyStop (shape : KeyText before inside c key behind) {t : List Char}
    (stop : ∀ x ∈ t.head?, isOptionKeyChar x = false) :
    ∀ x ∈ (behind ++ t).head?, isOptionKeyChar x = false := by
  have blanks := shape.behind
  cases behind with
  | nil => exact stop
  | cons b behind =>
    intro x head
    obtain rfl := Option.some.inj head
    rcases isLineBlank_cases (blanks b List.mem_cons_self) with rfl | rfl <;> rfl

/-- An option without a value. -/
theorem OptionText.flag (shape : KeyText before inside c key behind) :
    OptionText (keyText before inside c key behind)
      (String.ofList ((c :: key).map Char.toLower), none) := by
  refine ⟨shape.oneLine, shape.paired, fun t follows => ?_⟩
  rw [shape.reads (follows.stop rfl rfl) (keyStop shape (follows.stop rfl rfl))]
  rw [takeOptionValue_bare]
  rintro v rfl
  cases follows '=' rfl

/-- An option with a value. -/
theorem OptionText.valued (shape : KeyText before inside c key behind) (blanks : Blanks lead)
    (text : ValueText endsValue value) (start : ∀ x ∈ value.head?, isLineBlank x = false) :
    OptionText (keyText before inside c key behind ++ '=' :: (lead ++ value))
      (String.ofList ((c :: key).map Char.toLower), some (String.ofList (trimChars value))) := by
  refine ⟨shape.oneLine.append (List.forall_mem_cons.2 ⟨rfl, blanks.oneLine.append text.oneLine⟩),
    shape.paired.append (.cons (by decide) (by decide) (blanks.paired.append text.paired)),
    fun t follows => ?_⟩
  have first : ∀ x ∈ (value ++ t).head?, isLineBlank x = false := by
    cases value with
    | nil => exact follows.stop rfl rfl
    | cons x value => exact start
  have equals : ∀ x ∈ ('=' :: (lead ++ (value ++ t))).head?, isOptionKeyChar x = false := by
    intro x head
    cases head
    rfl
  rw [List.append_assoc, List.cons_append, List.append_assoc, shape.reads (by
    intro x head
    cases head
    rfl) (keyStop shape equals)]
  change some ((_, some (String.ofList (trimChars (takeValue endsValue 0
    (skipLineBlanks (lead ++ (value ++ t)))).1))),
      (takeValue endsValue 0 (skipLineBlanks (lead ++ (value ++ t)))).2) = _
  rw [skipLineBlanks_append blanks first, takeValue_complete text follows.valueEnd]

/-- How an option is written. -/
inductive OptionShape : List Char → String × Option String → Prop
  | flag {before inside behind key : List Char} {c : Char}
      (shape : KeyText before inside c key behind) :
      OptionShape (keyText before inside c key behind)
        (String.ofList ((c :: key).map Char.toLower), none)
  | valued {before inside behind lead key value : List Char} {c : Char}
      (shape : KeyText before inside c key behind) (blanks : Blanks lead)
      (text : ValueText endsValue value) (start : ∀ x ∈ value.head?, isLineBlank x = false) :
      OptionShape (keyText before inside c key behind ++ '=' :: (lead ++ value))
        (String.ofList ((c :: key).map Char.toLower), some (String.ofList (trimChars value)))

theorem OptionShape.text {p : List Char} {o : String × Option String} (shape : OptionShape p o) :
    OptionText p o := by
  cases shape with
  | flag shape => exact .flag shape
  | valued shape blanks text start => exact .valued shape blanks text start

/-- Behind the key of an option its value is read, or it has none. -/
theorem KeyText.optionShape (shape : KeyText before inside c key behind) {t : List Char}
    (start : ∀ x ∈ t.head?, isLineBlank x = false) :
    ∃ v, t = v ++ (takeOptionValue t).2 ∧
      OptionShape (keyText before inside c key behind ++ v)
        (String.ofList ((c :: key).map Char.toLower), (takeOptionValue t).1) ∧
      ∀ x ∈ (takeOptionValue t).2.head?, isLineBlank x = false := by
  by_cases equals : ∃ v, t = '=' :: v
  · obtain ⟨v, rfl⟩ := equals
    have joined := takeValue_append endsValue 0 (skipLineBlanks v)
    obtain ⟨text, ends⟩ := takeValue_sound endsValue (skipLineBlanks v)
    have first : ∀ x ∈ (takeValue endsValue 0 (skipLineBlanks v)).1.head?,
        isLineBlank x = false := by
      intro x head
      apply head?_dropWhile_not isLineBlank v
      change x ∈ (skipLineBlanks v).head?
      rw [← joined, List.head?_append, Option.mem_def.1 head]
      rfl
    refine ⟨_, ?_, .valued shape (blanks_takeWhile v) text first, ends.unblank⟩
    change '=' :: v = '=' :: (v.takeWhile isLineBlank ++
      (takeValue endsValue 0 (skipLineBlanks v)).1) ++ (takeValue endsValue 0 (skipLineBlanks v)).2
    rw [List.cons_append, List.append_assoc, joined, blanks_append_skip]
  · rw [takeOptionValue_bare fun v same => equals ⟨v, same⟩]
    refine ⟨[], rfl, ?_, start⟩
    rw [List.append_nil]
    exact .flag shape

end Option

theorem stripLeading?_single {c : Char} {cs rest : List Char}
    (stripped : stripLeading? [c] cs = some rest) : cs = c :: rest :=
  stripLeading?_eq_some_iff.1 stripped

/-- What is read as an option is written as one. -/
theorem takeNextOption?_sound {cs rest : List Char} {o : String × Option String}
    (read : takeNextOption? cs = some (o, rest)) :
    ∃ p, cs = p ++ rest ∧ OptionShape p o ∧ ∀ c ∈ rest.head?, isLineBlank c = false := by
  simp only [takeNextOption?, Option.bind_eq_bind, Option.bind_eq_some_iff] at read
  obtain ⟨named, comma, read⟩ := read
  have comma := stripLeading?_single comma
  have front := blanks_append_skip cs
  rw [comma] at front
  have middle := blanks_append_skip named
  cases text : skipLineBlanks named with
  | nil =>
    rw [text] at read
    cases read
  | cons c more =>
    rw [text] at read middle
    rw [takeOption?] at read
    split at read
    · next alpha =>
      have shape : KeyText (cs.takeWhile isLineBlank) (named.takeWhile isLineBlank) c
          (more.takeWhile isOptionKeyChar)
          ((more.dropWhile isOptionKeyChar).takeWhile isLineBlank) :=
        ⟨blanks_takeWhile _, blanks_takeWhile _, alpha, fun x member => List.mem_takeWhile_imp member,
          blanks_takeWhile _⟩
      have whole : cs = keyText (cs.takeWhile isLineBlank) (named.takeWhile isLineBlank) c
          (more.takeWhile isOptionKeyChar)
          ((more.dropWhile isOptionKeyChar).takeWhile isLineBlank) ++
          skipLineBlanks (more.dropWhile isOptionKeyChar) := by
        simp only [keyText, List.append_assoc, List.cons_append, blanks_append_skip,
          List.takeWhile_append_dropWhile, middle, front]
      have start : ∀ x ∈ (skipLineBlanks (more.dropWhile isOptionKeyChar)).head?,
          isLineBlank x = false := head?_dropWhile_not isLineBlank _
      obtain ⟨v, value, option, unblank⟩ := shape.optionShape start
      cases read
      refine ⟨_, ?_, option, unblank⟩
      rw [List.append_assoc, ← value]
      exact whole
    · contradiction

/-- A text that is read as options, whatever else the header holds behind it. -/
structure OptionsText (p : List Char) (os : List (String × Option String)) : Prop where
  oneLine : OneLine p
  paired : Paired p
  reads : ∀ t, Follows t → takeOptions (p ++ t) = (os ++ (takeOptions t).1, (takeOptions t).2)

namespace OptionsText
variable {p q : List Char} {os qs : List (String × Option String)}

theorem nil : OptionsText [] [] := by
  refine ⟨?_, paired_nil, fun t _ => rfl⟩
  intro c member
  cases member

theorem single {o : String × Option String} (text : OptionText p o) : OptionsText p [o] := by
  refine ⟨text.oneLine, text.paired, fun t follows => ?_⟩
  rw [takeOptions_some (text.reads t follows)]
  rfl

theorem append (first : OptionsText p os) (second : OptionsText q qs) (follows : Follows q) :
    OptionsText (p ++ q) (os ++ qs) := by
  refine ⟨first.oneLine.append second.oneLine, first.paired.append second.paired, fun t behind => ?_⟩
  have follows : Follows (q ++ t) := by
    cases q with
    | nil => exact behind
    | cons c q => exact follows
  rw [List.append_assoc, first.reads _ follows, second.reads _ behind, List.append_assoc]

end OptionsText

/-- The first option behind what is no blank begins with its comma. -/
theorem comma_of_takeNextOption? {cs : List Char} {read : (String × Option String) × List Char}
    (taken : takeNextOption? cs = some read) (unblank : ∀ c ∈ cs.head?, isLineBlank c = false) :
    ∃ more, cs = ',' :: more := by
  simp only [takeNextOption?, Option.bind_eq_bind, Option.bind_eq_some_iff] at taken
  obtain ⟨named, comma, -⟩ := taken
  have comma := stripLeading?_single comma
  have same : skipLineBlanks cs = cs := by
    cases cs with
    | nil => rfl
    | cons c cs => rw [skipLineBlanks, List.dropWhile_cons, if_neg (by simp [unblank c rfl])]
  exact ⟨named, same.symm.trans comma⟩

/-- What is read as options is so wherever more of the header follows. -/
theorem takeOptions_sound (cs : List Char) : ∃ p, cs = p ++ (takeOptions cs).2 ∧
    OptionsText p (takeOptions cs).1 ∧
    ((∀ c ∈ cs.head?, isLineBlank c = false) → Follows p ∧
      ∀ c ∈ (takeOptions cs).2.head?, isLineBlank c = false) := by
  induction h : cs.length using Nat.strongRecOn generalizing cs with
  | _ n ih =>
    subst h
    cases read : takeNextOption? cs with
    | none =>
      rw [takeOptions_none read]
      refine ⟨[], rfl, .nil, fun unblank => ⟨?_, unblank⟩⟩
      intro c head
      cases head
    | some next =>
      obtain ⟨o, rest⟩ := next
      have shorter := takeNextOption?_length read
      obtain ⟨p, same, shape, unblank⟩ := takeNextOption?_sound read
      obtain ⟨q, further, texts, rests⟩ := ih rest.length shorter rest rfl
      obtain ⟨follows, ends⟩ := rests unblank
      rw [takeOptions_some read]
      refine ⟨p ++ q, ?_, OptionsText.append (.single shape.text) texts follows,
        fun start => ⟨?_, ends⟩⟩
      · rw [List.append_assoc, ← further]
        exact same
      · obtain ⟨more, comma⟩ := comma_of_takeNextOption? read start
        cases p with
        | nil =>
          rw [same] at shorter
          exact absurd shorter (Nat.lt_irrefl _)
        | cons d p =>
          intro c head
          obtain rfl := Option.some.inj head
          rw [comma] at same
          rw [← (List.cons.inj same).1]
          rfl

end Questionnaire.Definition
