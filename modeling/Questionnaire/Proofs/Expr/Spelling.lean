import Questionnaire.Expr.Token
import Questionnaire.Proofs.Text.Cut
import Questionnaire.Proofs.Text.Words

/-! How the tokens of condition expressions are written. A token reaches as far as it can,
so its spelling depends on the character that follows it, and on no more. -/
namespace Questionnaire.Expr.Token

open Text

def IsName (w : List Char) : Prop :=
  ∃ c cs, w = c :: cs ∧ isIdentStart c = true ∧ ∀ x ∈ cs, isIdentChar x = true

inductive IsNumeral : List Char → Prop
  | whole {digits : List Char} (nonempty : digits ≠ []) (chars : ∀ c ∈ digits, c.isDigit = true) :
      IsNumeral digits
  | fraction {digits more : List Char} (nonempty : digits ≠ []) (further : more ≠ [])
      (chars : ∀ c ∈ digits, c.isDigit = true) (behind : ∀ c ∈ more, c.isDigit = true) :
      IsNumeral (digits ++ '.' :: more)

def isNumeralChar (c : Char) : Bool := c.isDigit || c == '.'

def isReferenceChar (c : Char) : Bool := isIdentChar c || c == '.'

/-- The spelling of a token in front of a text. -/
inductive Spells : Token → List Char → List Char → Prop
  | number {digits rest : List Char} (numeral : IsNumeral digits)
      (ends : Ends isNumeralChar rest) : Spells (number digits) digits rest
  | text {quote : Char} {inner : List Char} (rest : List Char) (quotes : quote = '"' ∨ quote = '\'')
      (other : quote ∉ inner) : Spells (text (String.ofList inner)) (quote :: inner ++ [quote]) rest
  | word {head rest : List Char} (named : IsName head)
      (ends : Ends isReferenceChar rest) : Spells (word head none) head rest
  | field {head tail rest : List Char} (named : IsName head) (within : IsName tail)
      (ends : Ends isIdentChar rest) : Spells (word head (some tail)) (head ++ '.' :: tail) rest
  | index {rest : List Char} (ends : Ends isIdentChar rest) : Spells loopIndex ['$', 'i'] rest
  | symbol {t : Token} {spelling rest : List Char} (nonempty : spelling ≠ [])
      (chars : ∀ c ∈ spelling, isWord c = false)
      (ahead : ∀ further, further.head? = rest.head? →
        takeSymbol? (spelling ++ further) = some (t, further)) : Spells t spelling rest

/-- A text that falls into tokens, with blanks around them. -/
inductive Spelled : List Char → List Token → Prop
  | nil : Spelled [] []
  | blank {c : Char} {cs : List Char} {ts : List Token} (blank : isBlank c = true)
      (rest : Spelled cs ts) : Spelled (c :: cs) ts
  | token {t : Token} {spelling rest : List Char} {ts : List Token}
      (spells : Spells t spelling rest)
      (behind : Spelled rest ts) : Spelled (spelling ++ rest) (t :: ts)

variable {cs rest w digits : List Char} {t : Token} {ts : List Token} {c : Char}

/-! Names and numerals -/

theorem IsName.chars (named : IsName w) : ∀ x ∈ w, isIdentChar x = true := by
  obtain ⟨c, cs, rfl, start, chars⟩ := named
  intro x member
  rcases List.mem_cons.1 member with rfl | member
  · simp only [isIdentStart, Bool.or_eq_true] at start
    simp only [isIdentChar, Char.isAlphanum, Bool.or_eq_true]
    exact start.imp .inl id
  · exact chars x member

theorem IsName.run (named : IsName w) : IsRun w where
  some := by
    obtain ⟨c, cs, rfl, -⟩ := named
    simp
  chars x member := isWord_of_ascii (named.chars x member)

theorem IsName.append (named : IsName w) {more : List Char}
    (chars : ∀ x ∈ more, isIdentChar x = true) : IsName (w ++ more) := by
  obtain ⟨c, cs, rfl, start, rest⟩ := named
  refine ⟨c, cs ++ more, rfl, start, fun x member => ?_⟩
  exact (List.mem_append.1 member).elim (rest x) (chars x)

theorem takeIdent?_eq_some_iff : takeIdent? cs = some (w, rest) ↔
    cs = w ++ rest ∧ IsName w ∧ Ends isIdentChar rest := by
  constructor
  · intro taken
    cases cs with
    | nil => cases taken
    | cons c cs =>
      simp only [takeIdent?] at taken
      split at taken
      · next start =>
        cases taken
        refine ⟨?_, ⟨c, _, rfl, start, fun x member => ?_⟩, dropWhile_ends _ cs⟩
        · rw [List.cons_append, List.takeWhile_append_dropWhile]
        · exact List.all_eq_true.1 List.all_takeWhile x member
      · cases taken
  · rintro ⟨rfl, ⟨c, cs, rfl, start, chars⟩, ends⟩
    obtain ⟨taken, left⟩ := takeWhile_append_ends chars ends
    rw [List.cons_append, takeIdent?, if_pos start, taken, left]

theorem takeNumber_complete (numeral : IsNumeral digits)
    (ends : Ends isNumeralChar rest) :
    takeNumber (digits ++ rest) = (digits, rest) := by
  have stops : Ends Char.isDigit rest :=
    Ends.mono (fun c digit => by simp [isNumeralChar, digit]) ends
  cases numeral with
  | whole nonempty chars =>
    obtain ⟨taken, left⟩ := takeWhile_append_ends chars stops
    simp only [takeNumber, taken, left]
    split
    · cases ends
    · rfl
  | @fraction digits more nonempty further chars behind =>
    have point : Ends Char.isDigit ('.' :: (more ++ rest)) := rfl
    obtain ⟨taken, left⟩ := takeWhile_append_ends chars point
    obtain ⟨taken', left'⟩ := takeWhile_append_ends behind stops
    rw [List.append_assoc, List.cons_append]
    simp only [takeNumber, taken, left, taken', left']
    rw [if_neg (by simpa using further)]

theorem takeNumber_sound {rest : List Char} (start : c.isDigit = true)
    (taken : takeNumber (c :: cs) = (digits, rest)) (noPoint : ∀ cs, rest ≠ '.' :: cs) :
    c :: cs = digits ++ rest ∧ IsNumeral digits ∧ Ends isNumeralChar rest := by
  have nonempty : (c :: cs).takeWhile Char.isDigit ≠ [] := by simp [start]
  have chars : ∀ x ∈ (c :: cs).takeWhile Char.isDigit, x.isDigit = true :=
    List.all_eq_true.1 List.all_takeWhile
  have whole := List.takeWhile_append_dropWhile (p := Char.isDigit) (l := c :: cs)
  have stops {rest : List Char} (ends : Ends Char.isDigit rest) (noPoint : ∀ cs, rest ≠ '.' :: cs) :
      Ends isNumeralChar rest := by
    cases rest with
    | nil => rfl
    | cons c rest =>
      have other : c.isDigit = false := ends
      have different : c ≠ '.' := fun same => noPoint rest (by rw [same])
      simp [Ends, isNumeralChar, other, different]
  have ends := dropWhile_ends Char.isDigit (c :: cs)
  simp only [takeNumber] at taken
  split at taken
  · next more behind =>
    split at taken
    · cases taken
      exact (noPoint _ rfl).elim
    · next some =>
      cases taken
      have split := List.takeWhile_append_dropWhile (p := Char.isDigit) (l := more)
      refine ⟨?_, .fraction nonempty (by simpa using some) chars
        (List.all_eq_true.1 List.all_takeWhile), stops (dropWhile_ends _ more) noPoint⟩
      rw [List.append_assoc, List.cons_append, split, ← behind, whole]
  · cases taken
    exact ⟨whole.symm, .whole nonempty chars, stops ends noPoint⟩

/-! Symbols -/

theorem not_ahead {further : List Char} (none : ∀ cs, rest = c :: cs → False)
    (same : further.head? = rest.head?) (cs : List Char) (begins : further = c :: cs) : False := by
  rw [begins, List.head?_cons, eq_comm, List.head?_eq_some_iff] at same
  obtain ⟨_, same⟩ := same
  exact none _ same

theorem takeSymbol?_sound (taken : takeSymbol? cs = some (t, rest)) :
    (t = loopIndex ∧ cs = '$' :: 'i' :: rest ∧ Ends isIdentChar rest) ∨
      ∃ spelling, cs = spelling ++ rest ∧ spelling ≠ [] ∧ (∀ c ∈ spelling, isWord c = false) ∧
        ∀ further, further.head? = rest.head? →
          takeSymbol? (spelling ++ further) = some (t, further) := by
  unfold takeSymbol? at taken
  split at taken
  -- Four symbols are also the beginning of longer ones.
  case h_4 _ _ single =>
    cases taken
    refine .inr ⟨['='], rfl, by simp, others_of_all rfl, fun further same => ?_⟩
    rw [List.singleton_append, takeSymbol?]
    exact not_ahead single same
  case h_6 _ _ single =>
    cases taken
    refine .inr ⟨['!'], rfl, by simp, others_of_all rfl, fun further same => ?_⟩
    rw [List.singleton_append, takeSymbol?]
    exact not_ahead single same
  case h_9 _ _ single single' =>
    cases taken
    refine .inr ⟨['<'], rfl, by simp, others_of_all rfl, fun further same => ?_⟩
    rw [List.singleton_append, takeSymbol?]
    · exact not_ahead single same
    · exact not_ahead single' same
  case h_11 _ _ single =>
    cases taken
    refine .inr ⟨['>'], rfl, by simp, others_of_all rfl, fun further same => ?_⟩
    rw [List.singleton_append, takeSymbol?]
    exact not_ahead single same
  case h_20 =>
    split at taken
    · cases taken
    · next ends =>
      cases taken
      exact .inl ⟨rfl, rfl, by simpa [Ends] using ends⟩
  case h_21 => cases taken
  all_goals
    cases taken
    refine .inr ?_
    first
      | exact ⟨[_, _], rfl, by simp, others_of_all rfl, fun _ _ => rfl⟩
      | exact ⟨[_], rfl, by simp, others_of_all rfl, fun _ _ => rfl⟩

/-! Tokens -/

theorem isWord_of_isDigit (digit : c.isDigit = true) : isWord c = true :=
  isWord_of_ascii (by simp [isAsciiWord, Char.isAlphanum, digit])

theorem isIdentChar_of_start (start : isIdentStart c = true) : isIdentChar c = true := by
  simp only [isIdentStart, Bool.or_eq_true] at start
  simp only [isIdentChar, Char.isAlphanum, Bool.or_eq_true]
  exact start.imp .inl id

theorem isDigit_of_start (start : isIdentStart c = true) : c.isDigit = false := by
  refine Bool.eq_false_iff.2 fun digit => ?_
  delta isIdentStart Char.isAlpha Char.isUpper Char.isLower at start
  simp only [Char.isDigit, Bool.or_eq_true, Bool.and_eq_true, decide_eq_true_eq, beq_iff_eq,
    ge_iff_le, UInt32.le_iff_toNat_le] at start digit
  have large : c.val.toNat ≤ 57 := digit.2
  rcases start with (⟨upper, -⟩ | ⟨lower, -⟩) | rfl
  · exact absurd (Nat.le_trans upper large) (by decide)
  · exact absurd (Nat.le_trans lower large) (by decide)
  · exact absurd large (by decide)

theorem IsNumeral.head (numeral : IsNumeral digits) :
    ∃ c cs, digits = c :: cs ∧ c.isDigit = true := by
  have first {digits : List Char} (nonempty : digits ≠ [])
      (chars : ∀ c ∈ digits, c.isDigit = true) :
      ∃ c cs, digits = c :: cs ∧ c.isDigit = true := by
    cases digits with
    | nil => exact absurd rfl nonempty
    | cons c cs => exact ⟨c, cs, rfl, chars c List.mem_cons_self⟩
  cases numeral with
  | whole nonempty chars => exact first nonempty chars
  | fraction nonempty _ chars _ =>
    obtain ⟨c, cs, rfl, digit⟩ := first nonempty chars
    exact ⟨c, _, rfl, digit⟩

theorem take?_name (start : isIdentStart c = true) (cs : List Char) :
    take? (c :: cs) = takeWord? (c :: cs) := by
  have quoteless : (c == '"' || c == '\'') = false := by
    refine Bool.eq_false_iff.2 fun quote => ?_
    rcases Bool.or_eq_true_iff.1 quote with same | same
    all_goals rw [beq_iff_eq.1 same] at start; revert start; decide
  rw [take?, if_neg (by simp [isDigit_of_start start]), if_neg (by simp [quoteless]), if_pos start]

theorem take?_of_spells {spelling : List Char} (spells : Spells t spelling rest) :
    take? (spelling ++ rest) = some (t, rest) := by
  cases spells with
  | @number digits _ numeral ends =>
    have taken := takeNumber_complete numeral ends
    obtain ⟨c, cs, rfl, digit⟩ := numeral.head
    rw [List.cons_append] at taken ⊢
    rw [take?, if_pos digit, taken]
  | @text quote inner rest quotes other =>
    have cut : cutAtChars? (· == quote) (inner ++ quote :: rest) = some (inner, rest) := by
      refine cutAtChars?_append (p := (· == quote)) (fun x member => ?_) (beq_self_eq_true _) rest
      exact beq_eq_false_iff_ne.2 fun same => other (same ▸ member)
    have digitless : quote.isDigit = false := by rcases quotes with rfl | rfl <;> decide
    have quoted : (quote == '"' || quote == '\'') = true := by
      rcases quotes with rfl | rfl <;> decide
    rw [List.append_assoc, List.cons_append, take?, if_neg (by simp [digitless]), if_pos quoted]
    simp only [List.singleton_append, takeQuoted?, cut, Option.map_some]
  | word named ends =>
    have stops : Ends isIdentChar rest := ends.mono fun c char => by simp [isReferenceChar, char]
    have taken := takeIdent?_eq_some_iff.2 ⟨rfl, named, stops⟩
    obtain ⟨c, cs, rfl, start, -⟩ := named
    rw [List.cons_append, take?_name start, takeWord?, ← List.cons_append, taken, Option.map_some]
    cases rest with
    | nil => rfl
    | cons x rest =>
      have noPoint : x ≠ '.' := by
        rintro rfl
        cases ends
      simp [noPoint]
  | @field head tail _ named within ends =>
    have point : Ends isIdentChar ('.' :: (tail ++ rest)) := rfl
    have taken := takeIdent?_eq_some_iff.2 ⟨rfl, named, point⟩
    have taken' := takeIdent?_eq_some_iff.2 ⟨rfl, within, ends⟩
    obtain ⟨c, cs, rfl, start, -⟩ := named
    rw [List.append_assoc, List.cons_append, List.cons_append, take?_name start, takeWord?,
      ← List.cons_append, taken, Option.map_some]
    simp only [taken']
  | index ends =>
    have stops : ¬rest.head?.any isIdentChar = true := Bool.eq_false_iff.1 ends
    have taken : takeSymbol? ('$' :: 'i' :: rest) = some (loopIndex, rest) := by
      rw [takeSymbol?, if_neg stops]
    exact taken
  | symbol nonempty chars ahead =>
    have taken := ahead rest rfl
    cases spelling with
    | nil => exact absurd rfl nonempty
    | cons c cs =>
      have other := chars c List.mem_cons_self
      have digitless : ¬c.isDigit = true := fun digit => by
        rw [isWord_of_isDigit digit] at other
        cases other
      have startless : ¬isIdentStart c = true := fun start => by
        rw [isWord_of_ascii (isIdentChar_of_start start)] at other
        cases other
      have quoteless : ¬(c == '"' || c == '\'') = true := fun quote => by
        rcases Bool.or_eq_true_iff.1 quote with same | same
        all_goals rw [beq_iff_eq.1 same] at taken; cases taken
      rw [List.cons_append] at taken ⊢
      rw [take?, if_neg digitless, if_neg quoteless, if_neg startless, taken]

theorem spells_of_takeWord? (taken : takeWord? cs = some (t, rest))
    (noPoint : ∀ more, rest ≠ '.' :: more) :
    ∃ spelling, cs = spelling ++ rest ∧ Spells t spelling rest := by
  obtain ⟨⟨head, behind⟩, ident, split⟩ := Option.map_eq_some_iff.1 taken
  obtain ⟨rfl, named, ends⟩ := takeIdent?_eq_some_iff.1 ident
  clear taken
  simp only at split
  split at split
  · next more =>
    split at split
    · next tail rest' within =>
      cases split
      obtain ⟨rfl, within, ends⟩ := takeIdent?_eq_some_iff.1 within
      exact ⟨head ++ '.' :: tail, by simp, .field named within ends⟩
    · cases split
      exact (noPoint _ rfl).elim
  · next other =>
    cases split
    refine ⟨head, rfl, .word named ?_⟩
    cases rest with
    | nil => rfl
    | cons x rest =>
      have identless : isIdentChar x = false := ends
      have different : x ≠ '.' := fun same => other rest (by rw [same])
      simp [Ends, isReferenceChar, identless, different]

theorem spells_of_take? (taken : take? cs = some (t, rest)) (noPoint : ∀ more, rest ≠ '.' :: more) :
    ∃ spelling, cs = spelling ++ rest ∧ Spells t spelling rest := by
  cases cs with
  | nil => cases taken
  | cons c cs =>
    rw [take?] at taken
    split at taken
    · next digit =>
      cases number : takeNumber (c :: cs) with
      | mk digits behind =>
        rw [number] at taken
        cases taken
        obtain ⟨text, numeral, ends⟩ := takeNumber_sound digit number noPoint
        exact ⟨digits, text, .number numeral ends⟩
    · split at taken
      · next quoted =>
        obtain ⟨⟨inner, behind⟩, cut, taken⟩ := Option.map_eq_some_iff.1 taken
        obtain ⟨⟨chars, behind'⟩, cut, same⟩ := Option.map_eq_some_iff.1 cut
        cases taken
        cases same
        obtain ⟨quote, closes, rfl, others⟩ := cutAtChars?_eq_some cut
        obtain rfl : quote = c := beq_iff_eq.1 closes
        refine ⟨quote :: chars ++ [quote], by simp, .text rest (by simpa using quoted) ?_⟩
        exact fun member => by simpa using others quote member
      · split at taken
        · exact spells_of_takeWord? taken noPoint
        · rcases takeSymbol?_sound taken with ⟨rfl, text, ends⟩ | ⟨spelling, text, symbol⟩
          · exact ⟨['$', 'i'], text, .index ends⟩
          · exact ⟨spelling, text, .symbol symbol.1 symbol.2.1 symbol.2.2⟩

/-! Texts -/

theorem ofChars?_eq (cs : List Char) : ofChars? cs =
    match cs.dropWhile isBlank with
    | [] => some []
    | c :: cs => (take? (c :: cs)).bind fun (token, rest) =>
      if rest.length < (c :: cs).length then (ofChars? rest).map (token :: ·) else none := by
  rw [ofChars?]
  split
  · next all => rw [all]
  · next c cs' first =>
    simp only [first]
    cases take? (c :: cs') with
    | none => rfl
    | some taken => rfl

theorem Spelled.blanks {blanks : List Char} (spelled : Spelled cs ts)
    (all : ∀ c ∈ blanks, isBlank c = true) : Spelled (blanks ++ cs) ts := by
  induction blanks with
  | nil => exact spelled
  | cons c blanks ih =>
    obtain ⟨blank, all⟩ := List.forall_mem_cons.1 all
    exact .blank blank (ih all)

theorem take?_blank (blank : isBlank c = true) (cs : List Char) : take? (c :: cs) = none := by
  simp only [isBlank, Bool.or_eq_true, beq_iff_eq] at blank
  rcases blank with ((rfl | rfl) | rfl) | rfl <;> rfl

theorem Spells.start {spelling : List Char} (spells : Spells t spelling rest) :
    ∃ c cs, spelling ++ rest = c :: cs ∧ isBlank c = false := by
  have taken := take?_of_spells spells
  cases text : spelling ++ rest with
  | nil =>
    rw [text] at taken
    cases taken
  | cons c cs =>
    refine ⟨c, cs, rfl, Bool.eq_false_iff.2 fun blank => ?_⟩
    rw [text, take?_blank blank] at taken
    cases taken

theorem Spells.nonempty {spelling : List Char} (spells : Spells t spelling rest) :
    spelling ≠ [] := by
  cases spells with
  | number numeral =>
    obtain ⟨c, cs, rfl, -⟩ := numeral.head
    simp
  | text => simp
  | word named => exact named.run.some
  | field => simp
  | index => simp
  | symbol nonempty => exact nonempty

theorem Spelled.read (spelled : Spelled cs ts) : ofChars? cs = some ts := by
  induction spelled with
  | nil => rw [ofChars?_eq]; rfl
  | @blank c cs ts blank rest read =>
    rw [ofChars?_eq] at read ⊢
    rwa [List.dropWhile_cons_of_pos blank]
  | @token t spelling rest ts spells behind read =>
    have taken := take?_of_spells spells
    have longer : rest.length < (spelling ++ rest).length := by
      have := List.length_pos_iff.2 spells.nonempty
      rw [List.length_append]
      omega
    obtain ⟨c, cs, text, solid⟩ := spells.start
    rw [text] at taken longer ⊢
    rw [ofChars?_eq, List.dropWhile_cons_of_neg (by simp [solid])]
    simp only [taken, Option.bind_some, longer, if_true, read, Option.map_some]

theorem spelled_of_read (cs : List Char) (ts : List Token) (read : ofChars? cs = some ts) :
    Spelled cs ts := by
  rw [ofChars?_eq] at read
  have blanks : ∀ c ∈ cs.takeWhile isBlank, isBlank c = true :=
    List.all_eq_true.1 List.all_takeWhile
  rw [← List.takeWhile_append_dropWhile (p := isBlank) (l := cs)]
  refine Spelled.blanks ?_ blanks
  have shorter := (List.dropWhile_sublist isBlank (l := cs)).length_le
  revert read shorter
  cases cs.dropWhile isBlank with
  | nil =>
    intro read _
    cases read
    exact .nil
  | cons c solid =>
    intro read shorter
    simp only [Option.bind_eq_some_iff, Prod.exists] at read
    obtain ⟨t, rest, taken, reads⟩ := read
    split at reads
    · next longer =>
      obtain ⟨ts, read, rfl⟩ := Option.map_eq_some_iff.1 reads
      have noPoint (more : List Char) : rest ≠ '.' :: more := by
        rintro rfl
        have untaken : take? ('.' :: more) = none := rfl
        rw [ofChars?_eq, List.dropWhile_cons_of_neg (by decide)] at read
        simp only [untaken] at read
        cases read
      obtain ⟨spelling, text, spells⟩ := spells_of_take? taken noPoint
      have less : rest.length < cs.length := Nat.lt_of_lt_of_le longer shorter
      rw [text]
      exact .token spells (spelled_of_read rest ts read)
    · cases reads
termination_by cs.length

theorem ofChars?_eq_some_iff : ofChars? cs = some ts ↔ Spelled cs ts :=
  ⟨spelled_of_read cs ts, Spelled.read⟩

end Questionnaire.Expr.Token
