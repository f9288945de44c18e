import Mathlib.Tactic.SplitIfs
import Questionnaire.Json.Reader
import Questionnaire.Json.Writer
import Questionnaire.Proofs.Dict

/-! Written JSON is read back. A text is read character by character as it was escaped, and
a value as its parts were written one after the other. Numbers are left out, for not all of
them are written exactly. -/
namespace Questionnaire.Json

theorem hexValue?_hexDigit : ∀ n < 16, hexValue? (hexDigit n) = some n := by decide

theorem takeText?_plain {c : Char} (read rest : List Char) (quote : c ≠ '"') (slash : c ≠ '\\')
    (printable : ¬c.toNat < 0x20) : takeText? read (c :: rest) = takeText? (c :: read) rest := by
  rw [takeText?.eq_def]
  split
  · contradiction
  · simp_all
  · simp_all
  · simp_all
  · next same =>
    cases same
    rw [if_neg printable]

theorem takeText?_unicode {n : Nat} (read rest : List Char) (small : n < 0x20) :
    takeText? read ('\\' :: 'u' :: '0' :: '0' :: hexDigit (n / 16) :: hexDigit (n % 16) :: rest) =
      takeText? (Char.ofNat n :: read) rest := by
  have high := hexValue?_hexDigit (n / 16) (by omega)
  have low := hexValue?_hexDigit (n % 16) (by omega)
  have zero : hexValue? '0' = some 0 := by decide
  have unit : hexUnit? '0' '0' (hexDigit (n / 16)) (hexDigit (n % 16)) = some n := by
    simp only [hexUnit?, high, low, zero, Option.bind_eq_bind, Option.bind_some]
    exact congrArg some (by omega)
  have single : isLowSurrogate n = false ∧ isHighSurrogate n = false := by
    simp only [isLowSurrogate, isHighSurrogate, Bool.and_eq_false_iff, decide_eq_false_iff_not]
    omega
  rw [takeText?, unit]
  simp [single]

/-- A character is escaped by a letter, by its number or not at all. -/
theorem escape_cases (c : Char) :
    (∃ letter, escape c = ['\\', letter] ∧ letter ≠ 'u' ∧ escaped? letter = some c) ∨
    (escape c = ['\\', 'u', '0', '0', hexDigit (c.toNat / 16), hexDigit (c.toNat % 16)] ∧
      c.toNat < 0x20) ∨
    (escape c = [c] ∧ c ≠ '"' ∧ c ≠ '\\' ∧ ¬c.toNat < 0x20) := by
  simp only [escape, beq_iff_eq]
  split_ifs with quote slash newline carriage tab back feed control
  iterate 7 exact .inl ⟨_, rfl, by decide, by subst c; rfl⟩
  · exact .inr (.inl ⟨rfl, control⟩)
  · exact .inr (.inr ⟨rfl, quote, slash, control⟩)

theorem takeText?_letter {c letter : Char} (read rest : List Char) (other : letter ≠ 'u')
    (means : escaped? letter = some c) :
    takeText? read ('\\' :: letter :: rest) = takeText? (c :: read) rest := by
  rw [takeText?.eq_4]
  · rw [means]
  · simp_all

theorem takeText?_escape (read rest : List Char) (c : Char) :
    takeText? read (escape c ++ rest) = takeText? (c :: read) rest := by
  obtain ⟨letter, escaped, other, means⟩ | ⟨escaped, control⟩ | ⟨escaped, quote, slash, control⟩ :=
    escape_cases c
  · rw [escaped]
    exact takeText?_letter read rest other means
  · rw [escaped]
    have unicode := takeText?_unicode read rest control
    rwa [Char.ofNat_toNat] at unicode
  · rw [escaped]
    exact takeText?_plain read rest quote slash control

theorem takeText?_escapes (cs read rest : List Char) :
    takeText? read (cs.flatMap escape ++ '"' :: rest) =
      some (String.ofList (read.reverse ++ cs), rest) := by
  induction cs generalizing read with
  | nil => rw [List.flatMap_nil, List.nil_append, List.append_nil, takeText?]
  | cons c cs ih =>
    rw [List.flatMap_cons, List.append_assoc, takeText?_escape, ih, List.reverse_cons,
      List.append_assoc, List.singleton_append]

theorem escape_printable {c : Char} (quote : c ≠ '"') (slash : c ≠ '\\')
    (printable : 0x20 ≤ c.toNat) : escape c = [c] := by
  have above (d : Char) (control : d.toNat < 0x20) : c ≠ d := by
    rintro rfl
    omega
  have printable : ¬c.toNat < 0x20 := by omega
  simp only [escape, beq_iff_eq, quote, slash, above '\n' (by decide), above '\r' (by decide),
    above '\t' (by decide), above '\x08' (by decide), above '\x0c' (by decide), printable,
    if_false]

theorem quote_toList (s : String) :
    (quote s).toList = '"' :: (s.toList.flatMap escape ++ ['"']) := by
  unfold quote
  split
  · next plain =>
    have same : s.toList.flatMap escape = s.toList := by
      have each : ∀ c ∈ s.toList, escape c = [c] := by
        intro c member
        have printable := List.all_eq_true.1 (String.all_bool_eq ▸ plain) c member
        simp only [Bool.and_eq_true, bne_iff_ne, decide_eq_true_eq] at printable
        exact escape_printable printable.1.1 printable.1.2 printable.2
      rw [List.flatMap_def, List.map_congr_left each, ← List.flatMap_def, List.flatMap_singleton']
    simp [same]
  · simp

/-! Values -/

/-- Values without numbers, at most `depth` levels deep. -/
inductive Plain : Nat → Json → Prop
  | null {depth : Nat} : Plain depth null
  | bool {depth : Nat} (b : Bool) : Plain depth (bool b)
  | text {depth : Nat} (s : String) : Plain depth (text s)
  | array {depth : Nat} {items : List Json} (each : ∀ item ∈ items, Plain depth item) :
      Plain (depth + 1) (array items)
  | object {depth : Nat} {fields : List (String × Json)} (ascending : Ascending fields)
      (each : ∀ f ∈ fields, Plain depth f.2) : Plain (depth + 1) (object fields)

theorem Plain.mono {depth deeper : Nat} {j : Json} (plain : Plain depth j)
    (le : depth ≤ deeper) : Plain deeper j := by
  induction plain generalizing deeper with
  | null => exact .null
  | bool b => exact .bool b
  | text s => exact .text s
  | array each ih =>
    obtain ⟨deeper, rfl⟩ := Nat.exists_eq_add_of_lt le
    exact .array fun item member => ih item member (by omega)
  | object ascending each ih =>
    obtain ⟨deeper, rfl⟩ := Nat.exists_eq_add_of_lt le
    exact .object ascending fun f member => ih f member (by omega)

theorem Plain.ofTexts (depth : Nat) (items : List String) : Plain (depth + 1) (ofTexts items) := by
  refine .array fun item member => ?_
  obtain ⟨s, -, rfl⟩ := List.mem_map.1 member
  exact .text s

theorem Plain.ofDict {depth : Nat} {d : Dict Json}
    (each : ∀ name value, d.get? name = some value → Plain depth value) :
    Plain (depth + 1) (ofDict d) :=
  .object d.ascending fun f member => each f.1 f.2 (Dict.mem_entries.1 member)

theorem Plain.ofFields {depth : Nat} {fields : List (String × Json)}
    (each : ∀ f ∈ fields, Plain depth f.2) : Plain (depth + 1) (ofFields fields) :=
  .object (Dict.ofList fields).ascending fun f member => each f (Dict.mem_ofList member)

/-! Written text -/

mutual

/-- The characters that `write` adds. -/
def chars : Json → List Char
  | null => "null".toList
  | bool b => (if b then "true" else "false").toList
  | number n => n.text.toList
  | text s => (quote s).toList
  | array items => '[' :: (itemChars true items ++ [']'])
  | object fields => '{' :: (fieldChars true fields ++ ['}'])

def itemChars (first : Bool) : List Json → List Char
  | [] => []
  | item :: items => (if first then [] else [',']) ++ chars item ++ itemChars false items

def fieldChars (first : Bool) : List (String × Json) → List Char
  | [] => []
  | (name, value) :: fields =>
    (if first then [] else [',']) ++ (quote name).toList ++
      ':' :: (chars value ++ fieldChars false fields)

end

mutual

theorem write_toList (out : String) (j : Json) : (write out j).toList = out.toList ++ chars j := by
  cases j with
  | null => simp [write, chars]
  | bool b => simp [write, chars]
  | number n => simp [write, chars]
  | text s => simp [write, chars]
  | array items =>
    rw [write, String.toList_push, writeItems_toList, chars]
    simp
  | object fields =>
    rw [write, String.toList_push, writeFields_toList, chars]
    simp

theorem writeItems_toList (out : String) (first : Bool) (items : List Json) :
    (writeItems out first items).toList = out.toList ++ itemChars first items := by
  cases items with
  | nil => simp [writeItems, itemChars]
  | cons item items =>
    rw [writeItems, writeItems_toList, write_toList, itemChars]
    cases first <;> simp

theorem writeFields_toList (out : String) (first : Bool) (fields : List (String × Json)) :
    (writeFields out first fields).toList = out.toList ++ fieldChars first fields := by
  cases fields with
  | nil => simp [writeFields, fieldChars]
  | cons f fields =>
    obtain ⟨name, value⟩ := f
    rw [writeFields, writeFields_toList, write_toList, fieldChars]
    cases first <;> simp

end


theorem skipBlanks_cons {c : Char} (cs : List Char) (visible : isBlank c = false) :
    skipBlanks (c :: cs) = c :: cs := by
  rw [skipBlanks, List.dropWhile_cons, visible]
  rfl

theorem takeChar?_here {c : Char} (cs : List Char) (visible : isBlank c = false) :
    takeChar? c (c :: cs) = some ⟨cs, Nat.lt_succ_self _⟩ := by
  unfold takeChar?
  split
  · next none =>
    rw [skipBlanks_cons cs visible] at none
    cases none
  · next found =>
    rw [skipBlanks_cons cs visible] at found
    cases found
    simp

theorem takeChar?_other {c d : Char} (cs : List Char) (visible : isBlank d = false)
    (other : d ≠ c) : takeChar? c (d :: cs) = none := by
  unfold takeChar?
  split
  · rfl
  · next found =>
    rw [skipBlanks_cons cs visible] at found
    cases found
    simp [other]

/-! Reading -/

/-- A text starts with what stands for `a`, and `rest` follows. -/
def Reads {α : Type} (take? : (cs : List Char) → Option (α × Rest cs)) (cs : List Char) (a : α)
    (rest : List Char) : Prop :=
  ∃ shorter, take? cs = some (a, ⟨rest, shorter⟩)

section
variable {depth : Nat} {c : Char} {cs rest final : List Char} {j : Json} {items : List Json}

theorem value?_scalar (visible : isBlank c = false) (bracket : c ≠ '[') (brace : c ≠ '\x7b')
    (scalar : takeScalar? (c :: cs) = some (j, rest)) (shorter : rest.length < (c :: cs).length) :
    Reads (value? depth) (c :: cs) j rest := by
  refine ⟨shorter, ?_⟩
  rw [value?.eq_def, takeChar?_other cs visible bracket, takeChar?_other cs visible brace]
  simp only [skipBlanks_cons cs visible, scalar, shorter?, dif_pos shorter]

theorem items?_last (read : Reads (value? depth) cs j (']' :: rest)) :
    Reads (items? depth) cs [j] rest := by
  obtain ⟨shorter, read⟩ := read
  refine ⟨Nat.lt_trans (Nat.lt_succ_self _) shorter, ?_⟩
  rw [items?.eq_def]
  simp only [read, Option.bind_eq_bind, Option.bind_some,
    takeChar?_other rest (c := ',') (d := ']') rfl (by decide),
    takeChar?_here rest (c := ']') rfl]
  rfl

theorem items?_more (read : Reads (value? depth) cs j (',' :: rest))
    (more : Reads (items? depth) rest items final) :
    Reads (items? depth) cs (j :: items) final := by
  obtain ⟨shorter, read⟩ := read
  obtain ⟨further, more⟩ := more
  refine ⟨Nat.lt_trans further (Nat.lt_trans (Nat.lt_succ_self _) shorter), ?_⟩
  rw [items?.eq_def]
  simp only [read, Option.bind_eq_bind, Option.bind_some, takeChar?_here rest (c := ',') rfl, more]
  rfl

theorem shorter?_takeText? {name : String} (named : takeText? [] cs = some (name, rest)) :
    shorter? cs (takeText? [] cs) = some (name, ⟨rest, takeText?_length named⟩) := by
  rw [named, shorter?, dif_pos (takeText?_length named)]

theorem fields?_last {name : String} {after : List Char}
    (named : takeText? [] cs = some (name, ':' :: after))
    (read : Reads (value? depth) after j ('\x7d' :: rest)) :
    Reads (fields? depth) ('"' :: cs) [(name, j)] rest := by
  obtain ⟨shorter, read⟩ := read
  have shorter : rest.length < ('"' :: cs).length := calc
    rest.length < ('\x7d' :: rest).length := Nat.lt_succ_self _
    _ < after.length := shorter
    _ < (':' :: after).length := Nat.lt_succ_self _
    _ < cs.length := takeText?_length named
    _ < ('"' :: cs).length := Nat.lt_succ_self _
  refine ⟨shorter, ?_⟩
  rw [fields?.eq_def]
  simp only [takeChar?_here cs (c := '"') rfl, shorter?_takeText? named, read,
    takeChar?_here after (c := ':') rfl, Option.bind_eq_bind, Option.bind_some,
    takeChar?_other rest (c := ',') (d := '\x7d') rfl (by decide),
    takeChar?_here rest (c := '\x7d') rfl]
  rfl

theorem fields?_more {name : String} {after : List Char} {fields : List (String × Json)}
    (named : takeText? [] cs = some (name, ':' :: after))
    (read : Reads (value? depth) after j (',' :: rest))
    (more : Reads (fields? depth) rest fields final) :
    Reads (fields? depth) ('"' :: cs) ((name, j) :: fields) final := by
  obtain ⟨shorter, read⟩ := read
  obtain ⟨further, more⟩ := more
  have shorter : final.length < ('"' :: cs).length := calc
    final.length < rest.length := further
    _ < (',' :: rest).length := Nat.lt_succ_self _
    _ < after.length := shorter
    _ < (':' :: after).length := Nat.lt_succ_self _
    _ < cs.length := takeText?_length named
    _ < ('"' :: cs).length := Nat.lt_succ_self _
  refine ⟨shorter, ?_⟩
  rw [fields?.eq_def]
  simp only [takeChar?_here cs (c := '"') rfl, shorter?_takeText? named, read,
    takeChar?_here after (c := ':') rfl, Option.bind_eq_bind, Option.bind_some,
    takeChar?_here rest (c := ',') rfl, more]
  rfl

theorem value?_emptyArray : Reads (value? (depth + 1)) ('[' :: ']' :: rest) (array []) rest := by
  refine ⟨by simp only [List.length_cons]; omega, ?_⟩
  rw [value?.eq_def]
  simp only [takeChar?_here (']' :: rest) (c := '[') rfl, takeChar?_here rest (c := ']') rfl]
  rfl

theorem value?_array (visible : isBlank c = false) (inside : c ≠ ']')
    (read : Reads (items? depth) (c :: cs) items rest) :
    Reads (value? (depth + 1)) ('[' :: c :: cs) (array items) rest := by
  obtain ⟨shorter, read⟩ := read
  refine ⟨Nat.lt_trans shorter (Nat.lt_succ_self _), ?_⟩
  rw [value?.eq_def]
  simp only [takeChar?_here (c :: cs) (c := '[') rfl, takeChar?_other cs visible inside, read]
  rfl

theorem value?_emptyObject :
    Reads (value? (depth + 1)) ('\x7b' :: '\x7d' :: rest) (object []) rest := by
  refine ⟨by simp only [List.length_cons]; omega, ?_⟩
  rw [value?.eq_def]
  simp only [takeChar?_other ('\x7d' :: rest) (c := '[') (d := '\x7b') rfl (by decide),
    takeChar?_here ('\x7d' :: rest) (c := '\x7b') rfl, takeChar?_here rest (c := '\x7d') rfl]
  rfl

theorem value?_object {fields : List (String × Json)} (visible : isBlank c = false)
    (inside : c ≠ '\x7d')
    (read : Reads (fields? depth) (c :: cs) fields rest) :
    Reads (value? (depth + 1)) ('\x7b' :: c :: cs) (ofFields fields) rest := by
  obtain ⟨shorter, read⟩ := read
  refine ⟨Nat.lt_trans shorter (Nat.lt_succ_self _), ?_⟩
  rw [value?.eq_def]
  simp only [takeChar?_other (c :: cs) (c := '[') (d := '\x7b') rfl (by decide),
    takeChar?_here (c :: cs) (c := '\x7b') rfl, takeChar?_other cs visible inside, read]
  rfl

theorem takeText?_quote (name : String) (rest : List Char) :
    ∃ cs, (quote name).toList ++ rest = '"' :: cs ∧ takeText? [] cs = some (name, rest) := by
  refine ⟨name.toList.flatMap escape ++ '"' :: rest, by simp [quote_toList], ?_⟩
  rw [takeText?_escapes, List.reverse_nil, List.nil_append, String.ofList_toList]

/-- No value starts like the end of a list. -/
theorem chars_head (plain : Plain depth j) :
    ∃ c cs, chars j = c :: cs ∧ isBlank c = false ∧ c ≠ ']' := by
  cases plain with
  | null => exact ⟨_, _, rfl, rfl, by decide⟩
  | bool b => cases b <;> exact ⟨_, _, rfl, rfl, by decide⟩
  | text s => exact ⟨_, _, quote_toList s, rfl, by decide⟩
  | array each => exact ⟨_, _, by rw [chars], rfl, by decide⟩
  | object ascending each => exact ⟨_, _, by rw [chars], rfl, by decide⟩

theorem items?_chars (each : ∀ item ∈ j :: items, ∀ rest,
      Reads (value? depth) (chars item ++ rest) item rest) (rest : List Char) :
    Reads (items? depth) (chars j ++ (itemChars false items ++ ']' :: rest)) (j :: items) rest := by
  induction items generalizing j with
  | nil => exact items?_last (each j List.mem_cons_self (']' :: rest))
  | cons next items ih =>
    have more := ih fun item member => each item (List.mem_cons_of_mem j member)
    have comma : itemChars false (next :: items) ++ ']' :: rest =
        ',' :: (chars next ++ (itemChars false items ++ ']' :: rest)) := by
      simp [itemChars]
    rw [comma]
    exact items?_more (each j List.mem_cons_self _) more

theorem fields?_chars {name : String} {fields : List (String × Json)}
    (each : ∀ f ∈ (name, j) :: fields, ∀ rest,
      Reads (value? depth) (chars f.2 ++ rest) f.2 rest) (rest : List Char) :
    Reads (fields? depth)
      ((quote name).toList ++ ':' :: (chars j ++ (fieldChars false fields ++ '\x7d' :: rest)))
      ((name, j) :: fields) rest := by
  induction fields generalizing name j with
  | nil =>
    obtain ⟨cs, quoted, named⟩ := takeText?_quote name (':' :: (chars j ++ '\x7d' :: rest))
    rw [fieldChars, List.nil_append, quoted]
    exact fields?_last named (each _ List.mem_cons_self ('\x7d' :: rest))
  | cons next fields ih =>
    have more := ih fun f member => each f (List.mem_cons_of_mem _ member)
    have comma : fieldChars false (next :: fields) ++ '\x7d' :: rest =
        ',' :: ((quote next.1).toList ++
          ':' :: (chars next.2 ++ (fieldChars false fields ++ '\x7d' :: rest))) := by
      simp [fieldChars]
    rw [comma]
    obtain ⟨cs, quoted, named⟩ := takeText?_quote name (':' :: (chars j ++ _))
    rw [quoted]
    exact fields?_more named (each _ List.mem_cons_self _) more

theorem value?_chars (plain : Plain depth j) (rest : List Char) :
    Reads (value? depth) (chars j ++ rest) j rest := by
  induction plain generalizing rest with
  | null => exact value?_scalar rfl (by decide) (by decide) rfl (by simp; omega)
  | bool b =>
    cases b with
    | true => exact value?_scalar rfl (by decide) (by decide) rfl (by simp; omega)
    | false => exact value?_scalar rfl (by decide) (by decide) rfl (by simp; omega)
  | text s =>
    obtain ⟨cs, quoted, read⟩ := takeText?_quote s rest
    rw [chars, quoted]
    have scalar : takeScalar? ('"' :: cs) = some (text s, rest) := by
      rw [takeScalar?, read]
      rfl
    exact value?_scalar rfl (by decide) (by decide) scalar
      (Nat.lt_trans (takeText?_length read) (Nat.lt_succ_self _))
  | @array depth items each ih =>
    cases items with
    | nil => exact value?_emptyArray
    | cons item items =>
      obtain ⟨c, cs, head, visible, inside⟩ := chars_head (each item List.mem_cons_self)
      have read := items?_chars ih rest
      have whole : chars (array (item :: items)) ++ rest =
          '[' :: (chars item ++ (itemChars false items ++ ']' :: rest)) := by
        simp [chars, itemChars]
      rw [whole]
      rw [head] at read ⊢
      exact value?_array visible inside read
  | @object depth fields ascending each ih =>
    have same : ofFields fields = object fields := by
      rw [ofFields, Dict.ofList_entries ⟨fields, ascending⟩]
    cases fields with
    | nil => exact value?_emptyObject
    | cons f fields =>
      have read := fields?_chars ih rest
      have whole : chars (object (f :: fields)) ++ rest = '\x7b' :: ((quote f.1).toList ++
          ':' :: (chars f.2 ++ (fieldChars false fields ++ '\x7d' :: rest))) := by
        simp [chars, fieldChars]
      rw [whole, ← same]
      rw [quote_toList] at read ⊢
      exact value?_object rfl (by decide) read

end

/-- Whatever is written without numbers is read back as it was. -/
theorem read?_render {j : Json} (plain : Plain maxDepth j) : read? j.render = some j := by
  have written : j.render.toList = chars j ++ [] := by
    rw [render, write_toList]
    simp
  obtain ⟨_, read⟩ := value?_chars plain []
  rw [read?, ofChars?, written, read]
  rfl

end Questionnaire.Json
