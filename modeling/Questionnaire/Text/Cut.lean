/-! Cutting texts at characters and literals. Every function works on the list of
characters and returns the pieces in order, so that joining them again with what
was cut out gives the input back. -/
namespace Questionnaire.Text

/-- The parts before and after the first character that satisfies `p`. -/
def cutAtChars? (p : Char → Bool) : List Char → Option (List Char × List Char)
  | [] => none
  | c :: cs =>
    if p c then some ([], cs)
    else (cutAtChars? p cs).map fun (before, after) => (c :: before, after)

def cutAt? (p : Char → Bool) (s : String) : Option (String × String) :=
  (cutAtChars? p s.toList).map fun (before, after) =>
    (String.ofList before, String.ofList after)

/-- The pieces between the characters that satisfy `p`; never the empty list. -/
def splitChars (p : Char → Bool) : List Char → List (List Char)
  | [] => [[]]
  | c :: cs =>
    if p c then [] :: splitChars p cs
    else match splitChars p cs with
      | [] => [[c]]
      | piece :: pieces => (c :: piece) :: pieces

def splitOnChar (separator : Char) (s : String) : List String :=
  (splitChars (· == separator) s.toList).map String.ofList

/-- What follows `literal` at the front of a text. -/
def stripLeading? : (literal : List Char) → List Char → Option (List Char)
  | [], cs => some cs
  | _ :: _, [] => none
  | l :: ls, c :: cs => if l == c then stripLeading? ls cs else none

def stripTrailing? (literal cs : List Char) : Option (List Char) :=
  (stripLeading? literal.reverse cs.reverse).map List.reverse

/-- The parts before and after the first occurrence of `literal`. -/
def cutAtLiteral? (literal : List Char) : List Char → Option (List Char × List Char)
  | [] => if literal.isEmpty then some ([], []) else none
  | c :: cs =>
    match stripLeading? literal (c :: cs) with
    | some after => some ([], after)
    | none => (cutAtLiteral? literal cs).map fun (before, after) => (c :: before, after)

def containsLiteral (literal cs : List Char) : Bool := (cutAtLiteral? literal cs).isSome

/-- The leading run of characters that satisfy `p`, and the rest. -/
def takeRun (p : Char → Bool) (cs : List Char) : List Char × List Char :=
  (cs.takeWhile p, cs.dropWhile p)

/-- Bytes of a text in UTF-8, the unit of all offsets. -/
def byteLength (cs : List Char) : Nat := cs.foldl (fun n c => n + c.utf8Size) 0

/-- Replaces every occurrence of a non-empty literal, left to right; an
occurrence inside the replacement is not looked at again. -/
def replaceLiteral (literal replacement cs : List Char) : List Char :=
  go 0 cs
where
  /-- Here `pending` characters of the current occurrence are still to be passed over. -/
  go : Nat → List Char → List Char
    | _, [] => []
    | pending + 1, _ :: cs => go pending cs
    | 0, c :: cs =>
      match literal with
      | [] => c :: go 0 cs
      | _ :: more =>
        match stripLeading? literal (c :: cs) with
        | some _ => replacement ++ go more.length cs
        | none => c :: go 0 cs

theorem cutAtChars?_eq_some {p : Char → Bool} {cs before after : List Char}
    (h : cutAtChars? p cs = some (before, after)) :
    ∃ c, p c = true ∧ cs = before ++ c :: after ∧ ∀ x ∈ before, p x = false := by
  induction cs generalizing before with
  | nil => simp [cutAtChars?] at h
  | cons c cs ih =>
    unfold cutAtChars? at h
    split at h
    · next hc => cases h; exact ⟨c, hc, rfl, by simp⟩
    · next hc =>
      obtain ⟨⟨b, a⟩, hba, hcut⟩ := Option.map_eq_some_iff.1 h
      cases hcut
      obtain ⟨x, hx, rfl, hb⟩ := ih hba
      exact ⟨x, hx, rfl, by simpa [hc] using hb⟩

theorem stripLeading?_eq_some_iff {literal cs rest : List Char} :
    stripLeading? literal cs = some rest ↔ cs = literal ++ rest := by
  induction literal generalizing cs with
  | nil => simp [stripLeading?]
  | cons l ls ih =>
    cases cs with
    | nil => simp [stripLeading?]
    | cons c cs =>
      by_cases hlc : l = c <;> simp [stripLeading?, hlc, ih]
      exact fun h _ => hlc h.symm

theorem cutAtLiteral?_eq_some {literal cs before after : List Char}
    (h : cutAtLiteral? literal cs = some (before, after)) :
    cs = before ++ literal ++ after := by
  induction cs generalizing before with
  | nil =>
    unfold cutAtLiteral? at h
    split at h
    · next hl => cases h; simpa using hl
    · simp at h
  | cons c cs ih =>
    unfold cutAtLiteral? at h
    split at h
    · next hs => cases h; simpa using stripLeading?_eq_some_iff.1 hs
    · obtain ⟨⟨b, a⟩, hba, hcut⟩ := Option.map_eq_some_iff.1 h
      cases hcut
      simp [ih hba]

end Questionnaire.Text
