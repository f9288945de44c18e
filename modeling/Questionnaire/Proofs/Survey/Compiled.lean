import Mathlib.Data.List.Nodup
import Mathlib.Data.List.TakeWhile
import Questionnaire.Survey.Compile

/-! What compilation guarantees of a survey. Every record comes from a question of the
text, no two records share an identifier, markers are recognised by their identifiers,
and the loops are read off the records. -/
namespace Questionnaire

/-- The shape of the identifiers that headers declare. -/
def IsQuestionId (s : String) : Prop :=
  ∃ c cs, s.toList = c :: cs ∧ isQuestionIdStart c = true ∧ ∀ x ∈ cs, isQuestionIdChar x = true

theorem IsQuestionId.chars {s : String} (shaped : IsQuestionId s) :
    ∀ x ∈ s.toList, isQuestionIdChar x = true := by
  obtain ⟨c, cs, text, start, rest⟩ := shaped
  intro x member
  rw [text] at member
  rcases List.mem_cons.1 member with rfl | member
  · simp only [isQuestionIdStart, Bool.or_eq_true] at start
    simp only [isQuestionIdChar, Bool.or_eq_true]
    exact start.imp .inl id
  · exact rest x member

theorem IsQuestionId.pointless {s : String} (shaped : IsQuestionId s) : '.' ∉ s.toList := by
  intro member
  have char := shaped.chars '.' member
  revert char
  decide

theorem IsQuestionId.isIdentifier {s : String} (shaped : IsQuestionId s) :
    isIdentifier s = true := by
  obtain ⟨c, cs, text, start, rest⟩ := shaped
  simp only [isQuestionIdStart, isQuestionIdChar, Bool.or_eq_true, beq_iff_eq] at start rest
  delta Questionnaire.isIdentifier Char.isAlphanum Char.isAlpha
  simp only [text, Bool.and_eq_true, Bool.or_eq_true, beq_iff_eq, List.all_eq_true]
  refine ⟨?_, fun x member => ?_⟩
  · rcases start with upper | underscore
    · exact .inl (.inl upper)
    · exact .inr underscore
  · rcases rest x member with (upper | digit) | underscore
    · exact .inl (.inl (.inl (.inl upper)))
    · exact .inl (.inl (.inr digit))
    · exact .inl (.inr underscore)

theorem takeQuestionId?_shape {cs id rest : List Char} (h : takeQuestionId? cs = some (id, rest)) :
    IsQuestionId (String.ofList id) := by
  unfold takeQuestionId? at h
  split at h
  · next c cs =>
    split at h
    · next start =>
      simp only [Option.some.injEq, Prod.mk.injEq] at h
      obtain ⟨rfl, -⟩ := h
      exact ⟨c, _, String.toList_ofList, start, fun x member => List.mem_takeWhile_imp member⟩
    · contradiction
  · contradiction

namespace Definition

theorem takeHeaderLine?_id {cs rest : List Char} {header : Header}
    (h : takeHeaderLine? cs = some (header, rest)) : IsQuestionId header.id := by
  simp only [takeHeaderLine?, Option.bind_eq_bind, Option.bind_eq_some_iff] at h
  obtain ⟨_, -, ⟨id, _⟩, taken, _, -, result⟩ := h
  cases result
  exact takeQuestionId?_shape taken

theorem questionOf?_id {start : Position} {chunk : List Char} {q : QuestionText}
    (h : questionOf? start chunk = some q) : IsQuestionId q.id := by
  simp only [questionOf?] at h
  split at h
  · contradiction
  · simp only [Option.bind_eq_bind, Option.bind_eq_some_iff] at h
    obtain ⟨⟨header, body⟩, taken, result⟩ := h
    cases result
    exact takeHeaderLine?_id taken

theorem questionsFrom_id (start : Position) (chunks : List (List Char)) :
    ∀ q ∈ questionsFrom start chunks, IsQuestionId q.id := by
  induction chunks generalizing start with
  | nil => intro q member; cases member
  | cons chunk more ih =>
    intro q member
    rcases List.mem_append.1 member with first | later
    · exact questionOf?_id (Option.mem_toList.1 first)
    · exact ih _ q later

end Definition

namespace Draft
variable {d : Draft} {q : QuestionText}

/-- A record is taken in for a question, as a grid or on its own. -/
def Origin (q : QuestionText) (r : Record) : Prop :=
  r = .ofQuestion q ∨ ∃ table, r = .ofGrid q table

theorem Origin.id_eq {r : Record} (origin : Origin q r) : r.id = q.id := by
  rcases origin with rfl | ⟨table, rfl⟩
  · unfold Record.ofQuestion
    split <;> rfl
  · rfl

theorem Origin.marker {r : Record} {m : LoopMarker} (origin : Origin q r)
    (marked : r.marker? = some m) : LoopMarker.ofId? r.id = some m := by
  rcases origin with rfl | ⟨table, rfl⟩
  · unfold Record.ofQuestion at marked ⊢
    split
    · next found =>
      simp only [found, Record.marker?, Option.some.injEq] at marked
      rwa [marked] at found
    · next found => simp [found, Record.marker?] at marked
  · contradiction

theorem push_rows (d : Draft) (r : Record) : (d.push r).rows = d.rows := by
  unfold push
  split <;> rfl

theorem add_records (d : Draft) (q : QuestionText) :
    (d.add q).records = d.records ∨
      ∃ r, Origin q r ∧ d.records.any (·.id == r.id) = false ∧
        (d.add q).records = d.records ++ [r] := by
  have push (d : Draft) (r : Record) : (d.push r).records = d.records ∨
      d.records.any (·.id == r.id) = false ∧ (d.push r).records = d.records ++ [r] := by
    unfold Draft.push
    split
    · exact .inl rfl
    · next free => exact .inr ⟨by simp_all [Draft.declares], rfl⟩
  unfold Draft.add
  split
  · next table _ =>
    exact (push _ (.ofGrid q table)).imp id fun added => ⟨_, .inr ⟨table, rfl⟩, added⟩
  · exact (push d (.ofQuestion q)).imp id fun added => ⟨_, .inl rfl, added⟩

theorem add_distinct (distinct : (d.records.map Record.id).Nodup) :
    ((d.add q).records.map Record.id).Nodup := by
  rcases add_records d q with same | ⟨r, -, free, added⟩
  · rwa [same]
  · rw [added, List.map_append, List.nodup_append]
    refine ⟨distinct, List.nodup_singleton _, ?_⟩
    intro a present b last
    obtain ⟨old, member, rfl⟩ := List.mem_map.1 present
    obtain rfl := List.mem_singleton.1 last
    simpa using List.any_eq_false.1 free old member

theorem foldl_add_distinct (distinct : (d.records.map Record.id).Nodup)
    (questions : List QuestionText) :
    ((questions.foldl add d).records.map Record.id).Nodup := by
  induction questions generalizing d with
  | nil => exact distinct
  | cons q rest ih => exact ih (add_distinct distinct)

theorem foldl_add_origin (questions : List QuestionText) {r : Record}
    (member : r ∈ (questions.foldl add d).records) :
    r ∈ d.records ∨ ∃ q ∈ questions, Origin q r := by
  induction questions generalizing d with
  | nil => exact .inl member
  | cons q rest ih =>
    rcases ih member with earlier | ⟨other, later, origin⟩
    · rcases add_records d q with same | ⟨new, origin, -, added⟩
      · exact .inl (same ▸ earlier)
      · rw [added, List.mem_append, List.mem_singleton] at earlier
        rcases earlier with old | rfl
        · exact .inl old
        · exact .inr ⟨q, List.mem_cons_self, origin⟩
    · exact .inr ⟨other, List.mem_cons_of_mem _ later, origin⟩

end Draft

namespace Survey
variable {s : Survey}

def Compiled (s : Survey) : Prop :=
  ∃ limits sourceId definition, compile limits sourceId definition = .ok s

theorem ok_of_toOption {α : Type} {result : Except SurveyError α} {a : α}
    (accepted : result.toOption = some a) : result = .ok a := by
  cases result with
  | ok b => exact congrArg Except.ok (Option.some.inj accepted)
  | error e => cases accepted

theorem compiled_of_toOption {limits : Limits} {sourceId definition : String}
    (accepted : (compile limits sourceId definition).toOption = some s) : s.Compiled :=
  ⟨limits, sourceId, definition, ok_of_toOption accepted⟩

/-- The loops are those that begin at the records. -/
def Linked (s : Survey) : Prop :=
  s.loops = (s.records.mapIdx fun position r => Draft.loopAt? s.records r position).filterMap id

theorem Compiled.draft (compiled : s.Compiled) :
    ∃ content tables, s.records =
        ((Definition.questions content).foldl Draft.add { tables := tables }).records ∧
      s.Linked := by
  obtain ⟨limits, sourceId, definition, h⟩ := compiled
  simp only [compile, bind, Except.bind, pure, Except.pure] at h
  split at h
  · contradiction
  split at h
  · contradiction
  split at h
  · contradiction
  next grids _ =>
  split at h
  · contradiction
  · cases h
    exact ⟨_, grids.tables, rfl, rfl⟩

theorem Compiled.linked (compiled : s.Compiled) : s.Linked := by
  obtain ⟨_, _, -, linked⟩ := compiled.draft
  exact linked

theorem Compiled.distinct (compiled : s.Compiled) : (s.records.map Record.id).Nodup := by
  obtain ⟨_, _, records, -⟩ := compiled.draft
  rw [records]
  exact Draft.foldl_add_distinct (by simp) _

theorem Compiled.origin (compiled : s.Compiled) {r : Record} (member : r ∈ s.records) :
    ∃ q : QuestionText, IsQuestionId q.id ∧ Draft.Origin q r := by
  obtain ⟨content, _, records, -⟩ := compiled.draft
  rw [records] at member
  rcases Draft.foldl_add_origin _ member with none | ⟨q, asked, origin⟩
  · cases none
  · exact ⟨q, Definition.questionsFrom_id _ _ q asked, origin⟩

theorem Compiled.questionId (compiled : s.Compiled) {r : Record} (member : r ∈ s.records) :
    IsQuestionId r.id := by
  obtain ⟨q, shaped, origin⟩ := compiled.origin member
  rwa [origin.id_eq]

theorem Compiled.marker (compiled : s.Compiled) {r : Record} (member : r ∈ s.records)
    {m : LoopMarker} (marked : r.marker? = some m) : LoopMarker.ofId? r.id = some m := by
  obtain ⟨q, -, origin⟩ := compiled.origin member
  exact origin.marker marked

section Chars
open Definition Text

/-- Compilation as a function of characters: no text is put together and taken apart again. -/
def compileChars (limits : Limits) (sourceId definition : String) : Except SurveyError Survey := do
  let text ← unrollAll limits sourceId 0 [] ((lines definition.toList).flatMap withoutComment)
  let grids ← extractPieces sourceId {} {} (pieces text)
  let draft := (questionsFrom {} (chunks false grids.content)).foldl Draft.add
    { tables := grids.tables }
  if draft.records.isEmpty then .error (.emptySurvey sourceId)
  else return ⟨sourceId, draft.records, draft.rows, draft.loops⟩

theorem compile_eq_chars {limits : Limits} {sourceId definition : String}
    (fits : definition.utf8ByteSize ≤ limits.maxDefinitionBytes) :
    compile limits sourceId definition = compileChars limits sourceId definition := by
  rw [compile, compileChars, expandLoops, stripComments, String.toList_ofList]
  simp only [Nat.not_lt.2 fits, if_false]
  cases unrollAll limits sourceId 0 [] ((lines definition.toList).flatMap withoutComment) with
  | error e => rfl
  | ok text =>
    simp only [Except.map, bind, Except.bind, extractGrids, questions, String.toList_ofList]

end Chars

end Survey

end Questionnaire
