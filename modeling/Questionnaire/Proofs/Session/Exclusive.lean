import Questionnaire.Proofs.Answer.Exclusive
import Questionnaire.Proofs.Session.ReadBack
import Questionnaire.Proofs.Session.Resume

/-! Exclusive answers stay exclusive. Whatever is asked of a session and however storage answers,
every entry keeps its answers apart: a selection is made exclusive before it is recorded, the
rivals of a field are cleared before it is answered, and a transition merges entries or puts them
back. What is live is then exclusive as well, unless a question shares its identifier with the row
of a grid or with one of its own fields. -/
namespace Questionnaire

/-- No two fields of a question have one key. -/
def Survey.DistinctKeys (s : Survey) : Prop :=
  ∀ r ∈ s.records, (r.fields.map AnswerField.key).Nodup

instance (s : Survey) : Decidable s.DistinctKeys :=
  inferInstanceAs (Decidable (∀ r ∈ s.records, (r.fields.map AnswerField.key).Nodup))

namespace Session
variable {s : Session} {r : Record} {f : AnswerField} {q : String} {storage : Storage}

theorem keepExclusive_alone (s : Session) (r : Record) (v : AnswerValue) :
    r.Alone (s.keepExclusive r v) := by
  unfold keepExclusive
  split
  · rintro items ⟨⟩
  · next selected =>
    dsimp only
    split
    · next few =>
      rintro items ⟨⟩ x member sole y other
      rcases Bool.or_eq_true_iff.1 few with none | short
      · rw [List.isEmpty_iff.1 none] at sole
        cases sole
      · cases selected with
        | nil => cases member
        | cons only rest =>
          have one : rest.length + 1 < 2 := of_decide_eq_true short
          obtain rfl : rest = [] := List.length_eq_zero_iff.1 (by omega)
          rw [List.mem_singleton.1 member, List.mem_singleton.1 other]
    · split
      · next choice _ =>
        rintro items ⟨⟩ x member _ y other
        rw [List.mem_singleton.1 member, List.mem_singleton.1 other]
      · rintro items ⟨⟩ x member sole
        have inclusive := (List.mem_filter.1 member).2
        simp [sole] at inclusive

theorem kept_alone (s : Session) (v : AnswerValue) (checkbox : f.key = checkboxKey) :
    r.Alone (s.kept r f v) := by
  rw [kept, if_pos (beq_iff_eq.2 checkbox)]
  exact s.keepExclusive_alone r v

theorem mem_rivals {g : AnswerField} (member : g ∈ r.fields) (other : g.key ≠ f.key)
    (group : f.Rivals g) : g ∈ rivals r.fields f := by
  obtain ⟨name, own, same⟩ := group
  simp only [rivals, own]
  exact List.mem_filter.2 ⟨member, by simp [other, same]⟩

/-- A session on a survey whose questions have distinct keys, with answers that are kept apart. -/
structure KeepsApart (s : Session) : Prop where
  compiled : s.survey.Compiled
  distinct : s.survey.DistinctKeys
  trail : s.navigator.OnTrail s.survey
  owners : s.store.rowOwners = s.survey.rowOwners
  store : s.store.KeepsApart s.survey

/-- The store without answers to the rivals of a field that is given an answer. -/
def cleared (s : Session) (r : Record) (f : AnswerField) (v : AnswerValue) : Store :=
  (if (s.kept r f v).isEmpty then [] else rivals r.fields f).foldl
    (fun store other => store.clear r.id other.key)
    (s.store.fieldCount r.id (r.markupText s.context)).2

theorem KeepsApart.put_eq (kept : s.KeepsApart) (member : r ∈ s.survey.records)
    (f : AnswerField) (v : AnswerValue) : s.put r f v =
      (s.cleared r f v).set r.id f.key (r.fields.map AnswerField.key).toFinset.card
        (s.kept r f v) := by
  obtain ⟨counted, -⟩ := kept.store.fieldCount kept.compiled member s.context
  rw [← counted]
  rfl

theorem KeepsApart.put (kept : s.KeepsApart) (found : s.survey.record? r.id = some r)
    (field : f ∈ r.fields) (v : AnswerValue) : (s.put r f v).KeepsApart s.survey := by
  obtain ⟨member, -⟩ := Survey.mem_of_record? found
  obtain ⟨-, apart⟩ := kept.store.fieldCount kept.compiled member s.context
  rw [kept.put_eq member]
  refine (apart.foldl_clear _).set found (kept.distinct r member) field ?_ (s.kept_alone v)
  intro answered e held g other differs group
  rw [answered, if_neg Bool.false_ne_true] at held
  exact (Store.foldl_clear_left held).2 g (mem_rivals other differs group)

/-- The first answer to a question stands bare in its entry if there is one field only, and under
the key of its field otherwise. -/
theorem KeepsApart.setField_first {key : String} {v : AnswerValue} (kept : s.KeepsApart)
    (shown : s.navigator.current? = some q) (found : s.survey.record? q = some r)
    (field : r.field? key = some f) (blank : s.store.entry? q = none)
    (answered : (s.kept r f v).isEmpty = false) :
    (s.setField key v).2.store.entry? q =
      some (if (r.fields.map AnswerField.key).toFinset.card ≤ 1 then .single (s.kept r f v)
        else .keyed (Dict.empty.insert key (s.kept r f v))) := by
  rw [setField_put shown (Survey.get?_of_record? found) field]
  obtain ⟨member, rfl⟩ := Survey.mem_of_record? found
  obtain rfl : f.key = key := by simpa using List.find?_some field
  have nothing : Store.entry? (s.cleared r f v) r.id = none := by
    refine Option.eq_none_iff_forall_ne_some.2 fun e left => ?_
    obtain ⟨⟨earlier, held, -⟩, -⟩ := Store.foldl_clear_left left
    have same : Store.entry? (s.store.fieldCount r.id (r.markupText s.context)).2 r.id =
        s.store.entry? r.id := by
      unfold Store.fieldCount
      split <;> rfl
    rw [same, blank] at held
    cases held
  change Store.entry? (s.put r f v) r.id = _
  rw [kept.put_eq member, Store.set, answered, if_neg Bool.false_ne_true, nothing]
  split
  · exact Store.entry?_edit _ _ _
  · exact Store.entry?_edit _ _ _

theorem KeepsApart.withAnswers {store : Store} (kept : s.KeepsApart)
    (ground : Store.SameGround s.store store) (apart : store.KeepsApart s.survey) :
    (s.withAnswers q store).KeepsApart where
  compiled := kept.compiled
  distinct := kept.distinct
  trail := kept.trail.refreshBounds q store.source
  owners := ground.rowOwners.trans kept.owners
  store := apart

theorem KeepsApart.setField (kept : s.KeepsApart) (key : String) (v : AnswerValue) :
    (s.setField key v).2.KeepsApart := by
  unfold Session.setField
  split
  · exact kept
  · next q shown =>
    split
    · exact kept
    · next r found =>
      split
      · exact kept
      · next f field =>
        obtain ⟨-, other, there, -⟩ := kept.trail.current? shown
        cases found.symm.trans (Survey.get?_of_record? there)
        obtain ⟨-, rfl⟩ := Survey.mem_of_record? there
        exact kept.withAnswers (s.put_editedAt r f v).toSameGround
          (kept.put there (List.mem_of_find?_eq_some field) v)

theorem KeepsApart.clearField (kept : s.KeepsApart) (key : String) :
    (s.clearField key).2.KeepsApart := by
  unfold Session.clearField
  split
  · exact kept
  · next q shown =>
    exact kept.withAnswers (Store.clear_editedAt s.store q key).toSameGround
      (kept.store.clear q key)

theorem KeepsApart.start (kept : s.KeepsApart) : s.start.2.KeepsApart :=
  { kept with trail := kept.trail.start s.surroundings kept.compiled }

theorem KeepsApart.concludes (kept : s.KeepsApart) {result : Result}
    (ends : s.Concludes storage result) : result.2.1.KeepsApart := by
  cases ends with
  | kept => exact kept
  | stored heads =>
    have trail := heads.onTrail kept.compiled kept.trail
    exact { kept with trail, store := kept.store.merge }
  | refused => exact { kept with store := kept.store.forget }

/-- A new session that has looked at none of its questions. -/
structure IsFresh (s : Session) : Prop extends s.IsNew where
  uncounted : s.store.fieldCounts = ∅
  owners : s.store.rowOwners = s.survey.rowOwners

theorem ofSurvey_isFresh {survey : Survey} (compiled : survey.Compiled) (config : SessionConfig)
    (now : Option Moment) : (ofSurvey survey config now).IsFresh :=
  ⟨ofSurvey_isNew compiled config now, rfl, rfl⟩

theorem IsFresh.keepsApart (fresh : s.IsFresh) (distinct : s.survey.DistinctKeys) :
    s.KeepsApart where
  compiled := fresh.compiled
  distinct := distinct
  trail := fresh.inStep.trail
  owners := fresh.owners
  store := by
    refine ⟨?_, ?_, ?_⟩
    · rw [fresh.uncounted]
      intro r member count held
      cases held
    · rw [fresh.committed]
      intro q e held
      cases held
    · rw [fresh.pending]
      intro q e held
      cases held

theorem KeepsApart.entry {e : Entry} (kept : s.KeepsApart) (member : r ∈ s.survey.records)
    (held : s.store.entry? r.id = some e) : r.KeepsApart e := by
  obtain ⟨other, found, apart⟩ := kept.store.present held
  cases (Survey.record?_of_mem kept.compiled.distinct member).symm.trans found
  exact apart

/-- What is live is exclusive where names lead to the answers they are meant for. -/
theorem KeepsApart.live (kept : s.KeepsApart) (member : r ∈ s.survey.records)
    (unshared : ∀ row ∈ s.survey.rows, row.id ≠ r.id) :
    (∀ v, s.store.liveValue? checkboxKey r.id = some v → r.Alone v) ∧
    ∀ f ∈ r.fields, ∀ g ∈ r.fields, f.Rivals g →
      compoundName f.key r.id ≠ r.id → compoundName g.key r.id ≠ r.id →
      (s.store.liveValue? f.key r.id).isSome → (s.store.liveValue? g.key r.id).isSome → f = g := by
  constructor
  · intro v live
    have named : compoundName checkboxKey r.id ≠ r.id := by
      have chars := (kept.compiled.questionId member).chars
      have other : checkboxKey ≠ r.id := by
        intro same
        have small := chars 'c' (same ▸ (by decide : 'c' ∈ checkboxKey.toList))
        revert small
        decide
      unfold compoundName
      rw [if_neg (by simpa [checkboxKey] using other)]
      intro same
      have length := congrArg (·.toList.length) same
      simp only [String.toList_append, List.length_append] at length
      have point : ".".toList.length = 1 := rfl
      omega
    obtain ⟨e, held, answer⟩ := kept.store.live kept.compiled kept.owners unshared named live
    exact (kept.entry member held).alone v answer
  · intro f field g other group named otherNamed first second
    obtain ⟨v, live⟩ := Option.isSome_iff_exists.1 first
    obtain ⟨w, otherLive⟩ := Option.isSome_iff_exists.1 second
    obtain ⟨e, held, answer⟩ := kept.store.live kept.compiled kept.owners unshared named live
    obtain ⟨_, again, otherAnswer⟩ :=
      kept.store.live kept.compiled kept.owners unshared otherNamed otherLive
    cases held.symm.trans again
    exact (kept.entry member held).rivals f field g other group (by rw [answer]; rfl)
      (by rw [otherAnswer]; rfl)

end Session

namespace Sitting
variable {sit : Sitting}

theorem perform_keepsApart (sit : Sitting) (kept : sit.session.KeepsApart) (request : Request) :
    (sit.perform request).session.KeepsApart := by
  cases request with
  | setField key v => exact kept.setField key v
  | clearField key => exact kept.clearField key
  | advance => exact kept.concludes (sit.session.advance_concludes sit.storage)
  | advanceAnyway => exact kept.concludes (sit.session.advanceAnyway_concludes sit.storage)
  | retreat => exact kept.concludes (sit.session.commit_concludes .back sit.storage)
  | submit completedAt =>
    exact kept.concludes (sit.session.submit_concludes completedAt sit.storage)

theorem handleAll_keepsApart (kept : sit.session.KeepsApart) {events : List Event}
    (direct : .resume ∉ events) : (sit.handleAll events).session.KeepsApart := by
  induction events generalizing sit with
  | nil => exact kept
  | cons event events ih =>
    have step : (sit.handle event).session.KeepsApart := by
      cases event with
      | start => exact kept.start
      | resume => exact absurd List.mem_cons_self direct
      | call c =>
        exact perform_keepsApart { sit with storage := sit.storage.behave c.code c.failure } kept
          c.request
    exact ih step fun member => direct (List.mem_cons_of_mem _ member)

/-- Whatever is asked of a new session, whose questions have distinct keys, and however storage
answers: in every entry an option that excludes the others is selected alone and of rival fields
at most one has an answer. The same is true of what is live under the fields of a question,
unless a row is called like the question or the field is. -/
theorem exclusive_answers_kept {s : Session} (fresh : s.IsFresh) (distinct : s.survey.DistinctKeys)
    (storage : Storage) {events : List Event} (direct : .resume ∉ events) :
    let t := (handleAll { session := s, storage } events).session
    ∀ r ∈ s.survey.records,
      (∀ e, t.store.entry? r.id = some e → r.KeepsApart e) ∧
      ((∀ row ∈ s.survey.rows, row.id ≠ r.id) →
        (∀ v, t.store.liveValue? checkboxKey r.id = some v → r.Alone v) ∧
        ∀ f ∈ r.fields, ∀ g ∈ r.fields, f.Rivals g →
          compoundName f.key r.id ≠ r.id → compoundName g.key r.id ≠ r.id →
          (t.store.liveValue? f.key r.id).isSome → (t.store.liveValue? g.key r.id).isSome →
          f = g) := by
  intro t r member
  have kept : t.KeepsApart := handleAll_keepsApart (fresh.keepsApart distinct) direct
  have same : t.survey = s.survey := (handleAll_sameSurvey events { session := s, storage }).survey
  rw [← same] at member ⊢
  exact ⟨fun e => kept.entry member, kept.live member⟩

/-- What comes of events on a new session for a survey. -/
def sessionAfter (survey : Survey) (events : List Event) : Session :=
  (handleAll { session := .ofSurvey survey {} none, storage := .memory {} } events).session

theorem sessionAfter_survey (survey : Survey) (events : List Event) :
    (sessionAfter survey events).survey = survey :=
  (handleAll_sameSurvey events { session := .ofSurvey survey {} none, storage := .memory {} }).survey

section
variable {survey : Survey} {events : List Event} {q key : String} {r : Record} {f : AnswerField}
  {v : AnswerValue}

theorem sessionAfter_keepsApart (compiled : survey.Compiled) (distinct : survey.DistinctKeys)
    (direct : .resume ∉ events) : (sessionAfter survey events).KeepsApart :=
  handleAll_keepsApart ((Session.ofSurvey_isFresh compiled {} none).keepsApart distinct) direct

theorem sessionAfter_setField (survey : Survey) (events : List Event) (key : String)
    (v : AnswerValue) :
    sessionAfter survey (events ++ [.call { request := .setField key v }]) =
      ((sessionAfter survey events).setField key v).2 := by
  rw [sessionAfter, handleAll, List.foldl_append]
  rfl

theorem sessionAfter_kept (single : f.key ≠ checkboxKey) :
    (sessionAfter survey events).kept r f v = v := by
  rw [Session.kept, if_neg (by simpa using single)]

/-- The last answer of a session is live under its field. -/
theorem sessionAfter_live (shown : (sessionAfter survey events).navigator.current? = some q)
    (found : survey.record? q = some r) (field : r.field? key = some f)
    (single : key ≠ checkboxKey) (plain : '.' ∉ key.toList) (pointless : '.' ∉ q.toList)
    (apart : compoundName key q ≠ q) (answered : v.isEmpty = false) :
    (sessionAfter survey (events ++ [.call { request := .setField key v }])).store.liveValue? key q
      = some v := by
  have there : (sessionAfter survey events).survey.get? q = some r := by
    rw [sessionAfter_survey]
    exact Survey.get?_of_record? found
  obtain ⟨-, rfl⟩ := Survey.mem_of_record? found
  obtain rfl : f.key = key := by simpa using List.find?_some field
  have same : (sessionAfter survey events).kept r f v = v := sessionAfter_kept single
  obtain ⟨-, e, held, given⟩ := Session.put_answered (by rw [same]; exact answered)
  rw [sessionAfter_setField, Session.setField_put shown there field]
  rw [same] at given
  exact Store.liveValue?_entry held given plain pointless fun same => absurd same apart

theorem sessionAfter_first (kept : (sessionAfter survey events).KeepsApart)
    (shown : (sessionAfter survey events).navigator.current? = some q)
    (found : survey.record? q = some r) (field : r.field? key = some f)
    (single : key ≠ checkboxKey) (blank : (sessionAfter survey events).store.entry? q = none)
    (answered : v.isEmpty = false) :
    (sessionAfter survey (events ++ [.call { request := .setField key v }])).store.entry? q =
      some (if (r.fields.map AnswerField.key).toFinset.card ≤ 1 then .single v
        else .keyed (Dict.empty.insert key v)) := by
  rw [← sessionAfter_survey survey events] at found
  have key_eq : f.key = key := by simpa using List.find?_some field
  have same : (sessionAfter survey events).kept r f v = v := sessionAfter_kept (key_eq ▸ single)
  have first := kept.setField_first shown found field blank (by rw [same]; exact answered)
  rw [same] at first
  rw [sessionAfter_setField, first]

theorem sessionAfter_others {other : String}
    (shown : (sessionAfter survey events).navigator.current? = some q) (apart : other ≠ q) :
    (sessionAfter survey (events ++ [.call { request := .setField key v }])).store.entry? other =
      (sessionAfter survey events).store.entry? other := by
  rw [sessionAfter_setField]
  rcases (sessionAfter survey events).setField_cases key v with same | edits
  · rw [same]
  · obtain ⟨question, store, current, edited, after⟩ := edits
    obtain rfl := Option.some.inj (shown.symm.trans current)
    rw [after]
    exact edited.entry? apart

end

/-- A question with two ways to fill in one thing. -/
def hoursText : String := "[A]\n\x7btext:hours xor=h\x7d\x7btext:unsure xor=h\x7d\n[END]"

/-- An answer in one way, and a transition that storage refuses. -/
def hoursEvents : List Event :=
  [.start, .call { request := .setField "hours" (.one "3") },
    .call { request := .advance, code := 500 }]

/-- When the question is then answered in the other way, the first answer is gone. -/
theorem exclusive_answers_kept_hours : ∃ survey,
    (Survey.compile {} "s" hoursText).toOption = some survey ∧
    let t := sessionAfter survey
      (hoursEvents ++ [.call { request := .setField "unsure" (.one "no idea") }])
    t.store.liveValue? "unsure" "A" = some (.one "no idea") ∧
      t.store.liveValue? "hours" "A" = none := by
  have evaluated : ((Survey.compile {} "s" hoursText).toOption.map fun survey =>
      (decide survey.DistinctKeys && survey.rows.isEmpty,
        (survey.record? "A").map fun r =>
          ["hours", "unsure"].map fun key => (r.field? key).bind AnswerField.exclusiveGroup,
        (sessionAfter survey hoursEvents).navigator.current?)) =
      some (true, some [some "h", some "h"], some "A") := by
    decide +kernel
  obtain ⟨survey, accepted, evaluated⟩ := Option.map_eq_some_iff.1 evaluated
  simp only [Prod.mk.injEq, Bool.and_eq_true, decide_eq_true_eq, List.isEmpty_iff,
    Option.map_eq_some_iff, List.map_cons, List.map_nil, List.cons.injEq,
    Option.bind_eq_some_iff] at evaluated
  obtain ⟨⟨distinct, rowless⟩, ⟨r, found, ⟨f, hours, group⟩, ⟨g, unsure, same⟩, -⟩, shown⟩ :=
    evaluated
  obtain ⟨member, named⟩ := Survey.mem_of_record? found
  have hoursKey : f.key = "hours" := by simpa using List.find?_some hours
  have unsureKey : g.key = "unsure" := by simpa using List.find?_some unsure
  have answer := sessionAfter_live (v := .one "no idea") shown found unsure (by decide) (by decide)
    (by decide) (by decide) rfl
  refine ⟨survey, accepted, answer, ?_⟩
  have fresh := Session.ofSurvey_isFresh (Survey.compiled_of_toOption accepted) {} none
  have direct : Event.resume ∉
      hoursEvents ++ [.call { request := .setField "unsure" (.one "no idea") }] := by
    simp [hoursEvents]
  obtain ⟨-, live⟩ := exclusive_answers_kept fresh distinct (.memory {}) direct r member
  obtain ⟨-, rivals⟩ := live (by simp [Session.ofSurvey, rowless])
  by_contra other
  have one := rivals f (List.mem_of_find?_eq_some hours) g (List.mem_of_find?_eq_some unsure)
    ⟨"h", group, same⟩
  rw [named, hoursKey, unsureKey] at one
  obtain rfl := one (by decide) (by decide) (Option.isSome_iff_ne_none.2 other)
    (Option.isSome_iff_exists.2 ⟨_, answer⟩)
  have apart : "hours" ≠ "unsure" := by decide
  exact apart (hoursKey.symm.trans unsureKey)

/-- What is live for a question keeps its answers apart. -/
structure LiveApart (s : Session) (r : Record) : Prop where
  alone : ∀ v, s.store.liveValue? checkboxKey r.id = some v → r.Alone v
  rivals : ∀ f ∈ r.fields, ∀ g ∈ r.fields, f.Rivals g →
    (s.store.liveValue? f.key r.id).isSome → (s.store.liveValue? g.key r.id).isSome → f = g

/-- On the survey of a text, events lead to a question whose live answers are not kept apart. -/
def BreaksApart (text : String) (events : List Event) : Prop :=
  ∃ survey r, (Survey.compile {} "s" text).toOption = some survey ∧ survey.DistinctKeys ∧
    r ∈ survey.records ∧ ¬LiveApart (sessionAfter survey events) r

/-- A question with a group of options, and a grid with a row that is called like it. -/
def sharedGroupText : String :=
  "[R]\n(!N) none\n(+A) a\n|grid G||x|R=r|checkbox:N=n;checkbox:A=a|\n[END]"

/-- The grid is shown, and nothing has been answered. -/
def gridEvents : List Event := [.start, .call { request := .advance }]

def selection : AnswerValue := .many ["N", "A"]

/-- The selection in a row, where no option excludes another, is live for the question. -/
theorem row_selection_live :
    BreaksApart sharedGroupText (gridEvents ++ [.call { request := .setField "R" selection }]) := by
  have asked : ((Survey.compile {} "s" sharedGroupText).toOption.map fun survey =>
      (decide survey.DistinctKeys, (survey.record? "R").map Record.soleValues,
        (survey.record? "G").map fun r => (r.fields.map AnswerField.key, (r.field? "R").isSome))) =
      some (true, some ["N"], some (["R"], true)) := by
    decide +kernel
  have shown : ((Survey.compile {} "s" sharedGroupText).toOption.map fun survey =>
      let s := sessionAfter survey gridEvents
      (s.navigator.current?, ["G", "R"].all fun q => (s.store.entry? q).isNone,
        survey.rowOwners.get? "R")) = some (some "G", true, some "G") := by
    decide +kernel
  obtain ⟨survey, accepted, asked⟩ := Option.map_eq_some_iff.1 asked
  rw [accepted, Option.map_some] at shown
  simp only [Prod.mk.injEq, decide_eq_true_eq, Option.map_eq_some_iff, Option.some.injEq,
    List.all_cons, List.all_nil, Bool.and_true, Bool.and_eq_true, Option.isNone_iff_eq_none,
    Option.isSome_iff_exists] at asked shown
  obtain ⟨distinct, ⟨r, found, sole⟩, g, grid, keys, f, field⟩ := asked
  obtain ⟨shown, ⟨blank, unanswered⟩, owner⟩ := shown
  obtain ⟨member, named⟩ := Survey.mem_of_record? found
  have compiled := Survey.compiled_of_toOption accepted
  have before : (sessionAfter survey gridEvents).KeepsApart :=
    sessionAfter_keepsApart compiled distinct (by simp [gridEvents])
  let t := sessionAfter survey (gridEvents ++ [.call { request := .setField "R" selection }])
  have bare : t.store.entry? "G" = some (.single selection) := by
    have first := sessionAfter_first (v := selection) before shown grid field (by decide) blank rfl
    rwa [keys, if_pos (by decide)] at first
  have none : t.store.entry? "R" = none :=
    (sessionAfter_others shown (by decide)).trans unanswered
  have owned : t.store.rowOwners.get? "R" = some "G" := by
    have after : t.KeepsApart := sessionAfter_keepsApart compiled distinct (by simp [gridEvents])
    rw [after.owners, sessionAfter_survey, owner]
  have live : t.store.liveValue? checkboxKey "R" = some selection := by
    have apart : compoundName checkboxKey "R" ≠ "R" := by decide
    rw [Store.liveValue?, compoundName_of_ne apart, Store.live?_field _ (by decide),
      Store.liveField?, none]
    simp only [Store.ownerEntry?, owned, Option.bind_some, bare]
    rfl
  refine ⟨survey, r, accepted, distinct, member, fun apart => ?_⟩
  have alone := apart.alone selection (by rw [named]; exact live)
  have same : "A" = "N" := alone _ rfl "N" (by simp) (by simp [sole]) "A" (by simp)
  revert same
  decide

/-- A question with two fields of one exclusive group; one of them is called like the question. -/
def ownFieldText : String := "[A]\n\x7btext:A xor=g\x7d \x7btext:B xor=g\x7d\n[END]"

/-- The one answer of the question is live for the field that is called like the question. -/
theorem own_field_live :
    BreaksApart ownFieldText ([.start] ++ [.call { request := .setField "B" (.one "x") }]) := by
  have evaluated : ((Survey.compile {} "s" ownFieldText).toOption.map fun survey =>
      (decide (survey.DistinctKeys ∧
          (sessionAfter survey [.start]).navigator.current? = some "A"),
        (survey.record? "A").map fun r => (r.fields.map AnswerField.key,
          ["A", "B"].map fun key => (r.field? key).bind AnswerField.exclusiveGroup))) =
      some (true, some (["A", "B"], [some "g", some "g"])) := by
    decide +kernel
  obtain ⟨survey, accepted, evaluated⟩ := Option.map_eq_some_iff.1 evaluated
  simp only [Prod.mk.injEq, decide_eq_true_eq, Option.map_eq_some_iff, List.map_cons,
    List.map_nil, List.cons.injEq, Option.bind_eq_some_iff] at evaluated
  obtain ⟨⟨distinct, shown⟩, r, found, keys, ⟨f, first, group⟩, ⟨g, second, same⟩, -⟩ := evaluated
  obtain ⟨member, named⟩ := Survey.mem_of_record? found
  have before := sessionAfter_keepsApart (Survey.compiled_of_toOption accepted) distinct
    (show Event.resume ∉ [Event.start] by simp)
  let t := sessionAfter survey ([.start] ++ [.call { request := .setField "B" (.one "x") }])
  have keyed : t.store.entry? "A" = some (.keyed (Dict.empty.insert "B" (.one "x"))) := by
    have first := sessionAfter_first (v := .one "x") before shown found second (by decide) rfl rfl
    rwa [keys, if_neg (by decide)] at first
  have own : t.store.liveValue? "A" "A" = some (.one "x") := by
    have collapsed : compoundName "A" "A" = "A" := by decide
    rw [Store.liveValue?, collapsed, Store.live?_plain _ (by decide), Store.livePrimary?, keyed]
    rfl
  have other : t.store.liveValue? "B" "A" = some (.one "x") :=
    sessionAfter_live shown found second (by decide) (by decide) (by decide) (by decide) rfl
  refine ⟨survey, r, accepted, distinct, member, fun apart => ?_⟩
  have firstKey : f.key = "A" := by simpa using List.find?_some first
  have secondKey : g.key = "B" := by simpa using List.find?_some second
  have one := apart.rivals f (List.mem_of_find?_eq_some first) g (List.mem_of_find?_eq_some second)
    ⟨"g", group, same⟩
  rw [named, firstKey, secondKey] at one
  obtain rfl := one (Option.isSome_iff_exists.2 ⟨_, own⟩) (Option.isSome_iff_exists.2 ⟨_, other⟩)
  have distinctKeys : "A" ≠ "B" := by decide
  exact distinctKeys (firstKey.symm.trans secondKey)

/-- The entries keep their answers apart all the same, but what is live may not. -/
theorem live_not_exclusive :
    BreaksApart sharedGroupText (gridEvents ++ [.call { request := .setField "R" selection }]) ∧
    BreaksApart ownFieldText ([.start] ++ [.call { request := .setField "B" (.one "x") }]) :=
  ⟨row_selection_live, own_field_live⟩

end Sitting

end Questionnaire
