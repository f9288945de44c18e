import Questionnaire.Proofs.Answer.Cache
import Questionnaire.Proofs.Session.Rollback

/-! A mandate cannot be bypassed. Whatever has been done with a session, a move forward leaves a
mandated question only if none of its fields is to be filled in or one of them has an answer of
this session, and a move that the gate refuses leaves no trace. -/
namespace Questionnaire

namespace Store
variable {s : Store} {name field question : String} {v : AnswerValue}

/-- An answer that stands in the present entry of a question. -/
def Holds (s : Store) (v : AnswerValue) : Prop :=
  ∃ question e key, s.entry? question = some e ∧ e.field? key = some v

theorem holds_of_primary? {e : Entry} (entered : s.entry? question = some e)
    (held : e.primary? = some v) : s.Holds v := by
  cases e with
  | single other => exact ⟨question, _, "", entered, held⟩
  | keyed answers =>
    simp only [Entry.primary?] at held
    split at held
    · next name other alone =>
      cases held
      refine ⟨question, _, name, entered, Dict.mem_entries.1 ?_⟩
      rw [alone]
      exact List.mem_singleton_self _
    · rcases Option.or_eq_some_iff.1 held with held | ⟨-, held⟩
      · exact ⟨question, _, radioKey, entered, held⟩
      · exact ⟨question, _, checkboxKey, entered, held⟩

theorem holds_of_owner {key : String}
    (held : ((s.ownerEntry? question).bind (·.field? key)) = some v) : s.Holds v := by
  obtain ⟨e, owned, held⟩ := Option.bind_eq_some_iff.1 held
  obtain ⟨grid, -, entered⟩ := Option.bind_eq_some_iff.1 owned
  exact ⟨grid, e, key, entered, held⟩

/-- What is live is held, in whatever way its name leads to it. -/
theorem holds_of_live? (live : s.live? name = some v) : s.Holds v := by
  unfold live? at live
  split at live
  · next field question _ =>
    unfold liveField? at live
    split at live
    · next e entered => exact ⟨question, e, field, entered, live⟩
    · exact holds_of_owner live
  · unfold livePrimary? at live
    split at live
    · next e entered => exact holds_of_primary? entered live
    · exact holds_of_owner live

/-- Neither results of an earlier survey nor stored data are live. -/
theorem liveValue?_ground (s : Store) (prior : Dict AnswerValue) (index : LegacyIndex) :
    ((s.setPrior prior).setLegacy index).liveValue? field question = s.liveValue? field question :=
  rfl

end Store

namespace Session
variable {s t : Session} {q : String} {r : Record} {f : AnswerField}

/-- A field is to be filled in: it is neither disabled nor hidden by its condition. -/
structure Asks (s : Session) (f : AnswerField) : Prop where
  enabled : f.disabled = false
  shown : ∀ condition, f.displayIf = some condition → s.holds condition = true

/-- A field of a question has a live answer that is not empty. -/
def Filled (s : Session) (r : Record) (f : AnswerField) : Prop :=
  ∃ v, s.store.liveValue? f.key r.id = some v ∧ v.isEmpty = false

/-- What a mandate demands of a question that is left. -/
def MayLeave (s : Session) (r : Record) : Prop :=
  (∀ f ∈ r.fields, ¬s.Asks f) ∨ ∃ f ∈ r.fields, s.Asks f ∧ s.Filled r f

/-- The fields that are to be filled in, have no answer and belong to no exclusive group. -/
def blanks (s : Session) (r : Record) : List AnswerField :=
  r.fields.filter fun f => GateOutcome.qualifies s.evaluator s.store f &&
    !GateOutcome.isAnswered s.store r.id f && f.exclusiveGroup.isNone

theorem qualifies_iff : GateOutcome.qualifies s.evaluator s.store f = true ↔ s.Asks f := by
  unfold GateOutcome.qualifies
  rw [Bool.and_eq_true, Bool.not_eq_true', Option.all_eq_true]
  constructor
  · rintro ⟨enabled, shown⟩
    exact ⟨enabled, shown⟩
  · rintro ⟨enabled, shown⟩
    exact ⟨enabled, shown⟩

theorem isAnswered_iff : GateOutcome.isAnswered s.store r.id f = true ↔ s.Filled r f := by
  unfold GateOutcome.isAnswered Filled
  rw [Option.any_eq_true]
  simp only [Bool.not_eq_true']

/-! ### The gate -/

/-- The gate lets a mandated question pass exactly if it may be left. -/
theorem ofFields_eq (s : Session) (r : Record) (overridable : Bool) :
    (s.MayLeave r → GateOutcome.ofFields s.evaluator s.store r overridable = .passed) ∧
      (¬s.MayLeave r → GateOutcome.ofFields s.evaluator s.store r overridable =
        .blocked (s.blanks r).length overridable) := by
  have asked (f : AnswerField) :
      f ∈ r.fields.filter (GateOutcome.qualifies s.evaluator s.store) ↔ f ∈ r.fields ∧ s.Asks f := by
    rw [List.mem_filter, qualifies_iff]
  constructor
  · rintro (none | ⟨f, member, asks, filled⟩)
    · have nothing : r.fields.filter (GateOutcome.qualifies s.evaluator s.store) = [] := by
        apply List.eq_nil_iff_forall_not_mem.2
        intro f member
        exact none f ((asked f).1 member).1 ((asked f).1 member).2
      simp only [GateOutcome.ofFields, nothing, List.isEmpty_nil, Bool.true_or, if_true]
    · have answered : (r.fields.filter (GateOutcome.qualifies s.evaluator s.store)).any
          (GateOutcome.isAnswered s.store r.id) = true :=
        List.any_eq_true.2 ⟨f, (asked f).2 ⟨member, asks⟩, isAnswered_iff.2 filled⟩
      simp only [GateOutcome.ofFields, answered, Bool.or_true, if_true]
  · intro kept
    have unanswered : ∀ f ∈ r.fields, GateOutcome.qualifies s.evaluator s.store f = true →
        GateOutcome.isAnswered s.store r.id f = false := by
      intro f member qualifies
      refine Bool.eq_false_iff.2 fun answered => kept (.inr ⟨f, member, ?_, ?_⟩)
      · exact qualifies_iff.1 qualifies
      · exact isAnswered_iff.1 answered
    have some : (r.fields.filter (GateOutcome.qualifies s.evaluator s.store)).isEmpty = false := by
      refine Bool.eq_false_iff.2 fun empty => kept (.inl fun f member asks => ?_)
      have among := (asked f).2 ⟨member, asks⟩
      rw [List.isEmpty_iff.1 empty] at among
      cases among
    have none : (r.fields.filter (GateOutcome.qualifies s.evaluator s.store)).any
        (GateOutcome.isAnswered s.store r.id) = false := by
      rw [List.any_eq_false]
      intro f member
      rw [List.mem_filter] at member
      exact Bool.not_eq_true _ ▸ unanswered f member.1 member.2
    simp only [GateOutcome.ofFields, some, none, Bool.or_self, Bool.false_eq_true, if_false]
    congr 1
    rw [List.countP_filter, List.countP_eq_length_filter, blanks]
    congr 1
    apply List.filter_congr
    intro f member
    cases qualifies : GateOutcome.qualifies s.evaluator s.store f with
    | false => simp
    | true => simp [unanswered f member qualifies]

/-- The gate is closed exactly for an active question with a mandate that may not be left yet. -/
theorem gate_eq_blocked_iff {n : Nat} {overridable : Bool} : s.gate = .blocked n overridable ↔
    ∃ q r, s.navigator.state = .active q ∧ s.survey.get? q = some r ∧
      r.directives.mandate = (if overridable then .soft else .hard) ∧ ¬s.MayLeave r ∧
        n = (s.blanks r).length := by
  constructor
  · intro blocked
    unfold gate at blocked
    split at blocked
    · next q active =>
      split at blocked
      · next r found =>
        refine ⟨q, r, active, found, ?_⟩
        have demanded (flag : Bool)
            (outcome : GateOutcome.ofFields s.evaluator s.store r flag = .blocked n overridable) :
            flag = overridable ∧ ¬s.MayLeave r ∧ n = (s.blanks r).length := by
          by_cases free : s.MayLeave r
          · cases ((ofFields_eq s r flag).1 free).symm.trans outcome
          · cases ((ofFields_eq s r flag).2 free).symm.trans outcome
            exact ⟨rfl, free, rfl⟩
        unfold GateOutcome.ofRecord at blocked
        split at blocked
        · cases blocked
        · next soft =>
          obtain ⟨rfl, rest⟩ := demanded true blocked
          exact ⟨soft, rest⟩
        · next hard =>
          obtain ⟨rfl, rest⟩ := demanded false blocked
          exact ⟨hard, rest⟩
      · cases blocked
    · cases blocked
  · rintro ⟨q, r, active, found, mandate, kept, rfl⟩
    have outcome := (ofFields_eq s r overridable).2 kept
    cases overridable <;> simp_all [gate, GateOutcome.ofRecord]

/-! ### Moving on -/

/-- The ways of moving on. -/
inductive Way where
  | advance
  | advanceAnyway
  | advanceDeferred

def unfinished : Result → Except SurveyError Deferred × Session × Storage
  | (outcome, t, later) => (outcome.map .settled, t, later)

/-- Moves on in one of these ways. -/
def proceed (s : Session) (storage : Storage) :
    Way → Except SurveyError Deferred × Session × Storage
  | .advance => unfinished (s.advance storage)
  | .advanceAnyway => unfinished (s.advanceAnyway storage)
  | .advanceDeferred => (s.advanceDeferred.1, s.advanceDeferred.2, storage)

/-- The move alone, without the gate in front of it. -/
def onward (s : Session) (storage : Storage) :
    Way → Except SurveyError Deferred × Session × Storage
  | .advance | .advanceAnyway => unfinished (s.commit .forward storage)
  | .advanceDeferred => ((s.depart .forward).1, (s.depart .forward).2, storage)

/-- The question that was shown is left, whether or not storage takes that back at once. -/
def Leaves : Except SurveyError Deferred → Prop
  | .ok (.ready _) => True
  | .ok (.settled t) => t.isStored = true ∨ t.isRolledBack = true
  | .error _ => False

def IsBlocked (n : Nat) (overridable : Bool) (outcome : Except SurveyError Deferred) : Prop :=
  outcome = .ok (.settled (.blocked n overridable))

/-- A refusal that the respondent may override stops every way of moving on but one. -/
def Way.Heeds (way : Way) (overridable : Bool) : Prop := overridable = true → way ≠ .advanceAnyway

theorem proceed_blocked {n : Nat} {overridable : Bool} {way : Way} (storage : Storage)
    (blocked : s.gate = .blocked n overridable) (heeds : way.Heeds overridable) :
    s.proceed storage way = (.ok (.settled (.blocked n overridable)), s, storage) := by
  cases way with
  | advance => simp only [proceed, advance, blocked, unfinished, Except.map]
  | advanceAnyway =>
    obtain rfl : overridable = false := Bool.eq_false_iff.2 fun flag => heeds flag rfl
    simp only [proceed, advanceAnyway, blocked, unfinished, Except.map]
  | advanceDeferred => simp only [proceed, advanceDeferred, blocked]

theorem proceed_onward {way : Way} (storage : Storage)
    (passes : ∀ n overridable, s.gate = .blocked n overridable → ¬way.Heeds overridable) :
    s.proceed storage way = s.onward storage way := by
  cases gate : s.gate with
  | passed =>
    cases way with
    | advance => simp only [proceed, onward, advance, gate]
    | advanceAnyway => simp only [proceed, onward, advanceAnyway, gate]
    | advanceDeferred => simp only [proceed, onward, advanceDeferred, gate]
  | blocked n overridable =>
    have insists := passes n overridable gate
    cases overridable with
    | false => exact absurd (fun flag => by cases flag) insists
    | true =>
      cases way with
      | advance => exact absurd (fun _ same => by cases same) insists
      | advanceAnyway => simp only [proceed, onward, advanceAnyway, gate]
      | advanceDeferred => exact absurd (fun _ same => by cases same) insists

theorem conclude_outcome (t : Session) (commit : PendingCommit) (storage : Storage)
    (done : commit.transition.isStored = true) :
    (t.conclude commit storage).1.isStored = true ∨
      (t.conclude commit storage).1.isRolledBack = true := by
  unfold conclude settle
  dsimp only
  split
  · split
    · exact .inl done
    · exact .inr rfl
  · exact .inr rfl

/-- Without the gate a move is never blocked, and it leaves active questions only. -/
theorem onward_outcome (s : Session) (storage : Storage) (way : Way) :
    (∀ n overridable, ¬IsBlocked n overridable (s.onward storage way).1) ∧
      (Leaves (s.onward storage way).1 → ∃ q, s.navigator.state = .active q) := by
  have active {id : String} {n : Navigator} (moved : s.move .forward = (.ok (some id), n)) :
      ∃ q, s.navigator.state = .active q := by
    cases state : s.navigator.state with
    | active q => exact ⟨q, rfl⟩
    | idle => simp [move, Navigator.next, state] at moved
    | terminal q => simp [move, Navigator.next, state] at moved
  obtain ⟨e, failed⟩ | stayed | ⟨id, n, moved, left⟩ := s.depart_cases .forward
  · cases way <;> simp [onward, commit, failed, unfinished, IsBlocked, Leaves, Except.map]
  · cases way <;> simp [onward, commit, stayed, unfinished, IsBlocked, Leaves, Except.map,
      Transition.isStored, Transition.isRolledBack]
  · refine ⟨?_, fun _ => active moved⟩
    have unblocked (storage : Storage) : ∀ n overridable,
        ¬IsBlocked n overridable (unfinished (s.commit .forward storage)).1 := by
      intro unanswered overridable blocked
      simp only [commit, left, unfinished, IsBlocked, Except.map, Except.ok.injEq,
        Deferred.settled.injEq] at blocked
      have ended := conclude_outcome { s with navigator := n, store := s.store.merge }
        ⟨{ s with navigator := n }.changes,
          Session.arrival { s with navigator := n, store := s.store.merge } .forward id, s.snapshot⟩
        storage (arrival_isStored _ .forward id)
      rw [blocked] at ended
      rcases ended with stored | back
      · cases stored
      · cases back
    cases way with
    | advance => exact unblocked storage
    | advanceAnyway => exact unblocked storage
    | advanceDeferred => simp [onward, left, IsBlocked]

end Session

/-- Whether a mandate holds for a way of moving on. -/
def Mandate.Binds : Mandate → Session.Way → Prop
  | .hard, _ => True
  | .soft, way => way ≠ .advanceAnyway
  | .optional, _ => False

namespace Session
variable {s : Session}

theorem binds_iff {mandate : Mandate} {way : Way} : mandate.Binds way ↔
    ∃ overridable, mandate = (if overridable = true then .soft else .hard) ∧
      way.Heeds overridable := by
  cases mandate with
  | optional => simp [Mandate.Binds]
  | soft => simp [Mandate.Binds, Way.Heeds]
  | hard => simp [Mandate.Binds, Way.Heeds]

/-- A move is blocked exactly where the gate is closed and the move heeds it. -/
theorem isBlocked_iff {storage : Storage} {way : Way} {n : Nat} {overridable : Bool} :
    IsBlocked n overridable (s.proceed storage way).1 ↔
      s.gate = .blocked n overridable ∧ way.Heeds overridable := by
  constructor
  · intro blocked
    by_cases closed : ∃ m flag, s.gate = .blocked m flag ∧ way.Heeds flag
    · obtain ⟨m, flag, gate, heeds⟩ := closed
      rw [proceed_blocked storage gate heeds] at blocked
      cases blocked
      exact ⟨gate, heeds⟩
    · rw [proceed_onward storage fun m flag gate heeds => closed ⟨m, flag, gate, heeds⟩] at blocked
      exact absurd blocked ((s.onward_outcome storage way).1 n overridable)
  · rintro ⟨gate, heeds⟩
    rw [proceed_blocked storage gate heeds]
    rfl

/-- Whoever leaves a question has left an active one, past a gate that did not stop this way. -/
theorem leaves_open {storage : Storage} {way : Way} (leaves : Leaves (s.proceed storage way).1) :
    (∃ q, s.navigator.state = .active q) ∧
      ∀ n overridable, s.gate = .blocked n overridable → ¬way.Heeds overridable := by
  have passes : ∀ n overridable, s.gate = .blocked n overridable → ¬way.Heeds overridable := by
    intro n overridable gate heeds
    rw [proceed_blocked storage gate heeds] at leaves
    rcases leaves with stored | back
    · cases stored
    · cases back
  rw [proceed_onward storage passes] at leaves
  exact ⟨(s.onward_outcome storage way).2 leaves, passes⟩

/-- In whatever way a session that has come about by any operations moves on: it leaves a
question whose mandate binds only if no field is to be filled in or one has a live answer; it is
blocked exactly at such a question that may not be left, tells how many fields are blank and
stays as it is, storage untouched whichever it is; and live answers are those that stand in an
entry, whatever an earlier survey or stored data say. -/
theorem mandate_kept (s : Session) (operations : List Operation) (storage : Storage) (way : Way) :
    let t := s.afterAll operations
    (∀ q r, t.navigator.current? = some q → t.survey.get? q = some r →
      r.directives.mandate.Binds way → Leaves (t.proceed storage way).1 → t.MayLeave r) ∧
    (∀ n overridable, IsBlocked n overridable (t.proceed storage way).1 ↔
      ∃ q r, t.navigator.state = .active q ∧ t.survey.get? q = some r ∧
        r.directives.mandate = (if overridable = true then .soft else .hard) ∧
        r.directives.mandate.Binds way ∧ ¬t.MayLeave r ∧ n = (t.blanks r).length) ∧
    (∀ n overridable, IsBlocked n overridable (t.proceed storage way).1 → ∀ other : Storage,
      t.proceed other way = ((t.proceed storage way).1, t, other)) ∧
    ∀ r f, t.Filled r f → (∃ v, t.store.Holds v ∧ v.isEmpty = false) ∧
      ∀ prior index, Filled { t with store := (t.store.setPrior prior).setLegacy index } r f := by
  intro t
  refine ⟨?_, ?_, ?_, ?_⟩
  · intro q r shown found binds leaves
    by_contra kept
    obtain ⟨⟨active, state⟩, passes⟩ := leaves_open leaves
    obtain rfl : active = q := by
      rw [Navigator.current?, state] at shown
      exact Option.some.inj shown
    obtain ⟨overridable, mandate, heeds⟩ := binds_iff.1 binds
    have gate : t.gate = .blocked (t.blanks r).length overridable :=
      gate_eq_blocked_iff.2 ⟨active, r, state, found, mandate, kept, rfl⟩
    exact passes _ overridable gate heeds
  · intro n overridable
    rw [isBlocked_iff, gate_eq_blocked_iff]
    constructor
    · rintro ⟨⟨q, r, active, found, mandate, kept, counted⟩, heeds⟩
      exact ⟨q, r, active, found, mandate, binds_iff.2 ⟨overridable, mandate, heeds⟩, kept, counted⟩
    · rintro ⟨q, r, active, found, mandate, binds, kept, counted⟩
      refine ⟨⟨q, r, active, found, mandate, kept, counted⟩, ?_⟩
      obtain ⟨flag, same, heeds⟩ := binds_iff.1 binds
      rw [mandate] at same
      cases overridable <;> cases flag <;> first | exact heeds | cases same
  · intro n overridable blocked other
    obtain ⟨gate, heeds⟩ := isBlocked_iff.1 blocked
    rw [proceed_blocked other gate heeds, proceed_blocked storage gate heeds]
  · rintro r f ⟨v, live, full⟩
    refine ⟨⟨v, Store.holds_of_live? live, full⟩, fun prior index => ⟨v, ?_, full⟩⟩
    rw [Store.liveValue?_ground]
    exact live

/-- A question that must be answered. -/
def mandatedText : String := "[A!]\n\x7btext\x7d\n[END]"

/-- Not even by insisting can it be left blank, and an answer opens the way. -/
theorem mandate_kept_note : ∃ survey r, (Survey.compile {} "s" mandatedText).toOption = some survey ∧
    let s := (ofSurvey survey {} none).start.2
    let t := s.afterAll [.perform (.setField "text" (.one "x")) (.host 500)]
    (∀ storage, s.proceed storage .advanceAnyway = (.ok (.settled (.blocked 1 false)), s, storage)) ∧
      Leaves (t.proceed (.host 200) .advance).1 ∧ t.survey.get? "A" = some r ∧ t.MayLeave r := by
  have evaluated : ((Survey.compile {} "s" mandatedText).toOption.map fun survey =>
      let s := (ofSurvey survey {} none).start.2
      let t := s.afterAll [.perform (.setField "text" (.one "x")) (.host 500)]
      (s.gate, t.navigator.current?, (t.survey.get? "A").map (·.directives.mandate),
        match (t.proceed (.host 200) .advance).1 with
        | .ok (.settled outcome) => outcome.isStored
        | _ => false)) =
      some (.blocked 1 false, some "A", some .hard, true) := by
    decide +kernel
  obtain ⟨survey, accepted, evaluated⟩ := Option.map_eq_some_iff.1 evaluated
  simp only [Prod.mk.injEq, Option.map_eq_some_iff] at evaluated
  obtain ⟨gate, shown, ⟨r, found, mandate⟩, stored⟩ := evaluated
  have leaves : Leaves (((ofSurvey survey {} none).start.2.afterAll
      [.perform (.setField "text" (.one "x")) (.host 500)]).proceed (.host 200) .advance).1 := by
    split at stored
    · next outcome settled =>
      rw [settled]
      exact .inl stored
    · cases stored
  refine ⟨survey, r, accepted, fun storage => ?_, leaves, found, ?_⟩
  · have heeds : Way.advanceAnyway.Heeds false := fun flag => by cases flag
    have blocked : IsBlocked 1 false ((ofSurvey survey {} none).start.2.proceed (.host 200)
        .advanceAnyway).1 := isBlocked_iff.2 ⟨gate, heeds⟩
    have still := mandate_kept (ofSurvey survey {} none).start.2 [] (.host 200) .advanceAnyway
    exact (still.2.2.1 1 false blocked storage).trans (Prod.ext blocked rfl)
  · have kept := mandate_kept (ofSurvey survey {} none).start.2
      [.perform (.setField "text" (.one "x")) (.host 500)] (.host 200) .advance
    exact kept.1 "A" r shown found (by rw [mandate]; trivial) leaves

end Session

end Questionnaire
