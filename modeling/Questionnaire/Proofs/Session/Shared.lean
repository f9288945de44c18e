import Mathlib.Data.List.Induction
import Mathlib.Logic.Function.Basic
import Questionnaire.Proofs.Session.Handed
import Questionnaire.Proofs.Session.Resume
import Questionnaire.Proofs.Text.Cut

/-! Surveys that share one storage. Each writes under its own name, and a question's name holds
no point, so no survey writes where another one has written. Reading is less careful: where the
name of a survey continues that of another behind a point, a resumed session of the other takes
in what is not its own. -/
namespace Questionnaire

/-! ### Qualified names -/

/-- The last point of a qualified name ends the name of the survey. -/
theorem qualifiedName_apart {survey other q r : String} (left : '.' ∉ q.toList)
    (right : '.' ∉ r.toList) (same : qualifiedName survey q = qualifiedName other r) :
    survey = other ∧ q = r := by
  have cut (name : String) {rest : String} (pointless : '.' ∉ rest.toList) :
      Text.cutAtChars? (· == '.') (qualifiedName name rest).toList.reverse =
        some (rest.toList.reverse, name.toList.reverse) := by
    have split : (qualifiedName name rest).toList.reverse =
        rest.toList.reverse ++ '.' :: name.toList.reverse := by
      simp [qualifiedName]
    rw [split]
    have others : ∀ c ∈ rest.toList.reverse, (c == '.') = false := by
      intro c member
      apply beq_eq_false_iff_ne.2
      rintro rfl
      exact pointless (List.mem_reverse.1 member)
    exact Text.cutAtChars?_append others rfl name.toList.reverse
  have found := cut survey left
  rw [same, cut other right] at found
  simp only [Option.some.injEq, Prod.mk.injEq, List.reverse_inj, String.toList_inj] at found
  exact ⟨found.2.symm, found.1.symm⟩

/-- A name with a point can only be taken for one of another survey if that survey's name
continues this one's. -/
theorem qualifiedName_continued {survey other q r : String} (pointed : '.' ∈ q.toList)
    (pointless : '.' ∉ r.toList) (same : qualifiedName survey q = qualifiedName other r) :
    ∃ rest, other = qualifiedName survey rest := by
  obtain ⟨last, front, split, plain⟩ := List.eq_append_cons_of_mem (List.mem_reverse.2 pointed)
  have whole : qualifiedName survey q =
      qualifiedName (qualifiedName survey (String.ofList front.reverse))
        (String.ofList last.reverse) := by
    have chars : q.toList = front.reverse ++ '.' :: last.reverse := by
      simpa using congrArg List.reverse split
    apply String.toList_injective
    simp [qualifiedName, chars]
  have behind : '.' ∉ (String.ofList last.reverse).toList := by simpa using plain
  exact ⟨_, (qualifiedName_apart behind pointless (whole.symm.trans same)).1.symm⟩

theorem Session.reserved_pointless {q : String} (reserved : q ∈ Session.reservedNames) :
    '.' ∉ q.toList := by
  have pointless : ∀ name ∈ Session.reservedNames, '.' ∉ name.toList := by decide
  exact pointless q reserved

theorem Survey.Compiled.pointless_question {s : Survey} {q : String} (compiled : s.Compiled)
    (known : s.IsQuestion q) : '.' ∉ q.toList := by
  obtain ⟨r, found⟩ := known
  obtain ⟨member, rfl⟩ := Survey.mem_of_record? found
  exact (compiled.questionId member).pointless

/-! ### Sessions with a log of what they store -/

/-- What the session of a survey has handed to storage. -/
structure Write (ι : Type) where
  owner : ι
  /-- The edits that were pending. -/
  edits : Dict (Option Entry)
  changes : ChangeSet
  accepted : Bool

namespace Write
variable {ι : Type}

def stored (saved : Dict Json) (c : Write ι) : Dict Json :=
  if c.accepted then c.changes.applyTo saved else saved

def entered (entries : Dict Entry) (c : Write ι) : Dict Entry :=
  if c.accepted then
    c.edits.entries.foldl (fun entries (q, e) => Store.applyEdit entries q e) entries
  else entries

/-- What storage holds after the writes of a log. -/
def replay (log : List (Write ι)) : Dict Json := log.foldl stored ∅

/-- The entries that the writes of a log have stored. -/
def ledger (log : List (Write ι)) : Dict Entry := log.foldl entered ∅

def ofOwner [DecidableEq ι] (log : List (Write ι)) (i : ι) : List (Write ι) :=
  log.filter (·.owner = i)

/-- Every name that is written is a pointless name of its survey. -/
def Named (name : ι → String) (log : List (Write ι)) : Prop :=
  ∀ c ∈ log, ∀ key value, c.changes.get? key = some value →
    ∃ q, '.' ∉ q.toList ∧ key = qualifiedName (name c.owner) q

variable {name : ι → String} {log : List (Write ι)} {key : String}

theorem stored_get? (saved : Dict Json) (c : Write ι) (key : String) :
    (stored saved c).get? key = if c.accepted then
      (c.changes.get? key).elim (saved.get? key) Json.kept? else saved.get? key := by
  unfold stored
  split
  · exact ChangeSet.applyTo_get? c.changes saved key
  · rfl

theorem replay_append (log : List (Write ι)) (c : Write ι) :
    replay (log ++ [c]) = stored (replay log) c := by
  rw [replay, List.foldl_append]
  rfl

theorem ledger_append (log : List (Write ι)) (c : Write ι) :
    ledger (log ++ [c]) = entered (ledger log) c := by
  rw [ledger, List.foldl_append]
  rfl

theorem written_of_replay {value : Json} (held : (replay log).get? key = some value) :
    ∃ c ∈ log, ∃ value, c.changes.get? key = some value := by
  induction log using List.reverseRecOn generalizing value with
  | nil => cases held
  | append_singleton log c ih =>
    have earlier {value : Json} (before : (replay log).get? key = some value) :
        ∃ c' ∈ log ++ [c], ∃ value, c'.changes.get? key = some value := by
      obtain ⟨c', member, written⟩ := ih before
      exact ⟨c', List.mem_append_left _ member, written⟩
    rw [replay_append, stored_get?] at held
    split at held
    · cases written : c.changes.get? key with
      | some change => exact ⟨c, by simp, change, written⟩
      | none =>
        rw [written] at held
        exact earlier held
    · exact earlier held

section Owner
variable [DecidableEq ι]

theorem ofOwner_append_own (log : List (Write ι)) {c : Write ι} {i : ι} (own : c.owner = i) :
    ofOwner (log ++ [c]) i = ofOwner log i ++ [c] := by
  simp [ofOwner, own]

theorem ofOwner_append_other (log : List (Write ι)) {c : Write ι} {i : ι} (other : c.owner ≠ i) :
    ofOwner (log ++ [c]) i = ofOwner log i := by
  simp [ofOwner, other]

/-- Under the pointless names of a survey stands what the survey has written itself. -/
theorem replay_own (named : Named name log) (apart : Function.Injective name) (i : ι)
    {q : String} (pointless : '.' ∉ q.toList) :
    (replay log).get? (qualifiedName (name i) q) =
      (replay (ofOwner log i)).get? (qualifiedName (name i) q) := by
  induction log using List.reverseRecOn with
  | nil => rfl
  | append_singleton log c ih =>
    obtain ⟨earlier, last⟩ := List.forall_mem_append.1 named
    rw [replay_append, stored_get?, ih earlier]
    by_cases own : c.owner = i
    · rw [ofOwner_append_own log own, replay_append, stored_get?]
    · -- The write belongs to another survey and cannot name this one's questions.
      rw [ofOwner_append_other log own]
      cases written : c.changes.get? (qualifiedName (name i) q) with
      | none => simp
      | some value =>
        obtain ⟨r, plain, same⟩ := last c (by simp) _ value written
        exact absurd (apart (qualifiedName_apart pointless plain same).1).symm own

end Owner

end Write

/-- Sessions of several surveys over one storage. -/
structure Shared (ι : Type) where
  sessions : ι → Session
  storage : Storage
  /-- What storage was asked to store, in order. -/
  log : List (Write ι) := []

def Sitting.Event.handed? (s : Session) : Sitting.Event → Option ChangeSet
  | .start | .resume => none
  | .call c => s.handed? c.request

namespace Session
variable {s t : Session} {own saved : Dict Json} {entries : Dict Entry}

/-- The session as if other entries were committed. -/
def withCommitted (s : Session) (entries : Dict Entry) : Session :=
  { s with store := { s.store with committed := entries } }

/-- The entries that a survey has stored itself, in step with what it has written. -/
abbrev Owns (s : Session) (entries : Dict Entry) (own : Dict Json) : Prop :=
  (s.withCommitted entries).InStep own

theorem Owns.question (owns : s.Owns entries own) {q : String} {e : Entry}
    (held : entries.get? q = some e) : '.' ∉ q.toList ∧ q ∉ reservedNames :=
  ⟨owns.compiled.pointless_question (owns.committed q e held),
    owns.compiled.free (owns.committed q e held)⟩

theorem Owns.edited (owns : s.Owns entries own) (edits : s.Edits t) : t.Owns entries own := by
  obtain ⟨question, store, shown, edited, rfl⟩ := edits
  have trail : s.navigator.OnTrail s.survey := owns.trail
  obtain ⟨-, r, found, -⟩ := trail.current? shown
  refine { owns with trail := trail.refreshBounds question store.source, pending := ?_ }
  intro q e held
  by_cases same : q = question
  · subst same
    exact ⟨r, found⟩
  · exact owns.pending q e ((edited.others q same).symm.trans held)

/-- What is read back under a pointless name is what the survey has stored there. -/
theorem Owns.reload_committed (owns : s.Owns entries own) (same : s.SameSurvey t) {q : String}
    (shared : saved.get? (qualifiedName s.surveyName q) = own.get? (qualifiedName s.surveyName q)) :
    (t.reload saved).store.committed.get? q = entries.get? q := by
  change (StoredState.ofJson t.surveyName (.ofDict saved)).committed.get? q = _
  rw [same.name]
  by_cases reserved : q ∈ reservedNames
  · rw [StoredState.ofJson_reserved s.surveyName saved reserved]
    cases held : entries.get? q with
    | none => rfl
    | some e => exact absurd reserved (owns.question held).2
  · have stored := owns.entries q reserved
    change own.get? (qualifiedName s.surveyName q) = (entries.get? q).map Entry.toJson at stored
    rw [StoredState.ofJson_committed s.surveyName saved reserved, shared, stored]
    cases entries.get? q with
    | none => rfl
    | some e => exact e.ofJson?_toJson

/-- What is read back does not count as stored by the survey itself. -/
theorem Owns.reloaded (owns : s.Owns entries own) (same : s.SameSurvey t) {n : Navigator}
    (there : n.OnTrail t.survey) : Owns { t.reload saved with navigator := n } entries own := by
  obtain ⟨survey, name⟩ := same
  refine ⟨survey ▸ owns.compiled, there, ?_, ?_, (fun q e held => by cases held), ?_, ?_⟩
  · intro q free
    change own.get? (qualifiedName t.surveyName q) = _
    rw [name]
    exact owns.entries q free
  · intro q e held
    change t.survey.IsQuestion q
    rw [survey]
    exact owns.committed q e held
  · intro key value held
    change ∃ q, key = qualifiedName t.surveyName q
    rw [name]
    exact owns.names key value held
  · have visits := owns.visits
    simp only [Stores] at visits ⊢
    change own.get? (qualifiedName t.surveyName historyName) = none ∨ ∃ h : History,
      h.OnTrail t.survey ∧ own.get? (qualifiedName t.surveyName historyName) = some h.idsJson ∧
        own.get? (qualifiedName t.surveyName framesName) = some h.toJson
    rw [name, survey]
    exact visits

/-- A session that resumes takes in storage and keeps to its own history. -/
theorem Owns.resume {storage : Storage} (owns : s.Owns entries own) (same : s.SameSurvey t)
    (trail : t.navigator.OnTrail s.survey) (holds : storage.Holds saved)
    (something : saved.isEmpty = false)
    (shared : ∀ q, '.' ∉ q.toList →
      saved.get? (qualifiedName s.surveyName q) = own.get? (qualifiedName s.surveyName q)) :
    (t.resume storage).2.Owns entries own ∧
      (t.resume storage).2.store = (t.reload saved).store := by
  have reloaded {n : Navigator} (there : n.OnTrail t.survey) :
      Owns { t.reload saved with navigator := n } entries own := owns.reloaded same there
  obtain ⟨survey, name⟩ := same
  simp only [Session.resume, holds.retrieve, something, Bool.false_eq_true, if_false]
  have compiled : t.survey.Compiled := survey ▸ owns.compiled
  have history := shared historyName (by decide)
  have frames := shared framesName (by decide)
  rcases owns.visits with unvisited | ⟨h, onTrail, ids, framed⟩
  · have none : saved.get? (qualifiedName t.surveyName historyName) = none := by
      rw [name, history]
      exact unvisited
    rw [resumeFrom_unvisited none]
    have began : t.navigator.OnTrail t.survey := survey ▸ trail
    exact ⟨reloaded (began.start (t.reload saved).surroundings compiled), rfl⟩
  · have stores : t.Stores saved h := by
      rw [Stores, name, history, frames]
      exact ⟨ids, framed⟩
    have there : h.OnTrail t.survey := survey ▸ onTrail
    rw [resumeFrom_stored stores, h.isEmpty_eq]
    cases visited : h.current? with
    | none =>
      have began : t.navigator.OnTrail t.survey := survey ▸ trail
      exact ⟨reloaded (began.start (t.reload saved).surroundings compiled), rfl⟩
    | some id =>
      rw [Navigator.resume_onTrail there t.navigator visited]
      exact ⟨reloaded ⟨there, rfl⟩, rfl⟩

end Session

namespace Shared
variable {ι : Type} [DecidableEq ι] {w : Shared ι} {name : ι → String} {i : ι}

/-- What a session has become, and what it has handed to storage meanwhile. -/
def record (w : Shared ι) (i : ι) (handed : Option ChangeSet) (after : Sitting) : Shared ι :=
  let writes := handed.map fun changes =>
    (⟨i, (w.sessions i).store.pending, changes, decide (0 < after.commits)⟩ : Write ι)
  { sessions := Function.update w.sessions i after.session
    storage := after.storage
    log := w.log ++ writes.toList }

def handle (w : Shared ι) (i : ι) (event : Sitting.Event) : Shared ι :=
  let s := w.sessions i
  w.record i (event.handed? s) (Sitting.handle ⟨s, w.storage, 0⟩ event)

def handleAll (w : Shared ι) (events : List (ι × Sitting.Event)) : Shared ι :=
  events.foldl (fun w event => w.handle event.1 event.2) w

/-- Every session is in step with what its own survey has written. -/
structure Sound (w : Shared ι) (name : ι → String) : Prop where
  named : ∀ i, (w.sessions i).surveyName = name i
  holds : w.storage.Holds (Write.replay w.log)
  writes : Write.Named name w.log
  owned : ∀ i, (w.sessions i).Owns (Write.ledger (Write.ofOwner w.log i))
    (Write.replay (Write.ofOwner w.log i))
  untouched : (Write.replay w.log).isEmpty = true → ∀ i, (w.sessions i).store.committed = ∅

theorem Sound.shared (sound : w.Sound name) (apart : Function.Injective name) (i : ι)
    {q : String} (pointless : '.' ∉ q.toList) :
    (Write.replay w.log).get? (qualifiedName (w.sessions i).surveyName q) =
      (Write.replay (Write.ofOwner w.log i)).get? (qualifiedName (w.sessions i).surveyName q) := by
  rw [sound.named i]
  exact Write.replay_own sound.writes apart i pointless

/-- One session has moved, and only its own writes have joined the log. -/
theorem Sound.next (sound : w.Sound name) {t : Session} {after : Storage} (log : List (Write ι))
    (same : (w.sessions i).SameSurvey t) (holds : after.Holds (Write.replay log))
    (writes : Write.Named name log)
    (others : ∀ j, j ≠ i → Write.ofOwner log j = Write.ofOwner w.log j)
    (owns : t.Owns (Write.ledger (Write.ofOwner log i)) (Write.replay (Write.ofOwner log i)))
    (untouched : (Write.replay log).isEmpty = true →
      (Write.replay w.log).isEmpty = true ∧ t.store.committed = ∅) :
    Sound ⟨Function.update w.sessions i t, after, log⟩ name where
  holds := holds
  writes := writes
  named j := by
    by_cases here : j = i
    · subst here
      simpa using same.name.trans (sound.named j)
    · simpa [here] using sound.named j
  owned j := by
    by_cases here : j = i
    · subst here
      simpa using owns
    · rw [others j here]
      simpa [here] using sound.owned j
  untouched nothing j := by
    obtain ⟨before, blank⟩ := untouched nothing
    by_cases here : j = i
    · subst here
      simpa using blank
    · simpa [here] using sound.untouched before j

/-- A session that has handed over nothing. -/
theorem Sound.quiet (sound : w.Sound name) {t : Session} {after : Storage}
    (same : (w.sessions i).SameSurvey t) (holds : after.Holds (Write.replay w.log))
    (owns : t.Owns (Write.ledger (Write.ofOwner w.log i)) (Write.replay (Write.ofOwner w.log i)))
    (blank : (Write.replay w.log).isEmpty = true → t.store.committed = ∅) :
    (w.record i none ⟨t, after, 0⟩).Sound name := by
  have next := sound.next w.log same holds sound.writes (fun j _ => rfl) owns
    fun nothing => ⟨nothing, blank nothing⟩
  simpa [record] using next

theorem Sound.named_write (sound : w.Sound name) {n : Navigator} {final : Option String}
    {accepted : Bool} :
    Write.Named name (w.log ++ [⟨i, (w.sessions i).store.pending,
      { w.sessions i with navigator := n }.written final, accepted⟩]) := by
  refine List.forall_mem_append.2 ⟨sound.writes, ?_⟩
  rintro c member key value written
  obtain rfl := List.mem_singleton.1 member
  obtain ⟨q, rfl, own⟩ := Session.written_names written
  refine ⟨q, ?_, congrArg (qualifiedName · q) (sound.named i)⟩
  rcases own with reserved | ⟨e, edited⟩
  · exact Session.reserved_pointless reserved
  · exact (sound.owned i).compiled.pointless_question ((sound.owned i).pending q e edited)

theorem Sound.hands (sound : w.Sound name) {told : Storage} {handed : Option ChangeSet}
    {after : Sitting} (holds : told.Holds (Write.replay w.log))
    (hands : (w.sessions i).Hands told handed after) :
    (w.record i handed after).Sound name := by
  have owns := sound.owned i
  cases hands with
  | kept => exact sound.quiet ⟨rfl, rfl⟩ holds owns fun nothing => sound.untouched nothing i
  | @edited t edits =>
    obtain ⟨question, store, shown, edited, rfl⟩ := edits
    refine sound.quiet ⟨rfl, rfl⟩ holds (owns.edited ⟨question, store, shown, edited, rfl⟩) ?_
    intro nothing
    change store.committed = ∅
    rw [edited.committed]
    exact sound.untouched nothing i
  | @accepted n final later heads stored =>
    have trail : n.OnTrail (w.sessions i).survey := heads.onTrail owns.compiled owns.trail
    let c : Write ι := ⟨i, (w.sessions i).store.pending,
      { w.sessions i with navigator := n }.written final, true⟩
    refine sound.next (w.log ++ [c]) ⟨rfl, rfl⟩ ?_ sound.named_write ?_ ?_ ?_
    · rw [Write.replay_append]
      exact holds.accepted (Session.written_plain _ final) stored
    · intro j other
      exact Write.ofOwner_append_other w.log other.symm
    · rw [Write.ofOwner_append_own w.log rfl, Write.ledger_append, Write.replay_append]
      exact owns.stored trail final
    · intro nothing
      have recorded := Session.recorded_stored { w.sessions i with navigator := n } final
        (Write.replay w.log)
      rw [Write.replay_append] at nothing
      exact absurd nothing (by simp [Write.stored, c, Dict.isEmpty_eq_false recorded.1])
  | @refused n final answer later heads declined failure =>
    let c : Write ι := ⟨i, (w.sessions i).store.pending,
      { w.sessions i with navigator := n }.written final, false⟩
    have unchanged : Write.replay (w.log ++ [c]) = Write.replay w.log :=
      Write.replay_append w.log c
    refine sound.next (w.log ++ [c]) ⟨rfl, rfl⟩ ?_ sound.named_write ?_ ?_ ?_
    · rw [unchanged]
      exact holds.declined declined failure
    · intro j other
      exact Write.ofOwner_append_other w.log other.symm
    · rw [Write.ofOwner_append_own w.log rfl, Write.ledger_append, Write.replay_append]
      exact owns.forget
    · rw [unchanged]
      exact fun nothing => ⟨nothing, sound.untouched nothing i⟩

theorem Sound.handle (sound : w.Sound name) (apart : Function.Injective name) (i : ι)
    (event : Sitting.Event) : (w.handle i event).Sound name := by
  have owns := sound.owned i
  have started : (w.sessions i).start.2.Owns (Write.ledger (Write.ofOwner w.log i))
      (Write.replay (Write.ofOwner w.log i)) :=
    { owns with trail := owns.trail.start (w.sessions i).surroundings owns.compiled }
  have start : (w.record i none ⟨(w.sessions i).start.2, w.storage, 0⟩).Sound name :=
    sound.quiet ⟨rfl, rfl⟩ sound.holds started fun nothing => sound.untouched nothing i
  cases event with
  | start => exact start
  | resume =>
    by_cases nothing : (Write.replay w.log).isEmpty = true
    · have restarted : (w.sessions i).resume w.storage = (w.sessions i).start := by
        rw [Session.resume, sound.holds.retrieve, if_pos nothing]
      rw [Shared.handle, Sitting.handle, restarted]
      exact start
    · have something := Bool.eq_false_iff.2 nothing
      have resumed := owns.resume ⟨rfl, rfl⟩ owns.trail sound.holds something
        fun q pointless => sound.shared apart i pointless
      exact sound.quiet (Session.resume_sameSurvey _ _) sound.holds resumed.1
        fun blank => absurd blank nothing
  | call c =>
    exact sound.hands (sound.holds.behave c.code c.failure)
      (Session.perform_hands (w.sessions i) (w.storage.behave c.code c.failure) c.request)

theorem Sound.handleAll (sound : w.Sound name) (apart : Function.Injective name)
    (events : List (ι × Sitting.Event)) : (w.handleAll events).Sound name := by
  induction events generalizing w with
  | nil => exact sound
  | cons event events ih => exact ih (sound.handle apart event.1 event.2)

/-! ### What a session takes in -/

theorem sound_of_new {sessions : ι → Session} (fresh : ∀ i, (sessions i).IsNew)
    {storage : Storage} (empty : storage.Holds ∅) :
    Sound ⟨sessions, storage, []⟩ fun i => (sessions i).surveyName where
  named i := rfl
  holds := empty
  writes c member := by cases member
  owned i := by
    have blank : ((sessions i).withCommitted ∅).IsNew :=
      ⟨(fresh i).compiled, rfl, (fresh i).pending, (fresh i).navigator⟩
    exact blank.inStep
  untouched _ i := (fresh i).committed

/-- A session that resumes has read back what storage holds. -/
theorem Sound.resumed (sound : w.Sound name) (apart : Function.Injective name) {t : Session}
    (same : (w.sessions i).SameSurvey t) (trail : t.navigator.OnTrail (w.sessions i).survey)
    (blank : (Write.replay w.log).isEmpty = true → t.store.committed = ∅) :
    (t.resume w.storage).2.store.committed = (t.reload (Write.replay w.log)).store.committed := by
  by_cases nothing : (Write.replay w.log).isEmpty = true
  · have restarted : t.resume w.storage = t.start := by
      rw [Session.resume, sound.holds.retrieve, if_pos nothing]
    rw [restarted, Dict.eq_empty nothing]
    exact blank nothing
  · have reloaded := ((sound.owned i).resume same trail sound.holds (Bool.eq_false_iff.2 nothing)
      fun q pointless => sound.shared apart i pointless).2
    rw [reloaded]

theorem Sound.resumed_pointless (sound : w.Sound name) (apart : Function.Injective name)
    {t : Session} (same : (w.sessions i).SameSurvey t) {q : String} (pointless : '.' ∉ q.toList) :
    (t.reload (Write.replay w.log)).store.committed.get? q =
      (Write.ledger (Write.ofOwner w.log i)).get? q :=
  (sound.owned i).reload_committed same (sound.shared apart i pointless)

/-- Nothing is read back under a name with a point, unless the name of another survey continues
that of the session. -/
theorem Sound.resumed_pointed (sound : w.Sound name) {t : Session}
    (same : (w.sessions i).SameSurvey t) (apart : ∀ j rest, name j ≠ qualifiedName (name i) rest)
    {q : String} (pointed : '.' ∈ q.toList) :
    (t.reload (Write.replay w.log)).store.committed.get? q = none := by
  change (Session.StoredState.ofJson t.surveyName (.ofDict (Write.replay w.log))).committed.get? q = none
  have free : q ∉ Session.reservedNames := fun reserved =>
    Session.reserved_pointless reserved pointed
  rw [same.name, sound.named i, Session.StoredState.ofJson_committed _ _ free]
  cases held : (Write.replay w.log).get? (qualifiedName (name i) q) with
  | none => rfl
  | some value =>
    obtain ⟨c, member, value, written⟩ := Write.written_of_replay held
    obtain ⟨r, pointless, own⟩ := sound.writes c member _ value written
    obtain ⟨rest, continued⟩ := qualifiedName_continued pointed pointless own
    exact absurd continued (apart c.owner rest)

/-- Whatever is asked of the sessions of differently named surveys over one storage, and however
storage answers: no two surveys write under one name, and a session that resumes has every answer
that its own survey has stored. What else it takes in has a name with a point, and there is no such
entry unless the name of another survey continues that of the session behind a point. -/
theorem surveys_kept_apart {sessions : ι → Session} (fresh : ∀ i, (sessions i).IsNew)
    (apart : Function.Injective fun i => (sessions i).surveyName) {storage : Storage}
    (empty : storage.Holds ∅) (events : List (ι × Sitting.Event)) :
    let w : Shared ι := handleAll ⟨sessions, storage, []⟩ events
    w.storage.Holds (Write.replay w.log) ∧
    (∀ c ∈ w.log, ∀ d ∈ w.log, c.owner ≠ d.owner →
      ∀ key, (c.changes.get? key).isSome → d.changes.get? key = none) ∧
    ∀ i t, t = w.sessions i ∨ t.IsNew ∧ (w.sessions i).SameSurvey t →
      let resumed := (t.resume w.storage).2.store.committed
      let own := Write.ledger (Write.ofOwner w.log i)
      (∀ q, '.' ∉ q.toList → resumed.get? q = own.get? q) ∧
      (∀ q e, own.get? q = some e → '.' ∉ q.toList) ∧
      ((∀ j rest, (sessions j).surveyName ≠ qualifiedName (sessions i).surveyName rest) →
        resumed = own) := by
  intro w
  have sound : w.Sound fun i => (sessions i).surveyName :=
    (sound_of_new fresh empty).handleAll apart events
  refine ⟨sound.holds, ?_, fun i t who => ?_⟩
  · intro c written d other different key named
    obtain ⟨value, held⟩ := Option.isSome_iff_exists.1 named
    by_contra clash
    obtain ⟨value', held'⟩ := Option.ne_none_iff_exists'.1 clash
    obtain ⟨q, left, rfl⟩ := sound.writes c written key value held
    obtain ⟨r, right, same⟩ := sound.writes d other _ value' held'
    exact different (apart (qualifiedName_apart left right same).1)
  · have same : (w.sessions i).SameSurvey t := by
      rcases who with rfl | ⟨-, same⟩
      · exact ⟨rfl, rfl⟩
      · exact same
    have trail : t.navigator.OnTrail (w.sessions i).survey := by
      rcases who with rfl | ⟨fresh, same⟩
      · exact (sound.owned i).trail
      · exact same.survey ▸ fresh.inStep.trail
    have blank : (Write.replay w.log).isEmpty = true → t.store.committed = ∅ := by
      intro nothing
      rcases who with rfl | ⟨fresh, -⟩
      · exact sound.untouched nothing i
      · exact fresh.committed
    have questions {q : String} {e : Entry}
        (held : (Write.ledger (Write.ofOwner w.log i)).get? q = some e) : '.' ∉ q.toList :=
      ((sound.owned i).question held).1
    rw [sound.resumed apart same trail blank]
    refine ⟨fun q pointless => sound.resumed_pointless apart same pointless,
      fun q e => questions, fun names => Dict.ext_get? fun q => ?_⟩
    by_cases pointed : '.' ∈ q.toList
    · rw [sound.resumed_pointed same names pointed]
      exact (Option.eq_none_iff_forall_ne_some.2 fun e held => questions held pointed).symm
    · exact sound.resumed_pointless apart same pointed

/-- Two sessions on one survey under different names. -/
def namedPair (survey : Survey) (first second : String) : Bool → Session
  | true => Session.ofSurvey survey { surveyName := first } none
  | false => Session.ofSurvey survey { surveyName := second } none

/-- The first session stores an answer. -/
def firstAnswers : List (Bool × Sitting.Event) :=
  [(true, .start), (true, .call { request := .setField "text" (.one "x") }),
    (true, .call { request := .advance })]

def noteStored (survey : Survey) (first second : String) : Shared Bool :=
  handleAll ⟨namedPair survey first second, .memory {}, []⟩ firstAnswers

/-- A name that merely begins like the other one does not disturb it. -/
theorem surveys_kept_apart_notes : ∃ survey,
    (Survey.compile {} "s" Sitting.noteText).toOption = some survey ∧
    let w := noteStored survey "ab" "a"
    let resumed (who : Bool) := ((w.sessions who).resume w.storage).2.store.committed
    ((resumed true).get? "A").bind Entry.primary? = some (.one "x") ∧ resumed false = ∅ := by
  have evaluated : ((Survey.compile {} "s" Sitting.noteText).toOption.map fun survey =>
      let log := (noteStored survey "ab" "a").log
      (((Write.ledger (Write.ofOwner log true)).get? "A").bind Entry.primary?,
        (Write.ledger (Write.ofOwner log false)).isEmpty)) = some (some (.one "x"), true) := by
    decide +kernel
  obtain ⟨survey, accepted, evaluated⟩ := Option.map_eq_some_iff.1 evaluated
  simp only [Prod.mk.injEq] at evaluated
  obtain ⟨answered, nothing⟩ := evaluated
  have compiled := Survey.compiled_of_toOption accepted
  have fresh : ∀ who, (namedPair survey "ab" "a" who).IsNew := by
    intro who
    cases who
    · exact Session.ofSurvey_isNew compiled _ none
    · exact Session.ofSurvey_isNew compiled _ none
  have name (who : Bool) : (namedPair survey "ab" "a" who).surveyName = cond who "ab" "a" := by
    cases who <;> rfl
  have apart : Function.Injective fun who => (namedPair survey "ab" "a" who).surveyName := by
    intro left right same
    simp only [name] at same
    revert left right
    decide
  have plain : ∀ j rest, (namedPair survey "ab" "a" j).surveyName ≠
      qualifiedName (namedPair survey "ab" "a" false).surveyName rest := by
    intro j rest same
    have chars := congrArg String.toList same
    rw [name, name] at chars
    cases j <;> simp [qualifiedName] at chars
  have empty : (Storage.memory {}).Holds ∅ := .memory rfl
  obtain ⟨-, -, loads⟩ := surveys_kept_apart fresh apart empty firstAnswers
  obtain ⟨own, -, -⟩ := loads true _ (.inl rfl)
  obtain ⟨-, -, exactly⟩ := loads false _ (.inl rfl)
  refine ⟨survey, accepted, ?_, (exactly plain).trans (Dict.eq_empty nothing)⟩
  exact (congrArg (·.bind Entry.primary?) (own "A" (by decide))).trans answered

/-- A session takes in an answer of another survey, having stored none itself, where the name of
that survey continues its own behind a point. -/
theorem foreign_answer_resumed : ∃ survey,
    (Survey.compile {} "s" Sitting.noteText).toOption = some survey ∧
    let w := noteStored survey "a.b" "a"
    (w.sessions true).surveyName ≠ (w.sessions false).surveyName ∧
      Write.ofOwner w.log false = [] ∧
      ((((w.sessions false).resume w.storage).2.store.committed.get? "b.A").bind Entry.primary?) =
        some (.one "x") := by
  have evaluated : ((Survey.compile {} "s" Sitting.noteText).toOption.map fun survey =>
      let w := noteStored survey "a.b" "a"
      ((w.sessions true).surveyName, (w.sessions false).surveyName,
        (Write.ofOwner w.log false).isEmpty,
        (((w.sessions false).resume w.storage).2.store.committed.get? "b.A").bind
          Entry.primary?)) = some ("a.b", "a", true, some (.one "x")) := by
    decide +kernel
  obtain ⟨survey, accepted, evaluated⟩ := Option.map_eq_some_iff.1 evaluated
  simp only [Prod.mk.injEq] at evaluated
  obtain ⟨first, second, nothing, taken⟩ := evaluated
  refine ⟨survey, accepted, ?_, List.isEmpty_iff.1 nothing, taken⟩
  rw [first, second]
  decide

end Shared

end Questionnaire
