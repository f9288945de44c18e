import Questionnaire.Proofs.Answer.Store
import Questionnaire.Proofs.Answer.Stored
import Questionnaire.Proofs.Navigation.History
import Questionnaire.Session.Transition

/-! How transitions end. Whoever asks for one, there are three ways: nothing changes, or
storage accepts the changes and the session keeps them, or storage refuses and the
session is as before, except that lookups remember nothing. -/
namespace Questionnaire

namespace Transition

/-- Whether a transition is over and what it changed has been stored. -/
def isStored : Transition → Bool
  | moved .. | terminal _ | submitted .. => true
  | blocked .. | unchanged | rolledBack .. => false

def isRolledBack : Transition → Bool
  | rolledBack .. => true
  | _ => false

theorem isStored_of_isRolledBack (t : Transition) (back : t.isRolledBack = true) :
    t.isStored = false := by
  cases t with
  | rolledBack => rfl
  | _ => contradiction

end Transition

namespace Session
variable {s : Session} {storage : Storage} {q : String}

/-- Names under which something else than an entry is stored. -/
def reservedNames : List String := [historyName, framesName, completedName, completedAtName]

/-- What a transition writes. One that ends the survey adds a mark of completion. -/
def written (s : Session) : Option String → ChangeSet
  | none => s.changes
  | some completedAt => (s.changes.insert s.surveyName completedName (.bool true)).insert
      s.surveyName completedAtName (.text completedAt)

def edits (s : Session) : ChangeSet :=
  s.store.pending.entries.foldl (fun changes (question, e) =>
    changes.insert s.surveyName question (.ofOption Entry.toJson e)) {}

theorem edits_get? (s : Session) (q : String) : s.edits.get? (qualifiedName s.surveyName q) =
    (s.store.pending.get? q).map (Json.ofOption Entry.toJson) := by
  have folded := Dict.foldl_entries s.store.pending
    (fun changes (edit : String × Option Entry) =>
      changes.insert s.surveyName edit.1 (.ofOption Entry.toJson edit.2))
    (ChangeSet.get? · (qualifiedName s.surveyName q)) q
    (fun e _ => some (.ofOption Entry.toJson e)) (fun changes e => by simp)
    (fun changes question e other => by simp [qualifiedName_inj, Ne.symm other]) {}
  refine Eq.trans folded ?_
  cases s.store.pending.get? q <;> rfl

theorem edits_foreign {key : String} (foreign : ∀ q, key ≠ qualifiedName s.surveyName q) :
    s.edits.get? key = none := by
  have unseen := Dict.foldl_entries_unseen s.store.pending
    (fun changes (edit : String × Option Entry) =>
      changes.insert s.surveyName edit.1 (.ofOption Entry.toJson edit.2))
    (ChangeSet.get? · key) (fun changes question e => by simp [foreign]) {}
  exact unseen

theorem written_get? (s : Session) (final : Option String) (free : q ∉ reservedNames) :
    (s.written final).get? (qualifiedName s.surveyName q) =
      (s.store.pending.get? q).map (Json.ofOption Entry.toJson) := by
  simp only [reservedNames, List.mem_cons, List.not_mem_nil, or_false, not_or] at free
  have changes : s.changes.get? (qualifiedName s.surveyName q) =
      (s.store.pending.get? q).map (Json.ofOption Entry.toJson) := by
    change ((s.edits.insert _ historyName _).insert _ framesName _).get? _ = _
    simp [qualifiedName_inj, free, edits_get?]
  cases final with
  | none => exact changes
  | some completedAt => simp [written, qualifiedName_inj, free, changes]

theorem written_history (s : Session) (final : Option String) :
    (s.written final).get? (qualifiedName s.surveyName historyName) =
        some s.navigator.history.idsJson ∧
      (s.written final).get? (qualifiedName s.surveyName framesName) =
        some s.navigator.history.toJson := by
  have apart : historyName ≠ framesName ∧ historyName ≠ completedName ∧
      historyName ≠ completedAtName ∧ framesName ≠ completedName ∧
      framesName ≠ completedAtName := by decide
  cases final <;> simp [written, changes, qualifiedName_inj, apart]

theorem written_foreign {key : String} (final : Option String)
    (foreign : ∀ q, key ≠ qualifiedName s.surveyName q) : (s.written final).get? key = none := by
  have changes : s.changes.get? key = none := by
    change ((s.edits.insert _ historyName _).insert _ framesName _).get? _ = _
    simp [foreign, edits_foreign foreign]
  cases final with
  | none => exact changes
  | some completedAt => simp [written, foreign, changes]

theorem edits_plain (s : Session) : s.edits.Plain := by
  intro key value held
  by_cases own : ∃ q, key = qualifiedName s.surveyName q
  · obtain ⟨q, rfl⟩ := own
    rw [edits_get?, Option.map_eq_some_iff] at held
    obtain ⟨e, -, rfl⟩ := held
    cases e with
    | none => exact .null
    | some e => exact e.toJson_plain.mono (by decide)
  · rw [edits_foreign fun q same => own ⟨q, same⟩] at held
    cases held

theorem written_plain (s : Session) (final : Option String) : (s.written final).Plain := by
  have ids := s.navigator.history.idsJson_plain.mono (by decide : 1 ≤ 4)
  have changes : s.changes.Plain :=
    (s.edits_plain.insert _ historyName ids).insert _ framesName s.navigator.history.toJson_plain
  cases final with
  | none => exact changes
  | some completedAt => exact (changes.insert _ completedName (.bool true)).insert _ _ (.text _)

/-! Ends of a transition -/

def forget (s : Session) : Session := { s with store := s.store.forget }

/-- Where a transition goes: to another question, or nowhere if it ends the survey. -/
def Heads (s : Session) (n : Navigator) : Option String → Prop
  | none => ∃ direction id, s.move direction = (.ok (some id), n)
  | some _ => n = s.navigator ∧ ∃ id, n.state = .terminal id

inductive Concludes (s : Session) (storage : Storage) : Result → Prop
  | kept {outcome : Except SurveyError Transition}
      (quiet : ∀ t, outcome = .ok t → t.isStored = false ∧ t.isRolledBack = false) :
      Concludes s storage (outcome, s, storage)
  | stored {n : Navigator} {final : Option String} {t : Transition} {after : Storage}
      (heads : s.Heads n final) (done : t.isStored = true)
      (accepted : storage.store ({ s with navigator := n }.written final) =
        (.ok successCode, after)) :
      Concludes s storage (.ok t, { s with navigator := n, store := s.store.merge }, after)
  | refused {t : Transition} {changes : ChangeSet} {answer : Except SurveyError Nat}
      {after : Storage} (undone : t.isRolledBack = true)
      (declined : storage.store changes = (answer, after)) (failure : answer ≠ .ok successCode) :
      Concludes s storage (.ok t, s.forget, after)

/-- A transition from `s` ends well exactly if storage says so. -/
theorem concludes_of_settle {n : Navigator} {final : Option String} {t : Transition}
    {changes : ChangeSet} (heads : s.Heads n final) (done : t.isStored = true)
    (writes : { s with navigator := n }.written final = changes) :
    Concludes s storage
      (let (t, s, storage) := Session.conclude { s with navigator := n, store := s.store.merge }
        ⟨changes, t, s.snapshot⟩ storage
       (.ok t, s, storage)) := by
  subst writes
  cases stored : storage.store ({ s with navigator := n }.written final) with
  | mk answer after =>
    simp only [conclude, stored]
    cases answer with
    | error e => exact .refused rfl stored (by simp)
    | ok code =>
      by_cases success : code = successCode
      · subst success
        exact .stored heads done stored
      · simp only [settle, if_neg success]
        exact .refused rfl stored (by simpa using success)

/-- A move fails, arrives nowhere or waits to be stored. -/
theorem depart_cases (s : Session) (direction : Direction) :
    (∃ e, s.depart direction = (.error e, s)) ∨
    s.depart direction = (.ok (.settled .unchanged), s) ∨
    ∃ id n, s.move direction = (.ok (some id), n) ∧
      s.depart direction = (.ok (.ready ⟨{ s with navigator := n }.changes,
          Session.arrival { s with navigator := n, store := s.store.merge } direction id,
          s.snapshot⟩), { s with navigator := n, store := s.store.merge }) := by
  unfold depart
  split
  · exact .inl ⟨_, rfl⟩
  · exact .inr (.inl rfl)
  · next moved => exact .inr (.inr ⟨_, _, moved, rfl⟩)

theorem arrival_isStored (s : Session) (direction : Direction) (id : String) :
    (s.arrival direction id).isStored = true := by
  unfold arrival
  split <;> rfl

theorem commit_concludes (s : Session) (direction : Direction) (storage : Storage) :
    s.Concludes storage (s.commit direction storage) := by
  unfold commit
  obtain ⟨e, failed⟩ | stayed | ⟨id, n, moved, left⟩ := s.depart_cases direction
  · rw [failed]
    exact .kept (by simp)
  · rw [stayed]
    exact .kept (by simp [Transition.isStored, Transition.isRolledBack])
  · rw [left]
    have heads : s.Heads n none := ⟨direction, id, moved⟩
    exact concludes_of_settle heads (arrival_isStored _ direction id) rfl

theorem advance_concludes (s : Session) (storage : Storage) :
    s.Concludes storage (s.advance storage) := by
  unfold advance
  split
  · exact .kept (by simp [Transition.isStored, Transition.isRolledBack])
  · exact s.commit_concludes .forward storage

theorem advanceAnyway_concludes (s : Session) (storage : Storage) :
    s.Concludes storage (s.advanceAnyway storage) := by
  unfold advanceAnyway
  split
  · exact .kept (by simp [Transition.isStored, Transition.isRolledBack])
  · exact s.commit_concludes .forward storage

theorem submit_concludes (s : Session) (completedAt : String) (storage : Storage) :
    s.Concludes storage (s.submit completedAt storage) := by
  unfold submit
  split
  · next id ended =>
    have heads : s.Heads s.navigator (some completedAt) := ⟨rfl, id, ended⟩
    exact concludes_of_settle heads rfl rfl
  · exact .kept (by simp)

end Session

end Questionnaire
