import Questionnaire.Proofs.Navigation.Course

/-! Surveys in which every annotation and every continuation marker belongs to a loop that is
described. A move in such a survey never comes to a loop that the navigator does not know. -/
namespace Questionnaire

/-- Every loop that a record speaks of is among the loops of the survey. -/
structure Survey.Described (s : Survey) : Prop where
  entries : ∀ r ∈ s.records, ∀ e, r.directives.loopEntry = some e →
    ∃ loop ∈ s.loops, loop.index = e.loopIndex
  markers : ∀ r ∈ s.records, ∀ index i, r.marker? = some (.continuation index i) →
    ∃ loop ∈ s.loops, loop.index = index

namespace Navigator
variable {s : Survey} {env : Surroundings} {n : Navigator} {w : Walk}

/-- The fault of a loop that is not described. -/
def undescribed (index : Nat) : SurveyError := .navigation (.noDescriptor index)

theorem Loop.readBound_described (loop : Loop) (source : Source) (k : Nat) :
    loop.readBound source ≠ .error (undescribed k) := by
  intro failed
  unfold Loop.readBound at failed
  split at failed
  · contradiction
  · cases failed

theorem Serves.readBound_described (serves : n.Serves s) {index : Nat}
    (described : ∃ loop ∈ s.loops, loop.index = index) (source : Source) (k : Nat) :
    n.readBound source index ≠ .error (undescribed k) := by
  have found : (n.loop? index).isSome = true := by
    have same := congrArg Option.isSome (find?_unread serves index)
    rw [Option.isSome_map, Option.isSome_map] at same
    rw [Navigator.loop?, same, List.find?_isSome]
    obtain ⟨loop, listed, rfl⟩ := described
    exact ⟨loop, listed, beq_self_eq_true _⟩
  obtain ⟨loop, found⟩ := Option.isSome_iff_exists.1 found
  intro failed
  simp only [Navigator.readBound, found, bind, Except.bind] at failed
  split at failed
  · next e refused =>
    rw [Except.error.inj failed] at refused
    exact Loop.readBound_described loop source k refused
  · contradiction

namespace Walk

theorem visitQuestion_described (described : env.survey.Described)
    (serves : w.navigator.Serves env.survey) {r : Record} (member : r ∈ env.survey.records)
    (k : Nat) : w.visitQuestion env r ≠ .error (undescribed k) := by
  intro failed
  unfold visitQuestion at failed
  split at failed
  · contradiction
  · next e annotated =>
    simp only [bind, Except.bind] at failed
    split at failed
    · next refused =>
      rw [Except.error.inj failed] at refused
      exact serves.readBound_described (described.entries r member e annotated) _ k refused
    · split at failed <;> contradiction

theorem passContinuation_described (described : env.survey.Described)
    (serves : w.navigator.Serves env.survey) {r : Record} (member : r ∈ env.survey.records)
    {index i : Nat} (marked : r.marker? = some (.continuation index i)) (marker : String)
    (k : Nat) : w.passContinuation env marker index i ≠ .error (undescribed k) := by
  intro failed
  simp only [passContinuation, bind, Except.bind] at failed
  split at failed
  · next refused =>
    rw [Except.error.inj failed] at refused
    have visited : ({ w.navigator with history := w.navigator.history.visit marker } :
        Navigator).Serves env.survey := serves
    exact visited.readBound_described (described.markers r member index i marked) _ k refused
  · split at failed <;> contradiction

theorem step_described (described : env.survey.Described)
    (serves : w.navigator.Serves env.survey) (k : Nat) :
    w.step env ≠ .error (undescribed k) := by
  intro failed
  unfold step at failed
  split at failed
  · contradiction
  · next id v candidate =>
    have kept : v.navigator.Serves env.survey :=
      (candidate?_takes candidate).passes.serves serves
    split at failed
    · contradiction
    · next r found =>
      have member := (Survey.mem_of_record? found).1
      split at failed
      · next index i marked =>
        cases passed : v.passContinuation env id index i with
        | error e =>
          rw [passed] at failed
          cases failed
          exact passContinuation_described described kept member marked id k passed
        | ok u =>
          rw [passed] at failed
          contradiction
      · contradiction
      · exact visitQuestion_described described kept member k failed

theorem run_described (described : env.survey.Described)
    (serves : w.navigator.Serves env.survey) (bound steps k : Nat) :
    w.run env bound steps ≠ .error (undescribed k) := by
  induction steps generalizing w with
  | zero =>
    intro failed
    cases failed
  | succ steps ih =>
    intro failed
    simp only [run, bind, Except.bind] at failed
    split at failed
    · next refused =>
      rw [Except.error.inj failed] at refused
      exact step_described described serves k refused
    · next stepped =>
      split at failed
      · contradiction
      · next v =>
        exact ih ((step_steps stepped).passes.serves serves) failed
      · contradiction

end Walk

/-- A navigator that serves a survey in which every loop is described never comes to one that is
not. -/
theorem Serves.next_described (serves : n.Serves env.survey) (described : env.survey.Described)
    (k : Nat) : (n.next env).1 ≠ .error (undescribed k) := by
  intro failed
  unfold Navigator.next at failed
  split at failed
  · contradiction
  · contradiction
  · split at failed
    · cases failed
    · next r _ =>
      split at failed
      · contradiction
      · contradiction
      · next e walked =>
        rw [Except.error.inj failed] at walked
        have queued : ({ n with history := n.history.enqueue (env.skipTargets r) } :
            Navigator).Serves env.survey := serves
        exact Walk.run_described described queued _ _ k walked

end Navigator

end Questionnaire
