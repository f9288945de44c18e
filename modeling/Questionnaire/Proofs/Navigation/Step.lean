import Questionnaire.Proofs.Navigation.LoopBound
import Questionnaire.Proofs.Survey.Position

/-! Everything a walk can do with one candidate, case by case, and the walks that end at a
question. What holds of every walk is shown by going through these cases once. -/
namespace Questionnaire.Navigator
variable {env : Surroundings} {n m : Navigator} {r : Record} {id : String}

/-- The bound of its loop lets a question be reached: it begins no iteration, or one that
runs. -/
inductive Enters (env : Surroundings) (n : Navigator) (r : Record) : Navigator → Prop
  | bare (plain : r.directives.loopEntry = none) : Enters env n r n
  | running {e : LoopEntry} {loop : Loop} {bound : Nat} {m : Navigator}
      (annotated : r.directives.loopEntry = some e)
      (read : n.readBound env.source e.loopIndex = .ok (loop, bound, m))
      (admitted : loop.admits e.iteration bound = true) : Enters env n r m

theorem readBound_eq_ok {source : Source} {index bound : Nat} {loop : Loop}
    (read : n.readBound source index = .ok (loop, bound, m)) :
    n.loop? index = some loop ∧ loop.readBound source = .ok bound ∧ m = n.withBound index bound := by
  unfold readBound at read
  split at read
  · contradiction
  · next found =>
    simp only [bind, Except.bind] at read
    split at read
    · contradiction
    · next accepted =>
      cases read
      exact ⟨found, accepted, rfl⟩

/-- A navigator that passes a continuation marker. -/
def passing (n : Navigator) (marker : String) : Navigator :=
  { n with history := n.history.visit marker }

namespace Walk
variable {w v : Walk} {outcome : Outcome}

/-- Where a candidate comes from. -/
inductive Takes (s : Survey) (w : Walk) : String → Walk → Prop
  | forced {id : String} (jump : w.forced = some id) : Takes s w id { w with forced := none }
  | queued {id : String} {rest : List String} (free : w.forced = none)
      (queue : w.navigator.history.upcoming = id :: rest) :
      Takes s w id { w with navigator :=
        { w.navigator with history := { w.navigator.history with upcoming := rest } } }
  | following {r : Record} (free : w.forced = none) (queue : w.navigator.history.upcoming = [])
      (behind : w.cursor.bind s.successor? = some r) : Takes s w r.id w

theorem candidate?_takes {s : Survey} (candidate : w.candidate? s = some (id, v)) :
    Takes s w id v := by
  unfold candidate? at candidate
  split at candidate
  · next jump =>
    cases candidate
    exact .forced jump
  · next free =>
    unfold History.pop? at candidate
    split at candidate
    · next popped =>
      split at popped
      · next queue =>
        cases popped
        cases candidate
        exact .queued free queue
      · contradiction
    · next popped =>
      split at popped
      · contradiction
      · next queue =>
        obtain ⟨r, behind, same⟩ := Option.map_eq_some_iff.1 candidate
        cases same
        exact .following free queue behind

inductive Steps (env : Surroundings) (w : Walk) : Outcome → Prop
  | stuck (nowhere : w.candidate? env.survey = none) : Steps env w .stuck
  | unknown {id : String} {v : Walk} (candidate : Takes env.survey w id v)
      (missing : env.survey.record? id = none) : Steps env w (.onward v)
  | finished {id : String} {v : Walk} {r : Record} {index : Nat}
      (candidate : Takes env.survey w id v) (found : env.survey.record? id = some r)
      (marked : r.marker? = some (.endOfLoop index)) :
      Steps env w (.onward { v with cursor := some id })
  | repeated {id : String} {v : Walk} {r : Record} {index i bound : Nat} {loop : Loop}
      {n : Navigator} (candidate : Takes env.survey w id v)
      (found : env.survey.record? id = some r)
      (marked : r.marker? = some (.continuation index i))
      (read : (v.navigator.passing id).readBound env.source index = .ok (loop, bound, n))
      (admitted : loop.admits (nextIteration i) bound = true) :
      Steps env w (.onward ⟨n, some id, some (loop.iterationEntry (nextIteration i))⟩)
  | left {id : String} {v : Walk} {r : Record} {index i bound : Nat} {loop : Loop}
      {n : Navigator} (candidate : Takes env.survey w id v)
      (found : env.survey.record? id = some r)
      (marked : r.marker? = some (.continuation index i))
      (read : (v.navigator.passing id).readBound env.source index = .ok (loop, bound, n))
      (refused : loop.admits (nextIteration i) bound = false) :
      Steps env w (.onward ⟨n, n.endMarker? env.survey index, v.forced⟩)
  | beyond {id : String} {v : Walk} {r : Record} {e : LoopEntry} {bound : Nat} {loop : Loop}
      {n : Navigator} (candidate : Takes env.survey w id v)
      (found : env.survey.record? id = some r) (unmarked : r.marker? = none)
      (annotated : r.directives.loopEntry = some e)
      (read : v.navigator.readBound env.source e.loopIndex = .ok (loop, bound, n))
      (refused : loop.admits e.iteration bound = false) :
      Steps env w (.onward ⟨n, n.endMarker? env.survey e.loopIndex, v.forced⟩)
  | hidden {id : String} {v : Walk} {r : Record} {n : Navigator}
      (candidate : Takes env.survey w id v)
      (found : env.survey.record? id = some r) (unmarked : r.marker? = none)
      (enters : v.navigator.Enters env r n)
      (forbidden : env.permits r.directives.displayIf = false) :
      Steps env w (.onward ⟨n, some id, v.forced⟩)
  | shown {id : String} {v : Walk} {r : Record} {n : Navigator}
      (candidate : Takes env.survey w id v)
      (found : env.survey.record? id = some r) (unmarked : r.marker? = none)
      (enters : v.navigator.Enters env r n)
      (permitted : env.permits r.directives.displayIf = true) :
      Steps env w (.arrived id (n.arrive r))

theorem offer_steps (candidate : Takes env.survey w id v)
    (found : env.survey.record? id = some r) (unmarked : r.marker? = none)
    (enters : v.navigator.Enters env r n) :
    Steps env w (Walk.offer env { v with navigator := n } r) := by
  have same : r.id = id := (Survey.mem_of_record? found).2
  unfold offer
  split
  · next permitted =>
    rw [same]
    exact Steps.shown (v := v) candidate found unmarked enters permitted
  · next forbidden =>
    rw [same]
    exact Steps.hidden (v := v) candidate found unmarked enters (Bool.eq_false_iff.2 forbidden)

theorem visitQuestion_steps (candidate : Takes env.survey w id v)
    (found : env.survey.record? id = some r) (unmarked : r.marker? = none)
    (visited : v.visitQuestion env r = .ok outcome) : Steps env w outcome := by
  unfold visitQuestion at visited
  split at visited
  · next plain =>
    cases visited
    exact offer_steps candidate found unmarked (.bare plain)
  · next e annotated =>
    simp only [bind, Except.bind] at visited
    split at visited
    · contradiction
    · rename_i read
      split at visited
      · next admitted =>
        cases visited
        exact offer_steps candidate found unmarked (.running annotated read admitted)
      · next refused =>
        cases visited
        exact .beyond candidate found unmarked annotated read (Bool.eq_false_iff.2 refused)

theorem passContinuation_steps {u : Walk} {index i : Nat}
    (candidate : Takes env.survey w id v)
    (found : env.survey.record? id = some r) (marked : r.marker? = some (.continuation index i))
    (passed : v.passContinuation env id index i = .ok u) : Steps env w (.onward u) := by
  simp only [passContinuation, bind, Except.bind] at passed
  split at passed
  · contradiction
  · rename_i read
    split at passed
    · next admitted =>
      cases passed
      exact .repeated candidate found marked read admitted
    · next refused =>
      cases passed
      exact .left candidate found marked read (Bool.eq_false_iff.2 refused)

theorem step_steps (stepped : w.step env = .ok outcome) : Steps env w outcome := by
  unfold step at stepped
  split at stepped
  case h_1 nowhere =>
    cases stepped
    exact .stuck nowhere
  case h_2 id v candidate =>
    have candidate := candidate?_takes candidate
    split at stepped
    case h_1 missing =>
      cases stepped
      exact .unknown candidate missing
    case h_2 r found =>
      split at stepped
      case h_1 index i marked =>
        cases passed : v.passContinuation env id index i with
        | error e => simp [passed, Except.map] at stepped
        | ok u =>
          simp only [passed, Except.map, Except.ok.injEq] at stepped
          cases stepped
          exact passContinuation_steps candidate found marked passed
      case h_2 marked =>
        cases stepped
        exact .finished candidate found marked
      case h_3 unmarked => exact visitQuestion_steps candidate found unmarked stepped

/-- The walks that end at a question. -/
inductive Arrives (env : Surroundings) : Walk → String → Navigator → Prop
  | here {w : Walk} {id : String} {m : Navigator} (step : Steps env w (.arrived id m)) :
      Arrives env w id m
  | later {w v : Walk} {id : String} {m : Navigator} (step : Steps env w (.onward v))
      (rest : Arrives env v id m) : Arrives env w id m

theorem run_arrives {bound steps : Nat} (ran : w.run env bound steps = .ok (some (id, m))) :
    Arrives env w id m := by
  induction steps generalizing w with
  | zero => simp [run] at ran
  | succ steps ih =>
    simp only [run, bind, Except.bind] at ran
    split at ran
    · contradiction
    · rename_i outcome stepped
      have step := step_steps stepped
      cases outcome with
      | arrived id n =>
        cases ran
        exact .here step
      | onward v => exact .later step (ih ran)
      | stuck => cases ran

end Walk

theorem walk_arrives {cursor forced : Option String}
    (walked : n.walk env cursor forced = .ok (some (id, m))) :
    Walk.Arrives env ⟨n, cursor, forced⟩ id m := Walk.run_arrives walked

theorem start_arrives (started : n.start env = (.ok id, m)) :
    ∃ first, Walk.Arrives env ⟨{ n with history := {}, state := .idle }, none, some first⟩ id m := by
  unfold start at started
  split at started
  · cases started
  · split at started
    · next walked =>
      cases started
      exact ⟨_, walk_arrives walked⟩
    · cases started
    · cases started

/-- A move to another question is a walk from the active one, whose targets are queued first. -/
theorem next_walks (moved : n.next env = (.ok (some id), m)) :
    ∃ last r, n.state = .active last ∧ env.survey.get? last = some r ∧
      ({ n with history := n.history.enqueue (env.skipTargets r) } : Navigator).walk env
        (some last) none = .ok (some (id, m)) := by
  unfold next at moved
  split at moved
  · cases moved
  · cases moved
  · next last active =>
    split at moved
    · cases moved
    · next r found =>
      split at moved
      · next walked =>
        cases moved
        exact ⟨last, r, active, found, walked⟩
      · cases moved
      · cases moved

theorem next_arrives (moved : n.next env = (.ok (some id), m)) :
    ∃ last r, n.state = .active last ∧ env.survey.get? last = some r ∧
      Walk.Arrives env
        ⟨{ n with history := n.history.enqueue (env.skipTargets r) }, some last, none⟩ id m := by
  obtain ⟨last, r, active, found, walked⟩ := next_walks moved
  exact ⟨last, r, active, found, walk_arrives walked⟩

end Questionnaire.Navigator
