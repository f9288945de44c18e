import Questionnaire.Proofs.Navigation.Step

/-! What a walk does on its way: it reads bounds, takes from the queue and adds the
continuation markers that it passes to the visits. Whatever a move keeps is kept by each
step of its walk. -/
namespace Questionnaire

def Record.shownState (r : Record) : NavigationState :=
  if r.isTerminal then .terminal r.id else .active r.id

def Frame.IsPassage (s : Survey) (f : Frame) : Prop :=
  ∃ r index iteration, s.record? f.id = some r ∧ r.marker? = some (.continuation index iteration)

namespace Navigator
variable {s : Survey} {env : Surroundings} {n m k : Navigator}

/-- What a navigator may have become on its way to the next question. -/
structure Passes (s : Survey) (n m : Navigator) : Prop where
  loops : m.loops.map Loop.unread = n.loops.map Loop.unread
  state : m.state = n.state
  visits : ∃ passages : List Frame, m.history.visits = passages ++ n.history.visits ∧
    ∀ f ∈ passages, f.IsPassage s

theorem Passes.refl (n : Navigator) : n.Passes s n where
  loops := rfl
  state := rfl
  visits := ⟨[], rfl, by simp⟩

theorem Passes.trans (first : n.Passes s m) (second : m.Passes s k) : n.Passes s k where
  loops := second.loops.trans first.loops
  state := second.state.trans first.state
  visits := by
    obtain ⟨older, same, passages⟩ := first.visits
    obtain ⟨newer, same', passages'⟩ := second.visits
    refine ⟨newer ++ older, by rw [same', same, List.append_assoc], ?_⟩
    intro f member
    rcases List.mem_append.1 member with here | there
    · exact passages' f here
    · exact passages f there

theorem Passes.visit {id : String} {r : Record} {index iteration : Nat}
    (found : s.record? id = some r) (marked : r.marker? = some (.continuation index iteration)) :
    n.Passes s (n.passing id) where
  loops := rfl
  state := rfl
  visits := ⟨[⟨id, n.history.upcoming⟩], rfl, by simpa using ⟨r, index, iteration, found, marked⟩⟩

theorem Passes.readBound {source : Source} {index bound : Nat} {loop : Loop}
    (read : n.readBound source index = .ok (loop, bound, m)) : n.Passes s m := by
  obtain ⟨-, -, rfl⟩ := readBound_eq_ok read
  exact ⟨setBound_unread _ _ _, rfl, [], rfl, by simp⟩

theorem Passes.serves (passes : n.Passes s m) {survey : Survey} (serves : n.Serves survey) :
    m.Serves survey := passes.loops.trans serves

theorem Enters.passes {r : Record} (enters : n.Enters env r m) : n.Passes s m := by
  cases enters with
  | bare => exact .refl n
  | running _ read _ => exact .readBound read

namespace Walk
variable {w v : Walk} {id : String}

theorem Takes.passes (takes : Takes s w id v) : w.navigator.Passes s v.navigator := by
  cases takes with
  | forced => exact .refl _
  | queued => exact ⟨rfl, rfl, [], rfl, by simp⟩
  | following => exact .refl _

theorem Steps.passes (step : Steps env w (.onward v)) :
    w.navigator.Passes env.survey v.navigator := by
  cases step with
  | unknown candidate _ => exact candidate.passes
  | finished candidate _ _ => exact candidate.passes
  | repeated candidate found marked read _ =>
    exact (candidate.passes.trans (.visit found marked)).trans (.readBound read)
  | left candidate found marked read _ =>
    exact (candidate.passes.trans (.visit found marked)).trans (.readBound read)
  | beyond candidate _ _ _ read _ => exact candidate.passes.trans (.readBound read)
  | hidden candidate _ _ enters _ => exact candidate.passes.trans enters.passes

/-- A walk that shows a question has only passed markers before. -/
theorem Arrives.passes (arrives : Arrives env w id m) :
    ∃ passed r, w.navigator.Passes env.survey passed ∧ env.survey.record? id = some r ∧
      r.marker? = none ∧ m = passed.arrive r := by
  induction arrives with
  | here step =>
    cases step with
    | shown candidate found unmarked enters _ =>
      exact ⟨_, _, candidate.passes.trans enters.passes, found, unmarked, rfl⟩
  | later step _ ih =>
    obtain ⟨passed, r, further, rest⟩ := ih
    exact ⟨passed, r, step.passes.trans further, rest⟩

end Walk

/-- A start that shows a question begins with an empty history, and any other start
changes nothing. -/
theorem start_cases (n : Navigator) (env : Surroundings) :
    (∃ id passed r, ({ n with history := {}, state := .idle } : Navigator).Passes env.survey passed ∧
      env.survey.record? id = some r ∧ r.marker? = none ∧
      n.start env = (.ok id, passed.arrive r)) ∨ ∃ e, n.start env = (.error e, n) := by
  unfold start
  split
  · exact .inr ⟨_, rfl⟩
  · split
    · rename_i walked
      obtain ⟨passed, r, passes, found, unmarked, rfl⟩ := (walk_arrives walked).passes
      exact .inl ⟨_, passed, r, passes, found, unmarked, rfl⟩
    · exact .inr ⟨_, rfl⟩
    · exact .inr ⟨_, rfl⟩

/-- A move that shows a question leaves the active one behind, and any other move changes
nothing. -/
theorem next_cases (n : Navigator) (env : Surroundings) :
    (∃ last queue id passed r, n.state = .active last ∧
      ({ n with history := n.history.enqueue queue } : Navigator).Passes env.survey passed ∧
      env.survey.record? id = some r ∧ r.marker? = none ∧
      n.next env = (.ok (some id), passed.arrive r)) ∨
    n.next env = (.ok none, n) ∨ ∃ e, n.next env = (.error e, n) := by
  unfold next
  split
  · exact .inr (.inl rfl)
  · exact .inr (.inl rfl)
  · rename_i last active
    split
    · exact .inr (.inr ⟨_, rfl⟩)
    · split
      · rename_i walked
        obtain ⟨passed, r, passes, found, unmarked, rfl⟩ := (walk_arrives walked).passes
        exact .inl ⟨last, _, _, passed, r, active, passes, found, unmarked, rfl⟩
      · exact .inr (.inl rfl)
      · exact .inr (.inr ⟨_, rfl⟩)

/-- A step back to an earlier visit, or none at all. -/
theorem back_cases (n : Navigator) :
    (∃ f earlier,
      n.history.visits.tail.dropWhile (fun f => LoopMarker.isContinuation f.id) = f :: earlier ∧
      n.back = (some f.id, { n with history := ⟨f :: earlier, f.queued⟩, state := .active f.id })) ∨
    n.back = (none, n) := by
  unfold back History.back?
  split
  · exact .inr rfl
  all_goals
    split
    · rename_i stepped
      split at stepped
      · contradiction
      · rename_i dropped
        cases stepped
        exact .inl ⟨_, _, dropped, rfl⟩
    · exact .inr rfl

section
variable {survey : Survey} (serves : n.Serves survey)
include serves

theorem Serves.start (env : Surroundings) : (n.start env).2.Serves survey := by
  obtain ⟨id, passed, r, passes, -, -, started⟩ | ⟨e, failed⟩ := start_cases n env
  · rw [started]
    exact passes.serves serves
  · rwa [failed]

theorem Serves.next (env : Surroundings) : (n.next env).2.Serves survey := by
  obtain ⟨_, _, id, passed, r, -, passes, -, -, moved⟩ | stayed | ⟨e, failed⟩ := next_cases n env
  · rw [moved]
    exact passes.serves serves
  · rwa [stayed]
  · rwa [failed]

theorem Serves.back : n.back.2.Serves survey := by
  obtain ⟨_, _, -, moved⟩ | stayed := back_cases n
  · rwa [moved]
  · rwa [stayed]

end

end Navigator

end Questionnaire
