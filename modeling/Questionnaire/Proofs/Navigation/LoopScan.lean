import Questionnaire.Proofs.Navigation.Scan

/-! The walk through a laid out survey is the scan of its places, wherever it begins. The
induction follows the layout from its end: what a walk finds behind a place is known
before the place is looked at, and so is what it finds behind the loop it is in. -/
namespace Questionnaire.Scan
variable {env : Surroundings} {limit : Nat} {loop : Loop} {first i : Nat}
  {rest more : List Place} {finish : Place}

theorem closed_iterations {s : Survey} (expanded : loop.Expanded s iterations record)
    (first : Nat) (its : List Iteration) :
    Closed loop first (iterationPlaces loop first its) ⟨record, none⟩ where
  inside _ member := iterationPlaces_iteration member
  outside := rfl
  marked := expanded.finish_marker
  finish_id := expanded.finish_id

theorem Closed.prepend {front tail : List Place} (closed : Closed loop (i + 1) tail finish)
    (inside : ∀ p ∈ front, p.iteration = some (loop, i)) : Closed loop i (front ++ tail) finish where
  inside p member := by
    rcases List.mem_append.1 member with here | later
    · exact ⟨i, Nat.le_refl i, inside p here⟩
    · obtain ⟨j, above, inside⟩ := closed.inside p later
      exact ⟨j, by omega, inside⟩
  outside := closed.outside
  marked := closed.marked
  finish_id := closed.finish_id

section
variable (ground : Ground env.survey)
include ground

theorem sound_further {marker : Record} {fs : List Record} (plain : ∀ r ∈ fs, r.IsPlain)
    (reached : (⟨marker, some (loop, i)⟩ : Place).isBeyond env = false)
    (closing : Sound env limit (⟨marker, some (loop, i)⟩ :: rest)) :
    Sound env limit (fs.map (⟨·, some (loop, i)⟩) ++ ⟨marker, some (loop, i)⟩ :: rest) := by
  induction fs with
  | nil => exact closing
  | cons r fs ih =>
    have later := ih fun other member => plain other (List.mem_cons_of_mem _ member)
    exact sound_question ground (plain r List.mem_cons_self) reached later

theorem covers_further {marker : Record} {fs : List Record} (plain : ∀ r ∈ fs, r.IsPlain)
    (closing : Sound env limit (⟨marker, some (loop, i)⟩ :: rest))
    (behind : Sound env limit rest) (covered : Covers env limit rest) :
    Covers env limit (fs.map (⟨·, some (loop, i)⟩) ++ ⟨marker, some (loop, i)⟩ :: rest) := by
  induction fs with
  | nil => exact covers_cons (fun _ => behind) covered
  | cons r fs ih =>
    have later : ∀ other ∈ fs, other.IsPlain :=
      fun other member => plain other (List.mem_cons_of_mem _ member)
    exact covers_cons (fun reached => sound_further ground later reached closing) (ih later)

theorem sound_iteration {it : Iteration} {tail : List Place} (here : it.Expanded loop i)
    (described : loop ∈ env.survey.loops) (last : i ≤ loop.maximum)
    (counted : loop.maximum < Text.largestUInt32) (closed : Closed loop (i + 1) tail finish)
    (follows : i < loop.maximum → ∃ q rest, tail ++ finish :: more = q :: rest ∧
      q.record.id = loop.iterationEntry (i + 1))
    (later : Sound env limit (tail ++ finish :: more)) (behind : Sound env limit more)
    (covered : Covers env limit (tail ++ finish :: more)) :
    Sound env limit (it.places loop i ++ (tail ++ finish :: more)) ∧
      Covers env limit (it.places loop i ++ (tail ++ finish :: more)) := by
  have closing : Sound env limit (⟨it.marker, some (loop, i)⟩ :: (tail ++ finish :: more)) :=
    sound_continuation ground described rfl here.marker last counted closed follows later behind
  have shape : it.places loop i ++ (tail ++ finish :: more) =
      ⟨it.entry, some (loop, i)⟩ :: (it.further.map (⟨·, some (loop, i)⟩) ++
        ⟨it.marker, some (loop, i)⟩ :: (tail ++ finish :: more)) := by
    simp [Iteration.places]
  have inner (reached : (⟨it.marker, some (loop, i)⟩ : Place).isBeyond env = false) :=
    sound_further ground here.further reached closing
  have whole : Closed loop i ((it.further.map (⟨·, some (loop, i)⟩) ++
      [⟨it.marker, some (loop, i)⟩]) ++ tail) finish :=
    closed.prepend fun p member => it.places_iteration (List.mem_cons_of_mem _ member)
  obtain ⟨e, annotated, index, iteration⟩ := here.annotated
  rw [shape]
  refine ⟨?_, covers_cons inner (covers_further ground here.further closing later covered)⟩
  have entry := sound_entry ground described (p := ⟨it.entry, some (loop, i)⟩) rfl here.unmarked
    annotated index iteration whole
    (fun reached => by simpa using inner reached) behind
  simpa using entry

/-- The iterations that are left of a loop, its end marker and what follows. -/
theorem sound_iterations {all its : List Iteration} {record : Record}
    (expanded : loop.Expanded env.survey all record) (described : its ≠ [] → loop ∈ env.survey.loops)
    (written : ∀ it i, (it, i) ∈ its.zipIdx first → it.Expanded loop i)
    (count : first + its.length = loop.maximum + 1)
    (behind : Sound env limit more) (covered : Covers env limit more) :
    Sound env limit (iterationPlaces loop first its ++ ⟨record, none⟩ :: more) ∧
      Covers env limit (iterationPlaces loop first its ++ ⟨record, none⟩ :: more) := by
  -- From the last iteration to the first: each needs what a walk finds behind it.
  induction its generalizing first with
  | nil =>
    exact ⟨sound_finish ground rfl expanded.finish_marker behind,
      covers_cons (fun _ => behind) covered⟩
  | cons it its ih =>
    have described := described (List.cons_ne_nil _ _)
    simp only [List.length_cons] at count
    have later : ∀ other i, (other, i) ∈ its.zipIdx (first + 1) → other.Expanded loop i :=
      fun other i member => written other i (by rw [List.zipIdx_cons]; exact .tail _ member)
    obtain ⟨sound, covers⟩ := ih (fun _ => described) later (by omega)
    have follows : first < loop.maximum → ∃ q rest,
        iterationPlaces loop (first + 1) its ++ ⟨record, none⟩ :: more = q :: rest ∧
          q.record.id = loop.iterationEntry (first + 1) := by
      intro below
      cases its with
      | nil => simp only [List.length_nil] at count; omega
      | cons other its =>
        rw [iterationPlaces_cons]
        refine ⟨⟨other.entry, some (loop, first + 1)⟩, _, rfl, ?_⟩
        exact (later other (first + 1) (by rw [List.zipIdx_cons]; exact .head _)).entry_id
    rw [iterationPlaces_cons, List.append_assoc]
    exact sound_iteration ground (written it first (by rw [List.zipIdx_cons]; exact .head _))
      described (by omega) expanded.counted (closed_iterations expanded (first + 1) its) follows
      sound behind covers

theorem sound_blocks {blocks : List Block} (expanded : ∀ b ∈ blocks, b.Expanded env.survey) :
    Sound env limit (blocks.flatMap Block.places) ∧
      Covers env limit (blocks.flatMap Block.places) := by
  induction blocks with
  | nil =>
    refine ⟨sound_nil ground, ?_⟩
    intro before p after split
    simp at split
  | cons b blocks ih =>
    obtain ⟨sound, covers⟩ := ih fun other member => expanded other (List.mem_cons_of_mem _ member)
    have here := expanded b List.mem_cons_self
    rw [List.flatMap_cons]
    cases b with
    | question r => exact ⟨sound_question ground here rfl sound, covers_cons (fun _ => sound) covers⟩
    | repeated loop its record =>
      rw [Block.places, List.append_assoc]
      exact sound_iterations ground here here.described here.expanded
        (by rw [here.maximum]; omega) sound covers

end

end Questionnaire.Scan

namespace Questionnaire.Navigator
variable {env : Surroundings} {n : Navigator} {blocks : List Block} {before after : List Place}
  {p : Place}

/-- What becomes of a navigator whose walk has ended. -/
def land (n : Navigator) : Except SurveyError (Option (String × Navigator)) →
    Except SurveyError (Option String) × Navigator
  | .ok (some (id, moved)) => (.ok (some id), moved)
  | .ok none => (.ok none, n)
  | .error e => (.error e, n)

/-- A move is a walk from the active question, if no directive queues anything. -/
theorem next_eq_walk {id : String} {r : Record} (active : n.state = .active id)
    (found : env.survey.get? id = some r) (unskipped : env.skipTargets r = []) :
    n.next env = n.land (n.walk env (some id) none) := by
  have unchanged : ({ n with history := n.history.enqueue [] } : Navigator) = n := rfl
  unfold next
  simp only [active, found, unskipped]
  rw [← active, unchanged]
  rfl

/-- With nothing queued and no directive that passes, a move from a question that its loop
reaches shows what the scan of the places behind it finds. If it finds nothing, or a
bound is refused first, nothing changes. -/
theorem next_refines_scan (compiled : env.survey.Compiled) (layout : env.survey.LaidOut blocks)
    (split : blocks.flatMap Block.places = before ++ p :: after)
    (serves : n.Serves env.survey) (active : n.state = .active p.record.id)
    (reached : p.isBeyond env = false) (unqueued : n.history.upcoming = [])
    (unskipped : env.skipTargets p.record = []) (enough : env.survey.size < n.maxSteps) :
    match scan env after with
    | .ok (some r) => (n.next env).1 = .ok (some r.id) ∧ (n.next env).2.state = r.shownState
    | .ok none => n.next env = (.ok none, n)
    | .error e => n.next env = (.error e, n) := by
  have ground : Scan.Ground env.survey :=
    ⟨compiled.distinct, compiled.linked, layout.loops_unique compiled.linked compiled.distinct⟩
  have records : env.survey.records = before.map Place.record ++ p.record ::
      after.map Place.record := by
    rw [layout.records, split, List.map_append, List.map_cons]
  have found : env.survey.get? p.record.id = some p.record :=
    Survey.get?_of_record? (Survey.record?_of_mem compiled.distinct (by rw [records]; simp))
  have length : after.length < n.maxSteps := by
    have := congrArg List.length records
    simp only [List.length_append, List.length_cons, List.length_map] at this
    simp only [Survey.size] at enough
    omega
  have stands : Scan.Stands env ⟨n, some p.record.id, none⟩ after :=
    ⟨serves, unqueued, ⟨_, _, records, rfl⟩, fun id forced => by contradiction⟩
  have ends : Scan.Ends (scan env after)
      (Walk.run env n.maxSteps ⟨n, some p.record.id, none⟩ n.maxSteps) :=
    (Scan.sound_blocks ground layout.expanded).2 before p after split reached _ stands _ length
  rw [next_eq_walk active found unskipped]
  change Scan.Ends _ (n.walk env (some p.record.id) none) at ends
  cases outcome : scan env after with
  | error e =>
    rw [outcome] at ends
    exact congrArg n.land ends
  | ok shown =>
    rw [outcome] at ends
    cases shown with
    | none => exact congrArg n.land ends
    | some r =>
      obtain ⟨moved, arrived, state⟩ := ends
      rw [arrived]
      exact ⟨rfl, state⟩

/-- Up to two guests, each asked with a grid and a question. -/
def guestText : String :=
  "[COUNT]\n<loop bound=COUNT max=2>\n|grid MEAL||Meals|SOUP=soup|1=yes|\n[NAME]\n</loop>\n[END]"

def guestLoop : Loop := ⟨0, 1, "COUNT", 2, none, "MEAL", 7⟩

theorem guestText_shape :
    (Survey.compile {} "guests" guestText).toOption.map (fun s =>
      (s.records.map fun r => (r.id, r.marker?, r.directives), s.loops)) =
    some ([("COUNT", none, {}),
      ("MEAL_1_1", none, { grid := true, loopEntry := some ⟨0, "COUNT", 2, 1, "MEAL"⟩ }),
      ("NAME_1_1", none, {}), ("__CONT_0_1", some (.continuation 0 1), {}),
      ("MEAL_2_2", none, { grid := true, loopEntry := some ⟨0, "COUNT", 2, 2, "MEAL"⟩ }),
      ("NAME_2_2", none, {}), ("__CONT_0_2", some (.continuation 0 2), {}),
      ("__ENDLOOP_0", some (.endOfLoop 0), {}), ("END", none, { isEnd := true })],
      [guestLoop]) := by
  rw [Survey.compile_eq_chars (by decide +kernel)]
  decide +kernel

theorem guest_expanded {meal name marker : Record} {i : Nat}
    (entry : meal.id = guestLoop.iterationEntry i ∧ meal.marker? = none ∧
      meal.directives = { grid := true, loopEntry := some ⟨0, "COUNT", 2, i, "MEAL"⟩ })
    (further : name.marker? = none ∧ name.directives = {})
    (closing : marker.marker? = some (.continuation 0 i) ∧ marker.directives = {}) :
    (⟨meal, [name], marker⟩ : Iteration).Expanded guestLoop i where
  unmarked := entry.2.1
  annotated := ⟨_, by rw [entry.2.2], rfl, rfl⟩
  entry_id := entry.1
  further := List.forall_mem_singleton.2 ⟨further.1, by rw [further.2]⟩
  marker := closing.1
  marker_bare := by rw [closing.2]

/-- The records of the survey: the count, two iterations, each of a grid and a question, and the
end. -/
structure Guests (s : Survey) (count finish last : Record) (first second : Iteration) : Prop where
  layout : s.LaidOut [.question count, .repeated guestLoop [first, second] finish, .question last]
  size : s.size = 9
  count : count.id = "COUNT" ∧ count.directives = {}
  name : ∃ name, first.further = [name] ∧ name.id = "NAME_1_1" ∧ name.directives = {}
  last : last.id = "END" ∧ last.marker? = none ∧ last.directives = { isEnd := true }

theorem exists_guests : ∃ s count finish last first second,
    (Survey.compile {} "guests" guestText).toOption = some s ∧
      Guests s count finish last first second := by
  obtain ⟨s, accepted, shape⟩ := Option.map_eq_some_iff.1 guestText_shape
  simp only [Prod.mk.injEq, List.map_eq_cons_iff, List.map_eq_nil_iff] at shape
  obtain ⟨⟨count, _, records, ⟨countId, countPlain, countBare⟩, meal, _, rfl, entry,
    name, _, rfl, ⟨nameId, further⟩, marker, _, rfl, ⟨-, closing⟩, meal', _, rfl, entry',
    name', _, rfl, ⟨-, further'⟩, marker', _, rfl, ⟨-, closing'⟩, finish, _, rfl,
    ⟨finishId, finished, finishBare⟩, last, _, rfl, ⟨lastId, lastPlain, lastBare⟩, rfl⟩,
    loops⟩ := shape
  have first : (⟨meal, [name], marker⟩ : Iteration).Expanded guestLoop 1 :=
    guest_expanded entry further closing
  have second : (⟨meal', [name'], marker'⟩ : Iteration).Expanded guestLoop 2 :=
    guest_expanded entry' further' closing'
  refine ⟨s, count, finish, last, ⟨meal, [name], marker⟩, ⟨meal', [name'], marker'⟩, accepted,
    ⟨records, ?_⟩, ?_, ⟨countId, countBare⟩, ⟨name, rfl, nameId, further.2⟩, lastId, lastPlain,
    lastBare⟩
  · simp only [List.forall_mem_cons, List.not_mem_nil, false_imp_iff, implies_true, and_true]
    refine ⟨⟨countPlain, by rw [countBare]⟩, ?_, ⟨lastPlain, by rw [lastBare]⟩⟩
    refine ⟨fun _ => by simp [loops], rfl, by decide, ?_, finishId.trans (by decide), finished,
      by rw [finishBare]⟩
    intro it i numbered
    rcases List.mem_cons.1 numbered with same | numbered
    · cases same
      exact first
    · cases List.mem_singleton.1 numbered
      exact second
  · rw [Survey.size, records]
    rfl

/-- A scan that passes over all that stands in front of the end. -/
theorem Guests.scan_end {s : Survey} {count finish last : Record} {first second : Iteration}
    (guests : Guests s count finish last first second) {passed : List Place}
    (quiet : ∀ q ∈ passed, q.refusal? env = none ∧ q.isShown env = false) :
    scan env (passed ++ [⟨last, none⟩]) = .ok (some last) := by
  obtain ⟨-, plain, bare⟩ := guests.last
  rw [Scan.skip _ quiet]
  simp [scan, Place.refusal?, Place.isShown, Place.isBeyond, plain, bare, Surroundings.permits]

/-- Without guests a move from the count ends the survey, and with one guest so does a move from
the name. -/
theorem next_without_guests : ∃ s, (Survey.compile {} "guests" guestText).toOption = some s ∧
    (({ ofSurvey s {} with state := .active "COUNT" } : Navigator).next
      ⟨s, {}, fun _ => some (.text "0")⟩).2.state = .terminal "END" ∧
    (({ ofSurvey s {} with state := .active "NAME_1_1" } : Navigator).next
      ⟨s, {}, fun _ => some (.text "1")⟩).2.state = .terminal "END" := by
  obtain ⟨s, count, finish, last, first, second, accepted, guests⟩ := exists_guests
  obtain ⟨name, further, nameId, nameBare⟩ := guests.name
  obtain ⟨countId, countBare⟩ := guests.count
  obtain ⟨lastId, -, lastBare⟩ := guests.last
  have compiled : s.Compiled := Survey.compiled_of_toOption accepted
  have expanded : guestLoop.Expanded s [first, second] finish :=
    guests.layout.expanded (.repeated guestLoop [first, second] finish) (by simp)
  have closing : first.marker.marker? = some (.continuation 0 1) :=
    (expanded.expanded first 1 (by simp)).marker
  have ends {source : Source} {before passed : List Place} {p : Place}
      (split : [.question count, .repeated guestLoop [first, second] finish,
        .question last].flatMap Block.places = before ++ p :: (passed ++ [⟨last, none⟩]))
      (reached : p.isBeyond ⟨s, {}, source⟩ = false) (bare : p.record.directives = {})
      (quiet : ∀ q ∈ passed,
        q.refusal? ⟨s, {}, source⟩ = none ∧ q.isShown ⟨s, {}, source⟩ = false) :
      (({ ofSurvey s {} with state := .active p.record.id } : Navigator).next
        ⟨s, {}, source⟩).2.state = .terminal "END" := by
    let env : Surroundings := ⟨s, {}, source⟩
    let n : Navigator := { ofSurvey s {} with state := .active p.record.id }
    have skips : env.skipTargets p.record = [] := by simp [Surroundings.skipTargets, bare]
    have enough : env.survey.size < n.maxSteps := by
      change s.size < 10000
      rw [guests.size]
      decide
    have serves : n.Serves env.survey := serves_ofSurvey s {}
    have moves := next_refines_scan compiled guests.layout split serves rfl reached rfl skips enough
    rw [guests.scan_end quiet] at moves
    refine moves.2.trans ?_
    simp [Record.shownState, Record.isTerminal, lastId, lastBare]
  let nobody : Source := fun _ => some (.text "0")
  let single : Source := fun _ => some (.text "1")
  have unread : guestLoop.readBound nobody = .ok 0 := rfl
  have read : guestLoop.readBound single = .ok 1 := rfl
  refine ⟨s, accepted, ?_, ?_⟩
  · have whole : [.question count, .repeated guestLoop [first, second] finish,
        .question last].flatMap Block.places = [] ++ ⟨count, none⟩ ::
          ((iterationPlaces guestLoop 1 [first, second] ++ [⟨finish, none⟩]) ++
            [⟨last, none⟩]) := by
      simp [Block.places]
    rw [← countId]
    refine ends whole rfl countBare ?_
    exact (Scan.closed_iterations expanded 1 [first, second]).quiet unread Nat.zero_lt_one
  · have whole : [.question count, .repeated guestLoop [first, second] finish,
        .question last].flatMap Block.places =
          [⟨count, none⟩, ⟨first.entry, some (guestLoop, 1)⟩] ++ ⟨name, some (guestLoop, 1)⟩ ::
            ((⟨first.marker, some (guestLoop, 1)⟩ ::
              (iterationPlaces guestLoop 2 [second] ++ [⟨finish, none⟩])) ++ [⟨last, none⟩]) := by
      simp [Block.places, iterationPlaces_cons, Iteration.places, further]
    rw [← nameId]
    refine ends whole rfl nameBare ?_
    intro q member
    rcases List.mem_cons.1 member with rfl | member
    · exact Scan.quiet_of_continuation rfl closing read
    · exact (Scan.closed_iterations expanded 2 [second]).quiet read (Nat.lt_succ_self 1) q member

end Questionnaire.Navigator
