import Questionnaire.Navigation.History
import Questionnaire.Proofs.Json.Text

/-! The stored form of a history. The list of the questions visited and the framed form
with the queues match each other, so restoring them gives the history back. -/
namespace Questionnaire

theorem Json.texts?_ofTexts (items : List String) : (Json.ofTexts items).texts? = some items := by
  change (items.map Json.text).mapM Json.text? = some items
  induction items with
  | nil => rfl
  | cons item items ih =>
    rw [List.map_cons, List.mapM_cons, ih]
    rfl

theorem Json.fieldsOf?_ofFields (names : List String) (fields : List (String × Json)) :
    (Json.ofFields fields).fieldsOf? names = some (Dict.ofList fields).get? := rfl

namespace History

theorem readFrame?_frameJson (f : Frame) : readFrame? (frameJson f) = some f := by
  obtain ⟨id, queued⟩ := f
  cases queued with
  | nil => rfl
  | cons first queued =>
    have texts := Json.texts?_ofTexts (first :: queued)
    simp [readFrame?, frameJson, Json.fieldsOf?_ofFields, Dict.ofList, Json.text?, texts]

theorem readFrames_frameJson (frames : List Frame) :
    (frames.map frameJson).mapM readFrame? = some frames := by
  induction frames with
  | nil => rfl
  | cons f frames ih =>
    rw [List.map_cons, List.mapM_cons, readFrame?_frameJson, ih]
    rfl

theorem readFramed?_toJson (h : History) : readFramed? h.toJson = some h := by
  have visited := readFrames_frameJson h.frames
  have upcoming := Json.texts?_ofTexts h.upcoming
  have order : h.frames.reverse = h.visits := List.reverse_reverse _
  simp [readFramed?, toJson, Json.fieldsOf?_ofFields, Dict.ofList, Json.array?, visited, upcoming,
    order, -List.map_reverse]

theorem idsJson_plain (h : History) : h.idsJson.Plain 1 := .ofTexts 0 h.ids

theorem frameJson_plain (f : Frame) : (frameJson f).Plain 2 := by
  apply Json.Plain.ofFields
  intro field member
  rcases List.mem_cons.1 member with rfl | queued
  · exact .text f.id
  · split at queued
    · cases queued
    · obtain rfl := List.mem_singleton.1 queued
      exact .ofTexts 0 f.queued

theorem toJson_plain (h : History) : h.toJson.Plain 4 := by
  apply Json.Plain.ofFields
  intro field member
  simp only [List.mem_cons, List.not_mem_nil, or_false] at member
  rcases member with rfl | rfl
  · refine .array fun item member => ?_
    obtain ⟨f, -, rfl⟩ := List.mem_map.1 member
    exact frameJson_plain f
  · exact .ofTexts 2 h.upcoming

theorem isEmpty_eq (h : History) : h.isEmpty = h.current?.isNone := by
  obtain ⟨visits, upcoming⟩ := h
  cases visits <;> rfl

theorem ids_visit (h : History) (id : String) : (h.visit id).ids = h.ids ++ [id] := by
  simp [ids, frames, visit]

theorem ids_foldl_visit (names : List String) (h : History) :
    (names.foldl visit h).ids = h.ids ++ names := by
  induction names generalizing h with
  | nil => simp
  | cons name names ih => rw [List.foldl_cons, ih, ids_visit, List.append_assoc]; rfl

/-- A list of questions is read as visits with nothing queued. -/
theorem ofJson_idsJson (h : History) : ofJson h.idsJson = .ok (h.ids.foldl visit {}) := by
  have texts : (h.ids.map Json.text).filterMap Json.text? = h.ids := by
    simp [List.filterMap_map, Function.comp_def, Json.text?]
  rw [idsJson, Json.ofTexts, ofJson, texts]

/-- The stored forms of a history give it back. -/
theorem restore_stored (h : History) : restore h.idsJson (some h.toJson) = .ok h := by
  have same : (h.ids.foldl visit {}).ids = h.ids := ids_foldl_visit h.ids {}
  simp only [restore, ofJson_idsJson, Option.bind_some, readFramed?_toJson, same, bind, Except.bind,
    beq_self_eq_true, if_true]
  rfl

end History

end Questionnaire
