import Questionnaire.Answer.Storage
import Questionnaire.Proofs.Answer.Stored

/-! What storage keeps. Memory and files are seen as one dictionary, to which every change
set that they accept is applied and which is retrieved afterwards. -/
namespace Questionnaire

theorem FileStorage.read_render (f : FileStorage) {saved : Dict Json} (plain : saved.Plain) :
    FileStorage.read { f with content := .text (Json.ofDict saved).render } = .ok saved := by
  have levels : (Json.ofDict saved).Plain Json.maxDepth := (Json.Plain.ofDict plain).mono (by decide)
  simp only [read, Json.read?_render levels]
  rw [Json.ofDict]
  exact congrArg Except.ok saved.ofList_entries

namespace Storage
variable {storage after : Storage} {saved : Dict Json} {changes : ChangeSet}

/-- Storage in which `saved` is found. A file holds no numbers. -/
inductive Holds (saved : Dict Json) : Storage → Prop
  | memory {m : MemoryStorage} (same : m.saved = saved) : Holds saved (memory m)
  | file {f : FileStorage} (read : f.read = .ok saved) (plain : saved.Plain) :
      Holds saved (file f)

/-- The same storage, told how to answer from now on. -/
def behave (storage : Storage) (code : Nat) (failure : Option String) : Storage :=
  match storage with
  | memory m => memory { m with code, failure }
  | other => other

theorem Holds.behave (holds : storage.Holds saved) (code : Nat) (failure : Option String) :
    (storage.behave code failure).Holds saved := by
  cases holds with
  | memory same => exact .memory same
  | file read plain => exact .file read plain

theorem Holds.retrieve (holds : storage.Holds saved) :
    storage.retrieve = .ok (if saved.isEmpty then none else some (.ofDict saved)) := by
  cases holds with
  | memory same =>
    subst same
    rfl
  | file read plain =>
    rw [Storage.retrieve, FileStorage.retrieve, read]
    rfl

theorem Holds.accepted (holds : storage.Holds saved) (plain : changes.Plain)
    (accepted : storage.store changes = (.ok successCode, after)) :
    after.Holds (changes.applyTo saved) := by
  cases holds with
  | @memory m same =>
    subst same
    simp only [store, MemoryStorage.store] at accepted
    split at accepted
    · cases accepted
    · split at accepted
      · next other =>
        simp only [Prod.map, Prod.mk.injEq, Except.ok.injEq, id_eq] at accepted
        simp [accepted.1] at other
      · cases accepted
        exact .memory rfl
  | @file f read before =>
    simp only [store, FileStorage.store, read] at accepted
    cases accepted
    exact .file (f.read_render (plain.applyTo before)) (plain.applyTo before)

theorem Holds.declined {answer : Except SurveyError Nat} (holds : storage.Holds saved)
    (declined : storage.store changes = (answer, after)) (failure : answer ≠ .ok successCode) :
    after.Holds saved := by
  cases holds with
  | memory same =>
    simp only [store, MemoryStorage.store] at declined
    split at declined
    · cases declined
      exact .memory same
    · split at declined
      · cases declined
        exact .memory same
      · cases declined
        exact absurd rfl failure
  | file read plain =>
    simp only [store, FileStorage.store, read] at declined
    cases declined
    exact absurd rfl failure

end Storage

end Questionnaire
