import Questionnaire.Proofs.Answer.Overlay

/-! What lookups remember is never seen. Whatever could change the answer to a name forgets
all that was found before, so a lookup gives what the layers of answers say at that moment,
as in a store that was never asked anything. -/
namespace Questionnaire.Store
variable {s t u : Store}

/-- What a store can be asked for. -/
inductive Request where
  | lookup (name : String)
  | change (c : Change)
  | restore (saved : Snapshot)
  | load (committed : Dict Entry)
  | setPrior (prior : Dict AnswerValue)
  | setLegacy (index : LegacyIndex)

def Request.isLookup : Request → Bool
  | lookup _ => true
  | change _ | restore _ | load _ | setPrior _ | setLegacy _ => false

def handle (s : Store) : Request → Store
  | .lookup name => (s.lookup name).2
  | .change c => s.change c
  | .restore saved => s.restore saved
  | .load committed => s.load committed
  | .setPrior prior => s.setPrior prior
  | .setLegacy index => s.setLegacy index

def handleAll (s : Store) (requests : List Request) : Store := requests.foldl handle s

def ofRowOwners (owners : Dict String) : Store := { rowOwners := owners }

/-! What is remembered would be found again -/

theorem change_coherent (coherent : s.Coherent) (c : Change) : (s.change c).Coherent := by
  have cleared (question field : String) : (s.clear question field).Coherent := by
    unfold clear
    split
    · exact coherent
    · split
      · exact edit_coherent s question _
      · exact coherent
  cases c with
  | set question field count v =>
    change (s.set question field count v).Coherent
    unfold set
    split
    · exact cleared question field
    · split <;> exact edit_coherent s question _
  | clear question field => exact cleared question field
  | remove question =>
    change (s.remove question).Coherent
    unfold remove
    split
    · exact edit_coherent s question none
    · exact coherent
  | merge => exact forget_coherent _
  | discard => exact forget_coherent _

theorem handle_coherent (coherent : s.Coherent) (request : Request) :
    (s.handle request).Coherent := by
  cases request with
  | lookup name => exact (coherent.lookup name).2
  | change c => exact change_coherent coherent c
  | restore | load | setPrior | setLegacy => exact forget_coherent _

theorem handleAll_coherent (coherent : s.Coherent) (requests : List Request) :
    (s.handleAll requests).Coherent := by
  induction requests generalizing s with
  | nil => exact coherent
  | cons request requests ih => exact ih (handle_coherent coherent request)

/-! What is remembered changes nothing else -/

theorem SameAnswers.refl (s : Store) : SameAnswers s s := ⟨.refl s, rfl, rfl⟩

theorem SameAnswers.trans (first : SameAnswers s t) (second : SameAnswers t u) :
    SameAnswers s u where
  toSameGround := first.toSameGround.trans second.toSameGround
  committed := second.committed.trans first.committed
  pending := second.pending.trans first.pending

section
variable (same : SameAnswers s t)
include same

theorem SameAnswers.entry? (question : String) : t.entry? question = s.entry? question := by
  rw [Store.entry?, Store.entry?, same.pending, same.committed]

theorem SameAnswers.edit (question : String) (e : Option Entry) :
    SameAnswers (s.edit question e) (t.edit question e) where
  prior := same.prior
  legacy := same.legacy
  rowOwners := same.rowOwners
  committed := same.committed
  pending := congrArg (Dict.insert · question e) same.pending

theorem SameAnswers.clear (question field : String) :
    SameAnswers (s.clear question field) (t.clear question field) := by
  unfold Store.clear
  rw [same.entry? question]
  split
  · exact same
  · split
    · exact same.edit question _
    · exact same

theorem SameAnswers.change (c : Change) : SameAnswers (s.change c) (t.change c) := by
  cases c with
  | set question field count v =>
    change SameAnswers (s.set question field count v) (t.set question field count v)
    unfold Store.set
    split
    · exact same.clear question field
    · rw [same.entry? question]
      split <;> exact same.edit question _
  | clear question field => exact same.clear question field
  | remove question =>
    change SameAnswers (s.remove question) (t.remove question)
    unfold Store.remove
    rw [same.entry? question]
    split
    · exact same.edit question none
    · exact same
  | merge =>
    refine ⟨⟨same.prior, same.legacy, same.rowOwners⟩, ?_, rfl⟩
    change t.merge.committed = s.merge.committed
    rw [merge, merge, forget, forget, same.pending, same.committed]
  | discard => exact ⟨⟨same.prior, same.legacy, same.rowOwners⟩, same.committed, rfl⟩

theorem SameAnswers.handle {request : Request} (change : request.isLookup = false) :
    SameAnswers (s.handle request) (t.handle request) := by
  cases request with
  | lookup name => cases change
  | change c => exact same.change c
  | restore | load => exact ⟨⟨same.prior, same.legacy, same.rowOwners⟩, rfl, rfl⟩
  | setPrior => exact ⟨⟨rfl, same.legacy, same.rowOwners⟩, same.committed, same.pending⟩
  | setLegacy => exact ⟨⟨same.prior, rfl, same.rowOwners⟩, same.committed, same.pending⟩

/-- Lookups between the changes leave no trace in the answers. -/
theorem SameAnswers.handleAll (requests : List Request) :
    SameAnswers (s.handleAll (requests.filter fun r => !r.isLookup)) (t.handleAll requests) := by
  induction requests generalizing s t with
  | nil => exact same
  | cons request requests ih =>
    cases asks : request.isLookup with
    | true =>
      rw [List.filter_cons_of_neg (by simp [asks])]
      cases request with
      | lookup name => exact ih (same.trans (lookup_same t name))
      | _ => cases asks
    | false =>
      rw [List.filter_cons_of_pos (by simp [asks])]
      exact ih (same.handle asks)

end

/-- However lookups and changes alternate, a lookup finds the numeral itself, else the live
answer, else the prior result, else what the index knows, all of them at that moment; and it
finds what it would find if nothing had been looked up before. -/
theorem lookup_unremembered (owners : Dict String) (requests : List Request) (name : String) :
    let s := (ofRowOwners owners).handleAll requests
    let unasked := (ofRowOwners owners).handleAll (requests.filter fun r => !r.isLookup)
    (s.lookup name).1 = (numeral? name).or
        (((s.live? name).or (s.prior.get? name)).or (s.legacy.find? name)) ∧
      (s.lookup name).1 = unasked.answer? name := by
  intro s unasked
  have fresh : (ofRowOwners owners).Coherent := forget_coherent (ofRowOwners owners)
  have found : (s.lookup name).1 = s.answer? name :=
    ((handleAll_coherent fresh requests).lookup name).1
  have same : SameAnswers unasked s := (SameAnswers.refl (ofRowOwners owners)).handleAll requests
  exact ⟨found, found.trans (same.answer? name)⟩

end Questionnaire.Store
