import Questionnaire.Answer.Store
import Questionnaire.Evaluator

/-! The gate in front of a move forward. A mandated question may not be left while none
of its fields has an answer of this session. Fields that are hidden or disabled do
not count; fields of an exclusive group are not reported as blank. -/
namespace Questionnaire

inductive GateOutcome where
  | passed
  /-- The number of blank fields, and whether the respondent may insist. -/
  | blocked (unanswered : Nat) (overridable : Bool)
deriving DecidableEq

namespace GateOutcome

def qualifies (evaluator : Evaluator) (store : Store) (f : AnswerField) : Bool :=
  !f.disabled && f.displayIf.all (evaluator.condition store.source)

def isAnswered (store : Store) (question : String) (f : AnswerField) : Bool :=
  (store.liveValue? f.key question).any (!·.isEmpty)

/-- The outcome for a mandated question. -/
def ofFields (evaluator : Evaluator) (store : Store) (r : Record) (overridable : Bool) :
    GateOutcome :=
  let fields := r.fields.filter (qualifies evaluator store)
  if fields.isEmpty || fields.any (isAnswered store r.id) then passed
  else blocked (fields.countP fun f => f.exclusiveGroup.isNone) overridable

def ofRecord (evaluator : Evaluator) (store : Store) (r : Record) : GateOutcome :=
  match r.directives.mandate with
  | .optional => passed
  | .soft => ofFields evaluator store r true
  | .hard => ofFields evaluator store r false

end GateOutcome

end Questionnaire
