import Questionnaire.Dict
import Questionnaire.Survey.Moment

/-! Variables that question texts refer to by name: the date of the session, the
respondent and whatever the host adds. -/
namespace Questionnaire

structure Context where
  values : Dict String := ∅

namespace Context

def get? (context : Context) (name : String) : Option String := context.values.get? name

/-- A later value for a name replaces an earlier one. -/
def add (context : Context) (name value : String) : Context :=
  ⟨context.values.insert name value⟩

def addAll (context : Context) (values : List (String × String)) : Context :=
  values.foldl (fun context (name, value) => context.add name value) context

def ofUser (user : Option String) : Context :=
  match user with
  | some user => Context.add {} "user" user
  | none => {}

/-- The variables of a point in time. -/
def ofMoment (now : Moment) (user : Option String) : Context :=
  (ofUser user).addAll [
    ("today", now.dateText),
    ("year", toString now.year),
    ("month", toString now.month),
    ("month_name", now.monthName),
    ("yearmonth", now.monthText),
    ("weekday", now.weekday),
    ("time", now.timeText)]

end Context

end Questionnaire
