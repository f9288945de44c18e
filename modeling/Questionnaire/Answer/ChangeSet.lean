import Questionnaire.Json.Basic

/-! What one transition writes to storage: values by name, each name qualified by the
survey. Null stands for an answer that was removed. -/
namespace Questionnaire

def qualifiedName (survey name : String) : String := survey ++ "." ++ name

structure ChangeSet where
  entries : Dict Json := ∅

namespace ChangeSet

def insert (c : ChangeSet) (survey name : String) (value : Json) : ChangeSet :=
  ⟨c.entries.insert (qualifiedName survey name) value⟩

def get? (c : ChangeSet) (qualified : String) : Option Json := c.entries.get? qualified

def size (c : ChangeSet) : Nat := c.entries.size

def isEmpty (c : ChangeSet) : Bool := c.entries.isEmpty

def applyTo (c : ChangeSet) (saved : Dict Json) : Dict Json :=
  c.entries.entries.foldl
    (fun saved (name, value) =>
      match value with
      | .null => saved.erase name
      | value => saved.insert name value)
    saved

end ChangeSet

end Questionnaire
