import Questionnaire.Survey.Loop
import Questionnaire.Survey.Record

/-! Compiled surveys: records in the order in which they are asked, the rows of grids
beside them, and the loops. A record is found by its identifier before a row is,
and of rows with one identifier the last one counts. -/
namespace Questionnaire

structure Survey where
  name : String
  /-- What can be navigated to, in order. -/
  records : List Record
  rows : List Record
  loops : List Loop

namespace Survey

def size (s : Survey) : Nat := s.records.length

def position? (s : Survey) (id : String) : Option Nat := s.records.findIdx? (·.id == id)

def at? (s : Survey) (position : Nat) : Option Record := s.records[position]?

def record? (s : Survey) (id : String) : Option Record := s.records.find? (·.id == id)

def row? (s : Survey) (id : String) : Option Record := s.rows.reverse.find? (·.id == id)

/-- A record or a row. -/
def get? (s : Survey) (id : String) : Option Record := (s.record? id).or (s.row? id)

def successor? (s : Survey) (id : String) : Option Record :=
  (s.position? id).bind fun position => s.at? (position + 1)

/-- The grid that a row belongs to. -/
def rowOwner? (s : Survey) (row : String) : Option String :=
  (s.row? row).bind fun r => r.membership.map Membership.grid

def rowOwners (s : Survey) : Dict String :=
  .ofList (s.rows.filterMap fun r => r.membership.map fun m => (r.id, m.grid))

end Survey

end Questionnaire
