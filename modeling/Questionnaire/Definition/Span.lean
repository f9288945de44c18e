/-! Places in a definition text. Offsets count bytes of UTF-8; lines end at a line
feed, and a column counts characters from the start of its line. -/
namespace Questionnaire

structure Span where
  start : Nat := 0
  stop : Nat := 0
  line : Nat := 0
  column : Nat := 0
deriving DecidableEq

/-- The span in a text of which the span's own text begins at byte `base`. -/
def Span.offset (s : Span) (base : Nat) : Span :=
  { s with start := s.start + base, stop := s.stop + base }

structure Position where
  offset : Nat := 0
  line : Nat := 1
  column : Nat := 1
deriving DecidableEq

namespace Position

def step (p : Position) (c : Char) : Position :=
  if c == '\n' then ⟨p.offset + c.utf8Size, p.line + 1, 1⟩
  else ⟨p.offset + c.utf8Size, p.line, p.column + 1⟩

def advance (p : Position) (cs : List Char) : Position := cs.foldl step p

def spanTo (p : Position) (stop : Position) : Span := ⟨p.offset, stop.offset, p.line, p.column⟩

theorem advance_append (p : Position) (cs ds : List Char) :
    p.advance (cs ++ ds) = (p.advance cs).advance ds := by
  simp [advance]

end Position

end Questionnaire
