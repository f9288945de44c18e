/-! Blank characters and their removal from the ends of a text. The class is the
Unicode property White_Space, which is wider than the four blanks of ASCII that
core's `Char.isWhitespace` knows. -/
namespace Questionnaire.Text

/-- The twenty-five characters with the property White_Space. -/
def isBlank (c : Char) : Bool :=
  let n := c.toNat
  (9 ≤ n && n ≤ 13) || n == 0x20 || n == 0x85 || n == 0xA0 || n == 0x1680 ||
    (0x2000 ≤ n && n ≤ 0x200A) || n == 0x2028 || n == 0x2029 || n == 0x202F ||
    n == 0x205F || n == 0x3000

def trimStartChars (cs : List Char) : List Char := cs.dropWhile isBlank

def trimEndChars (cs : List Char) : List Char := (cs.reverse.dropWhile isBlank).reverse

def trimChars (cs : List Char) : List Char := trimEndChars (trimStartChars cs)

def trimStart (s : String) : String := String.ofList (trimStartChars s.toList)

def trimEnd (s : String) : String := String.ofList (trimEndChars s.toList)

def trim (s : String) : String := String.ofList (trimChars s.toList)

/-- Blanks inside one line: the space and the tabulator. -/
def isLineBlank (c : Char) : Bool := c == ' ' || c == '\t'

def skipLineBlanks (cs : List Char) : List Char := cs.dropWhile isLineBlank

theorem length_dropWhile_le (p : Char → Bool) (cs : List Char) :
    (cs.dropWhile p).length ≤ cs.length :=
  (List.dropWhile_sublist p).length_le

theorem trimStartChars_length_le (cs : List Char) : (trimStartChars cs).length ≤ cs.length :=
  length_dropWhile_le _ _

theorem skipLineBlanks_length_le (cs : List Char) : (skipLineBlanks cs).length ≤ cs.length :=
  length_dropWhile_le _ _

end Questionnaire.Text
