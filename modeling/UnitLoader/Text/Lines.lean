/-! The lines of a text. A line ends at a line feed, or at a carriage return
followed by one; what stands after the last line feed is a line only when it is
not empty. A carriage return elsewhere belongs to its line. -/

namespace UnitLoader.Text

def lines : List Char → List (List Char)
  | [] => []
  | '\n' :: rest => [] :: lines rest
  | '\r' :: '\n' :: rest => [] :: lines rest
  | c :: rest =>
    match lines rest with
    | [] => [[c]]
    | line :: others => (c :: line) :: others

/-- Whether `needle` occurs in a text. -/
def contains (needle : List Char) : List Char → Bool
  | [] => needle.isEmpty
  | c :: rest => needle.isPrefixOf (c :: rest) || contains needle rest

end UnitLoader.Text
