/-!
# Lines

A text is split behind each line feed; a carriage return in front of a line feed belongs to the line's
end. A line is blank when it holds only white space in the sense of Unicode.
-/

namespace LeafPlan

namespace Lines

/-- The lines of a text without their ends. A text that ends in a line feed has no line behind it. -/
def split : List Char → List (List Char)
  | [] => []
  | '\n' :: rest => [] :: split rest
  | '\r' :: '\n' :: rest => [] :: split rest
  | c :: rest =>
    match split rest with
    | [] => [[c]]
    | line :: lines => (c :: line) :: lines

def isSpace (c : Char) : Bool :=
  let n := c.toNat
  (9 ≤ n && n ≤ 13) || n = 0x20 || n = 0x85 || n = 0xA0 || n = 0x1680 || (0x2000 ≤ n && n ≤ 0x200A) ||
    n = 0x2028 || n = 0x2029 || n = 0x202F || n = 0x205F || n = 0x3000

def isBlank (line : List Char) : Bool := line.all isSpace

def trimStart (line : List Char) : List Char := line.dropWhile isSpace

def trimEnd (line : List Char) : List Char := (line.reverse.dropWhile isSpace).reverse

def trim (line : List Char) : List Char := trimEnd (trimStart line)

end Lines

end LeafPlan
