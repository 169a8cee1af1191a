/-! # Blanks, words and lines

Texts are cut at blanks, the characters of Unicode's `White_Space` property, and at line ends. The
functions work on lists of characters: `trim` drops the blanks at both ends, `words` are the maximal
runs without a blank, and `lines` are what stands between line ends, where a line ends at a line
feed or at a carriage return with a line feed after it. A carriage return on its own is a blank
inside a line. -/

namespace ReviewQuorum.Text

/-- The characters of Unicode's `White_Space` property. -/
def isBlank (c : Char) : Bool :=
  let n := c.toNat
  (0x09 ≤ n && n ≤ 0x0D) || n == 0x20 || n == 0x85 || n == 0xA0 || n == 0x1680 ||
    (0x2000 ≤ n && n ≤ 0x200A) || n == 0x2028 || n == 0x2029 || n == 0x202F || n == 0x205F ||
    n == 0x3000

/-- The text without the blanks it begins with. -/
def trimLeft (cs : List Char) : List Char := cs.dropWhile isBlank

/-- The text without the blanks it ends with. -/
def trimRight (cs : List Char) : List Char := (cs.reverse.dropWhile isBlank).reverse

/-- The text without the blanks at either end. -/
def trim (cs : List Char) : List Char := trimRight (trimLeft cs)

/-- Puts a character in front of the first word. -/
def growFirst (c : Char) : List (List Char) → List (List Char)
  | [] => [[c]]
  | w :: ws => (c :: w) :: ws

/-- The maximal runs without a blank, in order. -/
def words : List Char → List (List Char)
  | [] => []
  | c :: cs =>
    if isBlank c then words cs
    else
      match cs with
      | [] => [[c]]
      | d :: _ => if isBlank d then [c] :: words cs else growFirst c (words cs)

/-- The lines of a text. The last one needs no line end, and an empty last line is none. -/
def lines : List Char → List (List Char)
  | [] => []
  | '\n' :: cs => [] :: lines cs
  | '\r' :: '\n' :: cs => [] :: lines cs
  | c :: cs => growFirst c (lines cs)

/-- What stands after `p`, if the text begins with `p`. -/
def dropPrefix? : List Char → List Char → Option (List Char)
  | [], cs => some cs
  | _ :: _, [] => none
  | p :: ps, c :: cs => if p = c then dropPrefix? ps cs else none

theorem dropPrefix?_eq_some_iff : ∀ {p s r : List Char}, dropPrefix? p s = some r ↔ s = p ++ r
  | [], s, r => by simp [dropPrefix?]
  | p :: ps, [], r => by simp [dropPrefix?]
  | p :: ps, c :: cs, r => by
    by_cases h : p = c
    · subst h
      simp [dropPrefix?, dropPrefix?_eq_some_iff]
    · simp [dropPrefix?, h, Ne.symm h]

end ReviewQuorum.Text
