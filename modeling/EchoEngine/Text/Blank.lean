/-!
# White space

The characters with the Unicode property White_Space, and the three ways a text is cut by them:
trimming both ends, splitting into words, and asking whether anything else is there.
-/

namespace EchoEngine.Text

/-- The 25 characters of the property White_Space. -/
def isBlank (c : Char) : Bool :=
  let n := c.toNat
  (0x9 ≤ n && n ≤ 0xD) || n = 0x20 || n = 0x85 || n = 0xA0 || n = 0x1680
    || (0x2000 ≤ n && n ≤ 0x200A) || n = 0x2028 || n = 0x2029 || n = 0x202F || n = 0x205F
    || n = 0x3000

/-- The characters without the white space at both ends. -/
def trimChars (cs : List Char) : List Char :=
  ((cs.dropWhile isBlank).reverse.dropWhile isBlank).reverse

def trim (s : String) : String :=
  String.ofList (trimChars s.toList)

/-- A text with no character but white space. -/
def isBlankText (s : String) : Bool :=
  s.toList.all isBlank

/-- Cuts at every character that satisfies `sep`; pieces may be empty. -/
def splitChars (sep : Char → Bool) : List Char → List (List Char)
  | [] => [[]]
  | c :: cs =>
    if sep c then [] :: splitChars sep cs
    else match splitChars sep cs with
      | [] => [[c]]
      | piece :: pieces => (c :: piece) :: pieces

/-- The pieces of a text between characters that satisfy `sep`, empty ones included. -/
def splitBy (sep : Char → Bool) (s : String) : List String :=
  (splitChars sep s.toList).map String.ofList

/-- Maximal runs without white space. -/
def words (s : String) : List String :=
  (splitBy isBlank s).filter fun w => !w.isEmpty

end EchoEngine.Text
