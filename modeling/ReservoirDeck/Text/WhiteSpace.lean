/-!
The white space of Unicode, and texts without it at their ends.
-/

namespace ReservoirDeck

/-- The characters with the property White_Space. -/
def isWhiteSpace (c : Char) : Bool :=
  let code := c.toNat
  (0x9 ≤ code && code ≤ 0xD) || code == 0x20 || code == 0x85 || code == 0xA0 || code == 0x1680 ||
    (0x2000 ≤ code && code ≤ 0x200A) || code == 0x2028 || code == 0x2029 || code == 0x202F ||
    code == 0x205F || code == 0x3000

namespace Text

def dropEndWhile (p : Char → Bool) (cs : List Char) : List Char :=
  (cs.reverse.dropWhile p).reverse

def trimEnd (s : String) : String :=
  String.ofList (dropEndWhile isWhiteSpace s.toList)

def trim (s : String) : String :=
  String.ofList (dropEndWhile isWhiteSpace (s.toList.dropWhile isWhiteSpace))

end Text

end ReservoirDeck
