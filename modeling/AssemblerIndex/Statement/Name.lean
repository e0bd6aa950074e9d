/-!
# Names

A name is a letter of ASCII or one of `@ # $ _`, followed by such characters and digits.
-/

namespace AssemblerIndex

/-- The character may begin a name. -/
def isNameStart (c : Char) : Bool := c.isAlpha || c ∈ ['@', '#', '$', '_']

/-- The character may stand in a name. -/
def isNameChar (c : Char) : Bool := c.isAlphanum || c ∈ ['@', '#', '$', '_']

end AssemblerIndex
