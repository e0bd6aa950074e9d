import AssemblerIndex.Json.Basic

/-!
# Writing JSON

`compact` writes a value on one line, `pretty` with one element a line and two spaces for each
level.  A quote, a backslash and control characters are escaped; on one line the three characters
that some readers take for line ends are escaped too.
-/

namespace AssemblerIndex.Json

/-- The digit with the given value. -/
def hexChar (n : Nat) : Char := if n < 10 then Char.ofNat (48 + n) else Char.ofNat (87 + n)

/-- The escape by code point, in four digits. -/
def unicodeEscape (n : Nat) : String :=
  String.ofList ['\\', 'u', hexChar (n / 4096 % 16), hexChar (n / 256 % 16), hexChar (n / 16 % 16),
    hexChar (n % 16)]

/-- The character is taken for a line end by some readers. -/
def isLineEnd (c : Char) : Bool := c ∈ ['\u0085', '\u2028', '\u2029']

/-- A character as it is written inside a text. -/
def writtenChar (oneLine : Bool) (c : Char) : String :=
  match c with
  | '"' => "\\\""
  | '\\' => "\\\\"
  | '\x08' => "\\b"
  | '\x0c' => "\\f"
  | '\n' => "\\n"
  | '\r' => "\\r"
  | '\t' => "\\t"
  | c =>
    if c.toNat < 0x20 ∨ (oneLine = true ∧ isLineEnd c) then unicodeEscape c.toNat else c.toString

/-- A text in quotes. -/
def writtenText (oneLine : Bool) (s : String) : String :=
  s.foldl (fun out c => out ++ writtenChar oneLine c) "\"" ++ "\""

/-- How values are laid out: on one line, or by level of indentation. -/
inductive Layout where
  | oneLine
  | indented (level : Nat)

/-- The layout one level further in. -/
def Layout.inner : Layout → Layout
  | .oneLine => .oneLine
  | .indented n => .indented (n + 1)

/-- What stands in front of an element or of a closing bracket. -/
def Layout.lead : Layout → String
  | .oneLine => ""
  | .indented n => String.ofList ('\n' :: List.replicate (2 * n) ' ')

/-- What stands between a name and its value. -/
def Layout.colon : Layout → String
  | .oneLine => ":"
  | .indented _ => ": "

/-- A text in the given layout. -/
def Layout.text : Layout → String → String
  | .oneLine, s => writtenText true s
  | .indented _, s => writtenText false s

mutual

/-- A value in the given layout, written behind `out`. -/
def write (l : Layout) (out : String) : Json → String
  | .null => out ++ "null"
  | .bool true => out ++ "true"
  | .bool false => out ++ "false"
  | .integer n => out ++ toString n
  | .real t => out ++ t
  | .string s => out ++ l.text s
  | .array [] => out ++ "[]"
  | .array (j :: js) => writeItems l.inner (write l.inner (out ++ "[" ++ l.inner.lead) j) js ++ l.lead ++ "]"
  | .object [] => out ++ "\x7b\x7d"
  | .object ((n, j) :: ms) =>
    writeMembers l.inner
      (write l.inner (out ++ "\x7b" ++ l.inner.lead ++ l.text n ++ l.colon) j) ms ++ l.lead ++ "\x7d"

/-- The further elements of an array. -/
def writeItems (l : Layout) (out : String) : List Json → String
  | [] => out
  | j :: js => writeItems l (write l (out ++ "," ++ l.lead) j) js

/-- The further members of an object. -/
def writeMembers (l : Layout) (out : String) : List (String × Json) → String
  | [] => out
  | (n, j) :: ms => writeMembers l (write l (out ++ "," ++ l.lead ++ l.text n ++ l.colon) j) ms

end

/-- A value on one line. -/
def compact (j : Json) : String := write .oneLine "" j

/-- A value over several lines. -/
def pretty (j : Json) : String := write (.indented 0) "" j

end AssemblerIndex.Json
