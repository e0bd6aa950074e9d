import AssemblerIndex.Index.Completion
import AssemblerIndex.Index.Navigation
import AssemblerIndex.Index.Outline
import AssemblerIndex.Uri

/-!
# The form of answers

Answers as JSON in the form that editors expect.  Kinds of items are numbers there; the outline can
also be written with the kinds of the assembler.
-/

namespace AssemblerIndex

/-- A place as JSON. -/
def Position.toJson (p : Position) : Json :=
  .ofMembers [("line", .nat p.line), ("character", .nat p.column)]

/-- A stretch as JSON. -/
def Span.toJson (s : Span) : Json :=
  .ofMembers [("start", s.start.toJson), ("end", s.stop.toJson)]

/-- A stretch of a file as JSON; nothing if the name of the file is no address. -/
def FileSpan.toJson? (s : FileSpan) : Option Json :=
  (Uri.parse? s.file).map fun u => .ofMembers [("uri", .string u.text), ("range", s.span.toJson)]

/-- A place in a file as JSON; nothing if the name of the file is no address. -/
def Location.toJson? (l : Location) : Option Json :=
  (FileSpan.mk l.file (.point l.pos)).toJson?

/-- A text in markdown. -/
def markdown (s : String) : Json := .ofMembers [("kind", .string "markdown"), ("value", .string s)]

/-- A hover as JSON; null if there is nothing to say. -/
def hoverJson (s : String) : Json :=
  if s.isEmpty then .null else .ofMembers [("contents", markdown s)]

/-! ### Outlines -/

namespace OutlineKind

/-- The name of a kind. -/
def name : OutlineKind → String
  | .data => "DAT"
  | .equate => "EQU"
  | .machine => "MACH"
  | .unknown => "UNKNOWN"
  | .variable_ => "VAR"
  | .sequence => "SEQ"
  | .section_ .common => "COMMON"
  | .section_ .dummy => "DUMMY"
  | .section_ .executable => "EXECUTABLE"
  | .section_ .readonly => "READONLY"
  | .macroCall => "MACRO"
  | .copyMember => "COPY"

/-- The number by which editors know a kind. -/
def code : OutlineKind → Nat
  | .data => 8
  | .equate => 14
  | .machine => 6
  | .unknown => 21
  | .variable_ => 13
  | .sequence => 20
  | .section_ .common => 3
  | .section_ .dummy => 23
  | .section_ .executable => 2
  | .section_ .readonly => 4
  | .macroCall => 12
  | .copyMember => 1

end OutlineKind

/-- A member for a list that is left out if the list is empty. -/
def membersUnlessEmpty (name : String) (items : List Json) : List (String × Json) :=
  if items.isEmpty then [] else [(name, .array items)]

namespace OutlineItem

mutual

/-- An item with members of its own and its children. -/
def encode (own : String → OutlineKind → Span → List (String × Json)) : OutlineItem → Json
  | ⟨name, kind, span, children⟩ =>
    .ofMembers (own name kind span ++ membersUnlessEmpty "children" (encodeAll own children))

/-- The items of a list. -/
def encodeAll (own : String → OutlineKind → Span → List (String × Json)) :
    List OutlineItem → List Json
  | [] => []
  | i :: is => encode own i :: encodeAll own is

end

/-- An item with the kinds of the assembler. -/
def toNativeJson : OutlineItem → Json :=
  encode fun name kind span =>
    [("name", .string name), ("kind", .string kind.name), ("range", span.toJson)]

/-- An item in the form that editors expect. -/
def toJson : OutlineItem → Json :=
  encode fun name kind span =>
    [("name", .string name), ("detail", .string kind.name), ("kind", .nat kind.code),
      ("range", span.toJson), ("selectionRange", span.toJson)]

end OutlineItem

/-! ### Completions -/

/-- The number by which editors know a kind. -/
def CompletionKind.code : CompletionKind → Nat
  | .variable_ => 6
  | .sequence => 18
  | .generating => 24
  | .directive => 14
  | .macroCall => 3

/-- A completion as JSON. -/
def Completion.toJson (c : Completion) : Json :=
  .ofMembers ([("label", .string c.label), ("kind", .nat c.kind.code), ("detail", .string c.detail),
      ("insertText", .string c.label)]
    ++ (c.documentation.map fun d => ("documentation", markdown d)).toList)

end AssemblerIndex
