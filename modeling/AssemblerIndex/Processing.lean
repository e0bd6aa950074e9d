import AssemblerIndex.Macro

/-!
# The processing stack

Where processing stands is told by a stack of frames: open code, then the copy members open in it,
then for each macro call the statement of the macro and the copy members that statement came from.
The stack is built on demand from the sources and the calls.
-/

namespace AssemblerIndex

/-- What statements are processed for. -/
inductive ProcessingKind where
  | ordinary | lookahead | macroDefinition | copy
  deriving DecidableEq, Repr, Inhabited

/-- What a frame stands in. -/
inductive FrameKind where
  | openCode | copy | macroBody
  deriving DecidableEq, Repr, Inhabited

/-- One level of nesting. -/
structure Frame where
  kind : FrameKind
  /-- the name of the macro or copy member, `none` for open code -/
  member : Option String
  location : Location
  deriving DecidableEq, Repr, Inhabited

/-- Two frames stand in the same macro, copy member or open code file. -/
def Frame.sameMember (a b : Frame) : Bool :=
  a.kind == b.kind && match a.member, b.member with
    | some m, some n => m == n
    | none, none => a.location.file == b.location.file
    | _, _ => false

/-- Frames from the outermost to the innermost. -/
abbrev ProcessingStack := List Frame

/-- A level of processing; it may have a source of its own. -/
structure Level where
  kind : ProcessingKind
  ownsSource : Bool
  deriving DecidableEq, Repr, Inhabited

/-- A source and the position in it.  Copy members that are open come innermost first. -/
structure Source where
  location : Location
  beginIndex : Nat := 0
  endIndex : Nat := 0
  endLine : Nat := 0
  copyStack : List CopyCursor := []
  deriving Inhabited

/-- The source of a file, at its beginning. -/
def Source.start (file : String) : Source := { location := ⟨file, 0, 0⟩ }

/-- A copy member that was open, and the index of its statement. -/
structure CopyFrame where
  member : String
  offset : Nat
  deriving DecidableEq, Repr, Inhabited

/-- A position in a source from which processing can go on; copy members come outermost first. -/
structure Snapshot where
  location : Location
  beginIndex : Nat
  endIndex : Nat
  endLine : Nat
  copyFrames : List CopyFrame
  deriving DecidableEq, Repr, Inhabited

/-- The position of a source. -/
def Source.snapshot (s : Source) : Snapshot :=
  { location := s.location
    beginIndex := s.beginIndex
    endIndex := s.endIndex
    endLine := s.endLine
    copyFrames := s.copyStack.reverse.map fun c => ⟨c.member.name, c.current⟩ }

/-- The frames of a source: the file, then its copy members. -/
def Source.frames (s : Source) : ProcessingStack :=
  ⟨.openCode, none, s.location⟩ ::
    s.copyStack.reverse.map fun c => ⟨.copy, some c.member.name, c.location⟩

/-- The frames of the statement that a call processes. -/
def Invocation.frames (i : Invocation) : ProcessingStack :=
  match i.definition.nests[i.current]? with
  | some (first :: rest) =>
    ⟨.macroBody, some i.definition.name, first.location⟩ ::
      rest.map fun n => ⟨.copy, n.member, n.location⟩
  | _ => []

/-- The frames of the outermost source, of the calls and of the further sources; the lists come
outermost first. -/
def processingStack (base : Source) (calls : List Invocation) (sources : List Source) :
    ProcessingStack :=
  base.frames ++ calls.flatMap Invocation.frames ++ sources.flatMap Source.frames

end AssemblerIndex
