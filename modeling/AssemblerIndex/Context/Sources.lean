import AssemblerIndex.Context.Basic

/-!
# Sources and copy members

The current source is the innermost one.  Entering a copy member puts a cursor on its copy stack, and
a snapshot of the only source can be restored.
-/

namespace AssemblerIndex.Context

/-- The current source. -/
def source (x : Context) : Source := x.sources.headD x.base

/-- Changes the current source. -/
def mapSource (f : Source → Source) (x : Context) : Context :=
  match x.sources with
  | s :: ss => { x with sources := f s :: ss }
  | [] => { x with base := f x.base }

/-- Moves the current source to a place. -/
def setPosition (x : Context) (p : Position) : Context :=
  x.mapSource fun s => { s with location := { s.location with pos := p } }

/-- Sets the indices of the current statement and its last line. -/
def setIndices (x : Context) (beginIndex endIndex endLine : Nat) : Context :=
  x.mapSource fun s => { s with beginIndex, endIndex, endLine }

/-! ### Levels of processing -/

/-- What statements are processed for. -/
def kind (x : Context) : ProcessingKind :=
  match x.levels with
  | l :: _ => l.kind
  | [] => .ordinary

/-- Starts a level that uses the current source. -/
def pushLevel (x : Context) (kind : ProcessingKind) : Context :=
  { x with levels := ⟨kind, false⟩ :: x.levels }

/-- Starts a level with a source of its own. -/
def pushSource (x : Context) (kind : ProcessingKind) (file : String) : Context :=
  { x with levels := ⟨kind, true⟩ :: x.levels, sources := .start file :: x.sources }

/-- Ends a level, and its source if it has one. -/
def popLevel (x : Context) : Except ContextError Context :=
  match x.levels with
  | l :: ls =>
    .ok { x with levels := ls, sources := if l.ownsSource then x.sources.tail else x.sources }
  | [] => .error .processingUnderflow

/-! ### Copy members -/

/-- Adds a copy member; an earlier one of its name stands. -/
def addCopyMember (x : Context) (m : CopyMember) : Context :=
  let x := x.visit m.location.file
  if x.copyMembers.contains m.name then x
  else { x with copyMembers := x.copyMembers.insert m.name m }

/-- Opens a copy member in the current source. -/
def enterCopy (x : Context) (name : String) : Except ContextError Context :=
  match x.copyMembers.find? name with
  | some m => .ok (x.mapSource fun s => { s with copyStack := { member := m } :: s.copyStack })
  | none => .error (.unknownCopyMember name)

/-- Closes the innermost copy member of the current source. -/
def leaveCopy (x : Context) : Except ContextError Context :=
  match x.source.copyStack with
  | _ :: cs => .ok (x.mapSource fun s => { s with copyStack := cs })
  | [] => .error .copyUnderflow

/-- Moves the cursor with the given level, counted from the outermost, to a statement. -/
def setCursor (x : Context) (level index : Nat) : Context :=
  x.mapSource fun s =>
    { s with copyStack :=
      (s.copyStack.reverse.modify level fun c => { c with current := index }).reverse }

/-- Moves the innermost open copy member, or else the source, to a statement. -/
def track (x : Context) (s : Statement) (index : Nat) : Context :=
  match x.source.copyStack with
  | c :: cs => x.mapSource fun src => { src with copyStack := { c with current := index } :: cs }
  | [] => (x.setPosition s.position).setIndices index (index + 1) s.span.stop.line

/-- The names of all open copy members, outermost first. -/
def openCopyMembers (x : Context) : List String :=
  (x.sources.reverse.flatMap fun s => s.copyStack.reverse.map (·.member.name))
    |> ((x.base.copyStack.reverse.map (·.member.name)) ++ ·)

/-! ### Places -/

/-- The processing stack at the current statement. -/
def stack (x : Context) : ProcessingStack :=
  processingStack x.base (x.calls.reverse.map (·.invocation)) x.sources.reverse

/-- The position of the current source. -/
def snapshot (x : Context) : Snapshot := x.source.snapshot

/-- The cursors that the copy frames of a snapshot describe, outermost first. -/
def cursors (x : Context) : List CopyFrame → Except ContextError (List CopyCursor)
  | [] => .ok []
  | f :: fs =>
    match x.copyMembers.find? f.member with
    | some m => (x.cursors fs).map (⟨m, f.offset⟩ :: ·)
    | none => .error (.unknownCopyMember f.member)

/-- Moves the only source to the position of a snapshot. -/
def restore (x : Context) (p : Snapshot) : Except ContextError Context :=
  if x.levels.isEmpty then
    match x.cursors p.copyFrames with
    | .ok cs => .ok (x.mapSource fun _ =>
        { location := p.location
          beginIndex := p.beginIndex
          endIndex := p.endIndex
          endLine := p.endLine
          copyStack := cs.reverse })
    | .error e => .error e
  else .error .snapshotDepth

end AssemblerIndex.Context
