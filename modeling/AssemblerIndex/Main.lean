import AssemblerIndex.CommandLine
import AssemblerIndex.Json.Writer

/-!
# The program

Reads what a command needs into a volume, answers the command and prints the answer.
-/

namespace AssemblerIndex.Main

/-- The names on the way to an absolute path. -/
def namesOf (path : String) : List String :=
  ((Text.partsAt '/' path.toList).map String.ofList).filter (!·.isEmpty)

/-- Adds a regular file; one that cannot be read is left out. -/
def addFile (v : Volume) (path : String) : IO Volume := do
  try return { v with files := (namesOf path, ← IO.FS.readFile path) :: v.files }
  catch _ => return v

/-- Adds what a path leads to: a regular file, or a directory with the regular files in it. -/
def addPath (v : Volume) (path : String) : IO Volume := do
  try
    let real ← IO.FS.realPath path
    if ← real.isDir then
      let v := { v with directories := namesOf real.toString :: v.directories }
      (← real.readDir).foldlM (fun v e => do
        if ← e.path.isDir then return v else addFile v e.path.toString) v
    else addFile v real.toString
  catch _ => return v

/-- The volume that a command sees. -/
def volumeFor (c : Command) : IO Volume := do
  let v : Volume := { workingDirectory := namesOf (← IO.currentDir).toString, files := [] }
  let v ← (c.file :: c.config.toList).foldlM addPath v
  match c.settings v with
  | .ok s => s.library.foldlM addPath v
  | .error _ => return v

/-- The answer to arguments. -/
def answer (args : List String) : IO (Except CommandError Json) := do
  match Command.parse args with
  | .error e => return .error e
  | .ok c => return c.answer (← volumeFor c) ⟨1970, 1, 1, 0, 0, 0⟩

end AssemblerIndex.Main

/-- Answers the command that the arguments stand for. -/
def main (args : List String) : IO UInt32 := do
  match ← AssemblerIndex.Main.answer args with
  | .ok j =>
    IO.println j.pretty
    return 0
  | .error e =>
    if let some name := e.name? then IO.eprintln ("Error: " ++ name)
    return UInt32.ofNat e.status
