import AssemblerIndex.Files.Directory
import AssemblerIndex.Index.Answer

/-!
# The command line

A command names a query, the file with the open code and the directories that are searched for
members; the answer is JSON.  `Command.parse` reads the arguments, `Command.answer` answers a command
on a volume of files.
-/

namespace AssemblerIndex

/-- Queries. -/
inductive QueryKind where
  | outline | definition | references | hover | complete
  deriving DecidableEq, Repr, Inhabited

/-- What goes wrong with a command. -/
inductive CommandError where
  /-- the arguments do not have the form of a command -/
  | badArguments
  | invalidCommand
  | fileNotFound
  | unknownUri
  | outOfRange
  | badSettings
  /-- the source cannot be assembled to its end -/
  | fault (f : AssemblyFault)
  deriving DecidableEq, Repr

namespace CommandError

/-- The status that a command ends with. -/
def status : CommandError → Nat
  | .badArguments => 2
  | .fault _ => 101
  | _ => 1

/-- The name of the error, if one is given. -/
def name? : CommandError → Option String
  | .badArguments | .fault _ => none
  | .invalidCommand => some "InvalidCommand"
  | .fileNotFound => some "FileNotFound"
  | .unknownUri => some "UnknownUri"
  | .outOfRange => some "OutOfRange"
  | .badSettings => some "BadSettings"

end CommandError

/-! ### Arguments -/

/-- Options of commands. -/
inductive CommandOption where
  | file | library | config | uri | line | column | trigger | native
  deriving DecidableEq, Repr, Inhabited

namespace CommandOption

/-- The options with their long names and letters. -/
def all : List (CommandOption × String × Option Char) := [
  (.file, "file", some 'f'), (.library, "lib", some 'L'), (.config, "config", none),
  (.uri, "uri", none), (.line, "line", some 'l'), (.column, "col", some 'c'),
  (.trigger, "trigger", some 't'), (.native, "native", none)]

/-- The option is one of a query. -/
def isFor (q : QueryKind) : CommandOption → Bool
  | .line | .column => q != .outline
  | .trigger => q == .complete
  | .native => q == .outline
  | _ => true

/-- The option has a value. -/
def takesValue (o : CommandOption) : Bool := o != .native

/-- The option may be given several times. -/
def isRepeatable (o : CommandOption) : Bool := o == .library

/-- The option of a query with a long name. -/
def ofName? (q : QueryKind) (name : String) : Option CommandOption :=
  ((all.find? (·.2.1 == name)).map Prod.fst).filter (·.isFor q)

/-- The option of a query with a letter. -/
def ofLetter? (q : QueryKind) (letter : Char) : Option CommandOption :=
  ((all.find? (·.2.2 == some letter)).map Prod.fst).filter (·.isFor q)

end CommandOption

/-- The query with a name. -/
def QueryKind.ofName? : String → Option QueryKind
  | "outline" => some .outline
  | "definition" => some .definition
  | "references" => some .references
  | "hover" => some .hover
  | "complete" => some .complete
  | _ => none

/-- An option and the value that its argument gives it, if any. -/
structure GivenOption where
  option : CommandOption
  value : Option String
  deriving DecidableEq, Repr, Inhabited

/-- A value behind a long name or a letter; an equals sign in front of it does not belong to it. -/
def attachedValue? : List Char → Option String
  | [] => none
  | '=' :: value => some (String.ofList value)
  | value => some (String.ofList value)

/-- An argument that starts an option. -/
def givenOption? (q : QueryKind) (argument : List Char) : Option GivenOption :=
  match argument with
  | '-' :: '-' :: rest =>
    (CommandOption.ofName? q (String.ofList (rest.takeWhile (· ≠ '=')))).map
      (⟨·, attachedValue? (rest.dropWhile (· ≠ '='))⟩)
  | '-' :: letter :: rest => (CommandOption.ofLetter? q letter).map (⟨·, attachedValue? rest⟩)
  | _ => none

/-- An argument that cannot be the value of an option. -/
def looksLikeOption : List Char → Bool
  | '-' :: _ :: _ => true
  | _ => false

/-- Reads options and their values. -/
def readOptions (q : QueryKind) : List String → Option (List (CommandOption × String))
  | [] => some []
  | argument :: rest =>
    if argument = "--" then (if rest.isEmpty then some [] else none)
    else match givenOption? q argument.toList with
      | none => none
      | some ⟨o, value⟩ =>
        if !o.takesValue then
          if value.isSome then none else (readOptions q rest).map ((o, "") :: ·)
        else match value, rest with
          | some v, rest => (readOptions q rest).map ((o, v) :: ·)
          | none, v :: rest =>
            if looksLikeOption v.toList then none else (readOptions q rest).map ((o, v) :: ·)
          | none, [] => none

/-- A number of 32 bits that is not negative, possibly with a sign. -/
def word? (s : String) : Option Nat :=
  match s.toList with
  | '-' :: digits => (SelfDefiningTerm.digits? 10 digits).filter (· = 0)
  | s => (SelfDefiningTerm.unsigned? 10 s).filter (· < 0x100000000)

/-- A command. -/
structure Command where
  query : QueryKind
  file : String
  /-- directories that take the place of those in the settings -/
  libraries : List String
  config : Option String
  uri : Option String
  position : Position
  trigger : Option String
  isNative : Bool
  deriving DecidableEq, Repr, Inhabited

namespace Command

/-- The command that options make of a query. -/
def ofOptions? (q : QueryKind) (options : List (CommandOption × String)) : Option Command := do
  let values (o : CommandOption) := (options.filter (·.1 == o)).map Prod.snd
  if options.any fun e => !e.1.isRepeatable && 1 < (values e.1).length then none
  let file ← (values .file).head?
  let line ← if q = .outline then some 0 else (values .line).head?.bind word?
  let column ← if q = .outline then some 0 else (values .column).head?.bind word?
  return {
    query := q
    file
    libraries := values .library
    config := (values .config).head?
    uri := (values .uri).head?
    position := ⟨line, column⟩
    trigger := (values .trigger).head?
    isNative := !(values .native).isEmpty }

/-- The command that arguments stand for. -/
def parse : List String → Except CommandError Command
  | [] => .error .invalidCommand
  | name :: options =>
    if name = "--" ∧ options.isEmpty then .error .invalidCommand
    else match QueryKind.ofName? name with
      | none => .error .badArguments
      | some q => match (readOptions q options).bind (ofOptions? q) with
        | some c => .ok c
        | none => .error .badArguments

/-! ### Answers -/

/-- The settings of a command. -/
def settings (v : Volume) (c : Command) : Except CommandError Settings := do
  let s ← match c.config with
    | none => .ok {}
    | some path => match v.file? path with
      | none => .error .fileNotFound
      | some (_, text) => match Settings.parse text with
        | .ok s => .ok s
        | .error .unusable => .error .badSettings
  return if c.libraries.isEmpty then s else { s with library := c.libraries }

/-- The character that was typed; a trigger has exactly one. -/
def triggerChar (c : Command) : Except CommandError (Option Char) :=
  match c.trigger.map String.toList with
  | none => .ok none
  | some [t] => .ok (some t)
  | some _ => .error .outOfRange

/-- The answer to a query about a file of an index. -/
def ask (c : Command) (x : Index) (file : String) : Except CommandError Json :=
  match c.query with
  | .outline =>
    .ok (.list (if c.isNative then OutlineItem.toNativeJson else OutlineItem.toJson) (x.outline file))
  | .definition => .ok (((x.definition file c.position).toJson?).getD .null)
  | .references => .ok (.array ((x.references file c.position).filterMap FileSpan.toJson?))
  | .hover => .ok (hoverJson (x.hover file c.position))
  | .complete => do
    let trigger ← c.triggerChar
    return .list Completion.toJson (x.completions file c.position trigger)

/-- The answer to a command on a volume at a moment. -/
def answer (v : Volume) (now : Moment) (c : Command) : Except CommandError Json :=
  match v.file? c.file with
  | none => .error .fileNotFound
  | some (path, text) => do
    let settings ← c.settings v
    let openCode := (Uri.ofFile path).text
    let library := Library.ofDirectories v settings.library
    match Index.analyze (.start openCode settings now) text library settings with
    | .error f => .error (.fault f)
    | .ok x =>
      let file := c.uri.getD openCode
      if x.files.contains file then c.ask x file else .error .unknownUri

end Command

end AssemblerIndex
