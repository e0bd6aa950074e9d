import AssemblerIndex.Json.Reader

/-!
# Settings

What a user may choose, read from the member `hlasm` of a JSON text.  Unknown names are passed over
and a value of the wrong kind leaves the default in place.
-/

namespace AssemblerIndex

/-- What a user may choose. -/
structure Settings where
  /-- value of `&SYSPARM` -/
  sysparm : String := ""
  /-- value of `&SYSOPT_RENT` -/
  rent : Bool := false
  /-- the deepest nesting of macro calls that is followed -/
  maxNesting : Int := 100
  /-- the number of branches every scope may take -/
  branchLimit : Int := 4096
  /-- directories that are searched for macros and copy members -/
  library : List String := []
  /-- hovers describe instructions -/
  instructionHovers : Bool := true
  /-- completions propose operation codes in small letters -/
  lowerCaseCompletions : Bool := false
  deriving DecidableEq, Repr, Inhabited

/-- The settings cannot be used. -/
inductive SettingsError where
  | unusable
  deriving DecidableEq, Repr

/-- The wording of the error. -/
def SettingsError.message : SettingsError → String
  | .unusable => "Settings could not be interpreted"

namespace Settings

/-- The choices that a JSON value makes. -/
def chosen (root : Json) : Settings :=
  match root.member? "hlasm" with
  | none => {}
  | some j =>
    let d : Settings := {}
    { sysparm := (j.string? "sysparm").getD d.sysparm
      rent := (j.bool? "rent").getD d.rent
      maxNesting := (j.int? "maxNesting").getD d.maxNesting
      branchLimit := (j.int? "actr").getD d.branchLimit
      library := (j.strings? "library").getD d.library
      instructionHovers :=
        ((j.member? "hovers").bind (·.bool? "instructions")).getD d.instructionHovers
      lowerCaseCompletions :=
        ((j.member? "completions").bind (·.bool? "lowerCase")).getD d.lowerCaseCompletions }

/-- At least one macro level can be entered, and the number of branches is not negative. -/
def IsUsable (s : Settings) : Prop := 1 ≤ s.maxNesting ∧ 0 ≤ s.branchLimit

instance (s : Settings) : Decidable s.IsUsable := by unfold IsUsable; infer_instance

/-- The settings that a JSON value stands for. -/
def ofJson (root : Json) : Except SettingsError Settings :=
  if (chosen root).IsUsable then .ok (chosen root) else .error .unusable

/-- The settings that a text stands for. -/
def parse (text : String) : Except SettingsError Settings :=
  match Json.parse? text with
  | some root => ofJson root
  | none => .error .unusable

theorem isUsable_of_parse {text : String} {s : Settings} (h : parse text = .ok s) : s.IsUsable := by
  unfold parse ofJson at h
  split at h
  · split at h
    · rename_i husable
      exact Except.ok.inj h ▸ husable
    · simp at h
  · simp at h

end Settings

end AssemblerIndex
