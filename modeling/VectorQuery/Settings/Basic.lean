import VectorQuery.Eval
import VectorQuery.Settings.File
import VectorQuery.Text.Blank

/-!
# Settings

The settings of the program.  A variable of the environment has precedence over
a setting in the file, and that over the default.
-/

namespace VectorQuery

structure Settings where
  /-- Which events are logged. -/
  logFilter : String := "info"
  /-- Whether scalar arithmetic has to yield finite numbers. -/
  rejectNonFinite : Bool := true
  /-- Whether the result is written over several lines. -/
  prettyOutput : Bool := false
deriving DecidableEq, Repr

/-- The settings of one source, as far as it has them. -/
structure PartialSettings where
  logFilter : Option String := none
  rejectNonFinite : Option Bool := none
  prettyOutput : Option Bool := none
deriving DecidableEq, Repr

inductive SettingsError where
  /-- The text of a variable is not a boolean. -/
  | variable (field name text : String)
  /-- The file is malformed or has a value of the wrong type. -/
  | file (name : String)
  /-- There are no settings yet. -/
  | notLoaded
deriving DecidableEq, Repr

def SettingsError.message : SettingsError → String
  | .variable field name text =>
      "failed to deserialize value `ExprConfig::" ++ field ++
        "` from environment variable `" ++ name ++
        "`: invalid value for bool: '" ++ text ++ "'"
  | .file name => "failed to deserialize configuration from file '" ++ name ++ "'"
  | .notLoaded =>
      "Configuration not loaded. Please call load_configuration() before using " ++
        "the configuration"

namespace Settings

/-- The name of the settings file. -/
def fileName : String := "settings.toml"

/-- The variable of the environment for the filter of logged events. -/
def logFilterVariable : String := "SENSAPP_EXPR_LOG_FILTER"

/-- The variable of the environment for whether to reject results that are not
finite. -/
def rejectNonFiniteVariable : String := "SENSAPP_EXPR_REJECT_NON_FINITE"

/-- The variable of the environment for whether to write over several lines. -/
def prettyOutputVariable : String := "SENSAPP_EXPR_PRETTY_OUTPUT"

/-- The variables of the environment that settings come from. -/
def variableNames : List String :=
  [logFilterVariable, rejectNonFiniteVariable, prettyOutputVariable]

end Settings

namespace PartialSettings

/-- The boolean that a word stands for, in whatever case it is written. -/
def boolean? (word : String) : Option Bool :=
  match String.ofList (word.toList.map (·.toLower)) with
  | "1" | "true" | "yes" => some true
  | "0" | "false" | "no" => some false
  | _ => none

/-- The boolean of a variable, unless it is unset or empty. -/
def booleanVariable (env : String → Option String) (field name : String) :
    Except SettingsError (Option Bool) :=
  match env name with
  | none => .ok none
  | some text =>
      if text.isEmpty then .ok none
      else
        match boolean? (Text.trim text) with
        | some b => .ok (some b)
        | none => .error (.variable field name (Text.trim text))

/-- The settings of the environment. -/
def ofEnvironment (env : String → Option String) : Except SettingsError PartialSettings := do
  let logFilter := env Settings.logFilterVariable
  let rejectNonFinite ←
    booleanVariable env "reject_non_finite" Settings.rejectNonFiniteVariable
  let prettyOutput ←
    booleanVariable env "pretty_output" Settings.prettyOutputVariable
  return { logFilter, rejectNonFinite, prettyOutput }

/-- The string under a name, if there is anything; it has to be a string. -/
def stringSetting? (settings : List Setting) (name : String) : Option (Option String) :=
  match settings.find? (·.key.head? = some name) with
  | none => some none
  | some ⟨[_], .string s⟩ => some (some s)
  | some _ => none

/-- The boolean under a name, if there is anything; it has to be a boolean. -/
def booleanSetting? (settings : List Setting) (name : String) : Option (Option Bool) :=
  match settings.find? (·.key.head? = some name) with
  | none => some none
  | some ⟨[_], .bool b⟩ => some (some b)
  | some _ => none

/-- The settings of a file. -/
def ofText? (text : String) : Option PartialSettings := do
  let settings ← SettingsFile.read? text
  return {
    logFilter := ← stringSetting? settings "log_filter"
    rejectNonFinite := ← booleanSetting? settings "reject_non_finite"
    prettyOutput := ← booleanSetting? settings "pretty_output" }

end PartialSettings

namespace Settings

/-- The settings of the environment, completed from the text of the settings
file, if there is one, and from the defaults. -/
def load (env : String → Option String) (file : Option String) :
    Except SettingsError Settings := do
  let first ← PartialSettings.ofEnvironment env
  let second ← match file with
    | none => .ok {}
    | some text =>
        match PartialSettings.ofText? text with
        | some settings => .ok settings
        | none => .error (.file fileName)
  let defaults : Settings := {}
  return {
    logFilter := (first.logFilter <|> second.logFilter).getD defaults.logFilter
    rejectNonFinite :=
      (first.rejectNonFinite <|> second.rejectNonFinite).getD defaults.rejectNonFinite
    prettyOutput := (first.prettyOutput <|> second.prettyOutput).getD defaults.prettyOutput }

/-- The settings in use, which have to be loaded before. -/
def current (loaded : Option Settings) : Except SettingsError Settings :=
  match loaded with
  | some settings => .ok settings
  | none => .error .notLoaded

/-- The options that the settings give to an evaluation. -/
def evalOptions (settings : Settings) : EvalOptions := ⟨settings.rejectNonFinite⟩

end Settings

end VectorQuery
