import VectorQuery.Codec.Text
import VectorQuery.CommandLine
import VectorQuery.Settings.Basic

/-!
# The program

Reads an expression and a scope, evaluates the one in the other, and writes the
value as JSON.  What the program reads it gets from a host, so that it can be
run on files as well as on texts at hand.
-/

namespace VectorQuery

/-- Where the program reads from. -/
structure Host (m : Type → Type) where
  /-- The text of a file, if it can be read. -/
  file : String → m (Option String)
  /-- The whole of standard input, if it can be read. -/
  input : m (Option String)
  /-- The value of a variable of the environment, if it is set. -/
  env : String → Option String

/-- The ways in which a run of the program can fail. -/
inductive Failure where
  | settings (e : SettingsError)
  | unreadableInput
  | unreadableExpression (file : String)
  | unreadableScope (file : String)
  | malformedExpression
  | malformedScope
  | evaluation (e : EvalError)
deriving DecidableEq

namespace Failure

/-- What the program was about when it failed. -/
def context : Failure → String
  | .settings _ => "Failed to load configuration"
  | .unreadableInput => "Failed to read expression from stdin"
  | .unreadableExpression file => "Failed to read expression file " ++ file
  | .unreadableScope file => "Failed to read scope file " ++ file
  | .malformedExpression => "Failed to parse expression tree"
  | .malformedScope => "Failed to parse scope"
  | .evaluation _ => "Failed to evaluate expression"

/-- The error behind the failure, if it has a message. -/
def cause? : Failure → Option String
  | .settings e => some e.message
  | .evaluation e => some e.message
  | _ => none

end Failure

/-- What comes of a run of the program. -/
inductive Outcome where
  | printed (text : String)
  | refused
  | failed (f : Failure)
deriving DecidableEq

namespace Outcome

def exitCode : Outcome → Nat
  | .printed _ => 0
  | .refused => 2
  | .failed _ => 1

/-- What goes to standard output. -/
def output : Outcome → String
  | .printed text => text
  | _ => ""

end Outcome

namespace Program

/-- The name and the version of the program. -/
def versionText : String := "sensapp-expr 0.3.0\n"

def usageText : String :=
  "Usage: sensapp-expr [OPTIONS] --expression <EXPRESSION>\n"

def helpText : String :=
  "Evaluate an instant vector expression tree against a scope of values\n\n" ++
  usageText ++
  "\nOptions:\n" ++
  "  -e, --expression <EXPRESSION>  JSON expression tree, or `-` to read it from stdin\n" ++
  "  -s, --scope <SCOPE>            " ++
  "JSON object mapping variable names to scalars and vectors\n" ++
  "      --pretty                   Pretty-print the JSON result\n" ++
  "  -h, --help                     Print help\n" ++
  "  -V, --version                  Print version\n"

/-- The style of the result. -/
def style (pretty : Bool) : Json.Style := if pretty then .pretty else .compact

variable {m : Type → Type} [Monad m]

/-- The expression that the arguments name. -/
def readExpression (host : Host m) (name : String) : ExceptT Failure m Expr := do
  let text? ← if name = "-" then host.input else host.file name
  match text? with
  | none =>
      throw (if name = "-" then .unreadableInput else .unreadableExpression name)
  | some text =>
      match Expr.ofJsonText? text with
      | some e => return e
      | none => throw .malformedExpression

/-- The scope that the arguments name, the empty one if they name none. -/
def readScope (host : Host m) : Option String → ExceptT Failure m Scope
  | none => return ∅
  | some name => do
      match ← host.file name with
      | none => throw (.unreadableScope name)
      | some text =>
          match Scope.ofJsonText? text with
          | some scope => return scope
          | none => throw .malformedScope

/-- The text of the value that the arguments ask for: settings, expression and
scope are read in this order. -/
def evaluate (host : Host m) (args : Arguments) : ExceptT Failure m String := do
  let file ← host.file Settings.fileName
  let settings ← match Settings.load host.env file with
    | .ok settings => pure settings
    | .error e => throw (.settings e)
  let e ← readExpression host args.expression
  let scope ← readScope host args.scope
  match e.eval settings.evalOptions scope with
  | .error e => throw (.evaluation e)
  | .ok value =>
      return value.toJsonText (style (args.pretty || settings.prettyOutput)) ++ "\n"

/-- Runs the program with some arguments. -/
def run (host : Host m) (args : List String) : m Outcome := do
  match CommandLine.read args with
  | .version => return .printed versionText
  | .help => return .printed helpText
  | .refuse => return .refused
  | .evaluate args =>
      match ← (evaluate host args).run with
      | .ok text => return .printed text
      | .error f => return .failed f

end Program

end VectorQuery
