/-!
# The command line

The program takes a file with an expression and perhaps one with a scope.  An
option with a value has it in the argument behind, or in its own behind an
equals sign; a letter may also be followed by its value at once.  Arguments are
read from left to right, and the first thing that decides what to do, or that
is wrong, ends the reading.
-/

namespace VectorQuery

/-- What an evaluation is to be made of. -/
structure Arguments where
  /-- The file with the expression, or `-` for standard input. -/
  expression : String
  scope : Option String
  pretty : Bool
deriving DecidableEq, Repr

/-- What the command line asks for. -/
inductive Command where
  | evaluate (args : Arguments)
  | version
  | help
  | refuse
deriving DecidableEq, Repr

namespace CommandLine

/-- The options that have been given so far. -/
structure Given where
  expression : Option String := none
  scope : Option String := none
  pretty : Bool := false

/-- The options with a value. -/
inductive ValueOption where
  | expression
  | scope

/-- What the start of an argument says. -/
inductive Item where
  /-- An option with a value, which may be in the same argument. -/
  | value (option : ValueOption) (attached : Option (List Char))
  | pretty
  | version
  | help
  | wrong

/-- What the letters of an argument say; only the first one is looked at, since
none of them leaves the reading open. -/
def short : List Char → Item
  | 'V' :: _ => .version
  | 'h' :: _ => .help
  | c :: rest =>
      let attached :=
        match rest with
        | [] => none
        | '=' :: rest => some rest
        | rest => some rest
      if c = 'e' then .value .expression attached
      else if c = 's' then .value .scope attached
      else .wrong
  | [] => .wrong

/-- What a name says, with the value behind its equals sign. -/
def long (name : String) (attached : Option (List Char)) : Item :=
  match name, attached with
  | "expression", attached => .value .expression attached
  | "scope", attached => .value .scope attached
  | "pretty", none => .pretty
  | "version", none => .version
  | "help", none => .help
  | _, _ => .wrong

/-- What an argument says. -/
def item (arg : String) : Item :=
  match arg.toList with
  | '-' :: '-' :: cs =>
      let name := String.ofList (cs.takeWhile (· != '='))
      match cs.dropWhile (· != '=') with
      | [] => long name none
      | _ :: attached => long name (some attached)
  | '-' :: cs => short cs
  | _ => .wrong

/-- Whether an argument can be the value of the option before it. -/
def isValue (arg : String) : Bool :=
  match arg.toList with
  | '-' :: _ :: _ => false
  | _ => true

/-- The options with one more value, which must not be empty nor given twice. -/
def Given.add? (given : Given) (option : ValueOption) (value : String) : Option Given :=
  if value.isEmpty then none
  else
    match option with
    | .expression =>
        if given.expression.isSome then none else some { given with expression := value }
    | .scope => if given.scope.isSome then none else some { given with scope := value }

/-- What is to be done when all arguments have been read. -/
def Given.command (given : Given) : Command :=
  match given.expression with
  | none => .refuse
  | some expression => .evaluate ⟨expression, given.scope, given.pretty⟩

/-- What is to be done after some arguments, the options before them given. -/
def readFrom (given : Given) : List String → Command
  | [] => given.command
  | ["--"] => given.command
  | arg :: args =>
      match item arg with
      | .version => .version
      | .help => .help
      | .wrong => .refuse
      | .pretty => if given.pretty then .refuse else readFrom { given with pretty := true } args
      | .value option (some attached) =>
          match given.add? option (String.ofList attached) with
          | some given => readFrom given args
          | none => .refuse
      | .value option none =>
          match args with
          | [] => .refuse
          | value :: args =>
              if isValue value then
                match given.add? option value with
                | some given => readFrom given args
                | none => .refuse
              else .refuse

/-- What the arguments ask for. -/
def read (args : List String) : Command := readFrom {} args

end CommandLine

end VectorQuery
