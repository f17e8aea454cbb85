/-
The arguments of the command line. Options of the program stand before the task,
options of a task behind it; behind two dashes there are no more options.
-/

namespace ResourceSql.CommandLine

/-- What is to be done. -/
inductive Task where
  /-- Writes an empty configuration and the schema of configurations. -/
  | setUp
  /-- Compiles the query in a file. -/
  | query (file : String) (count pretty : Bool)
  /-- Compiles the mutation in a file. -/
  | mutation (file : String) (pretty : Bool)
  | printSchema
  deriving DecidableEq

/-- A task, and the directory of the configuration. -/
structure Invocation where
  configuration : String
  task : Task
  deriving DecidableEq

/-- What arguments ask for. -/
inductive Asked where
  | invocation (i : Invocation)
  | help
  | version
  deriving DecidableEq

/-- What is asked for, where asking for help or the version ends the reading of arguments, and
wrong arguments ask for nothing. -/
inductive Parsed (α : Type) where
  | ok (a : α)
  | help
  | version
  | wrong
  deriving DecidableEq

/-- A single dash is an argument like others. -/
def isOption (argument : String) : Bool :=
  match argument.toList with
  | '-' :: _ :: _ => true
  | _ => false

/-- The file and the flags of a task. -/
structure TaskArguments where
  file : Option String
  flags : List String
  deriving DecidableEq

namespace TaskArguments

def none : TaskArguments := ⟨.none, []⟩

def addFile? (t : TaskArguments) (file : String) : Option TaskArguments :=
  if t.file.isSome ∨ file.isEmpty then .none else some { t with file := some file }

/-- A flag is given at most once. -/
def addFlag? (t : TaskArguments) (flag : String) : Option TaskArguments :=
  if flag ∈ t.flags then .none else some { t with flags := flag :: t.flags }

def hasFlag (t : TaskArguments) (flag : String) : Bool := t.flags.contains flag

end TaskArguments

/-- Arguments behind two dashes. -/
def parseFiles (takesFile : Bool) : TaskArguments → List String → Parsed TaskArguments
  | t, [] => .ok t
  | t, argument :: rest =>
    match if takesFile then t.addFile? argument else none with
    | some t => parseFiles takesFile t rest
    | none => .wrong

/-- Whether an argument asks for help. Of letters behind a single dash the first one counts. -/
def asksForHelp (argument : String) : Bool :=
  argument == "--help" ||
    match argument.toList with
    | '-' :: 'h' :: _ => true
    | _ => false

/-- The arguments of a task that takes a file or not, and certain flags. -/
def parseTask (takesFile : Bool) (flags : List String) :
    TaskArguments → List String → Parsed TaskArguments
  | t, [] => .ok t
  | t, argument :: rest =>
    if argument = "--" then parseFiles takesFile t rest
    else if asksForHelp argument then .help
    else
      let next :=
        if isOption argument then if argument ∈ flags then t.addFlag? argument else none
        else if takesFile then t.addFile? argument
        else none
      match next with
      | some t => parseTask takesFile flags t rest
      | none => .wrong

/-- Makes a task of a file, which has to be given. -/
def withFile (t : TaskArguments) (task : String → Task) : Parsed Task :=
  match t.file with
  | some file => .ok (task file)
  | none => .wrong

namespace Parsed

variable {α β : Type}

def bind (p : Parsed α) (f : α → Parsed β) : Parsed β :=
  match p with
  | ok a => f a
  | help => help
  | version => version
  | wrong => wrong

end Parsed

def taskNames : List String := ["initialize", "query", "mutation", "print-schema"]

/-- Help can be asked for with the name of a task. -/
def parseHelp : List String → Parsed Task
  | [] => .help
  | [name] => if name ∈ "help" :: taskNames then .help else .wrong
  | _ => .wrong

/-- A task with its arguments. -/
def parseNamed (name : String) (arguments : List String) : Parsed Task :=
  match name with
  | "initialize" => (parseTask false [] .none arguments).bind fun _ => .ok .setUp
  | "print-schema" => (parseTask false [] .none arguments).bind fun _ => .ok .printSchema
  | "query" => (parseTask true ["--count", "--pretty"] .none arguments).bind fun t =>
      withFile t fun file => .query file (t.hasFlag "--count") (t.hasFlag "--pretty")
  | "mutation" => (parseTask true ["--pretty"] .none arguments).bind fun t =>
      withFile t fun file => .mutation file (t.hasFlag "--pretty")
  | "help" => parseHelp arguments
  | _ => .wrong

/-- The value of an option behind an equals sign. -/
def attachedValue? (option argument : String) : Option String :=
  let start := (option ++ "=").toList
  if start.isPrefixOf argument.toList then some (String.ofList (argument.toList.drop start.length))
  else none

/-- Whether an argument asks for the version. -/
def asksForVersion (argument : String) : Bool :=
  argument == "--version" ||
    match argument.toList with
    | '-' :: 'V' :: _ => true
    | _ => false

/-- The directory of the configuration, if the arguments name one, and the task. The directory is
named at most once, and never empty. -/
def parseProgram (directory : Option String) : List String → Parsed (Option String × Task)
  | [] => .wrong
  | argument :: rest =>
    if asksForHelp argument then .help
    else if asksForVersion argument then .version
    else if argument = "--configuration" then
      match rest with
      | [] => .wrong
      | value :: rest =>
        if directory.isSome ∨ value.isEmpty ∨ isOption value then .wrong
        else parseProgram (some value) rest
    else
      match attachedValue? "--configuration" argument with
      | some value =>
        if directory.isSome ∨ value.isEmpty then .wrong else parseProgram (some value) rest
      | none => (parseNamed argument rest).bind fun task => .ok (directory, task)

/-- What the arguments ask for. A directory that they do not name is taken from the environment,
where it may not be empty; without one it is the current directory. -/
def parse (environment : Option String) (arguments : List String) : Option Asked :=
  match parseProgram none arguments with
  | .ok (some directory, task) => some (.invocation ⟨directory, task⟩)
  | .ok (none, task) =>
    match environment with
    | some "" => none
    | some directory => some (.invocation ⟨directory, task⟩)
    | none => some (.invocation ⟨".", task⟩)
  | .help => some .help
  | .version => some .version
  | .wrong => none

end ResourceSql.CommandLine
