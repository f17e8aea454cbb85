/-
The program behind the command line: it reads a configuration and a request, and
prints the commands that the request is compiled to.
-/
import ResourceSql.CommandLine.Arguments
import ResourceSql.CommandLine.FileTree
import ResourceSql.Compile.Mutation
import ResourceSql.Compile.Query
import ResourceSql.Configuration.Schema
import ResourceSql.Request.Document

namespace ResourceSql.CommandLine

/-- Why the program did not do its task. -/
inductive Failure where
  | unreadableConfiguration (file cause : String)
  | refusedConfiguration (file : String) (error : ConfigurationError)
  | inconsistentMetadata (what : Inconsistency)
  | unwritableConfiguration (cause : String)
  | unreadableRequest (file cause : String)
  | refusedRequest (file : String) (fault : Fault)
  | request (error : RequestError)
  deriving DecidableEq

namespace Failure

def message : Failure → String
  | unreadableConfiguration file cause => "I/O error: " ++ file ++ ": " ++ cause
  | refusedConfiguration file error => error.message file
  | inconsistentMetadata what => what.message
  | unwritableConfiguration cause => "I/O error: " ++ cause ++ ": " ++ cause
  | unreadableRequest file cause => "reading " ++ file ++ ": " ++ cause
  | refusedRequest file fault =>
    "parsing " ++ file ++ ": line " ++ String.ofList (Digits.ofNat fault.place.line)
  | request error => error.message

end Failure

/-- The path of a file in a directory. The empty path is that of the directory in which the program
runs, and no slash comes behind it. -/
def pathIn (directory file : String) : String :=
  if directory.isEmpty || directory.endsWith "/" then directory ++ file
  else directory ++ "/" ++ file

def configurationFile (directory : String) : String := pathIn directory "configuration.json"

def schemaFile (directory : String) : String := pathIn directory "schema.json"

section Tasks

variable {m : Type → Type} [Monad m]

/-- The outcome of an access to files, with the failure that its message is the cause of. -/
def attempt {α : Type} (access : m (Except String α)) (failure : String → Failure) :
    ExceptT Failure m α := do
  match ← (access : m _) with
  | .ok a => return a
  | .error cause => throw (failure cause)

/-- The configuration in a directory, which has to be consistent. -/
def loadConfiguration (files : FileAccess m) (directory : String) : ExceptT Failure m Context := do
  let file := configurationFile directory
  let text ← attempt (files.read file) (.unreadableConfiguration file)
  match Configuration.ofText text with
  | .error error => throw (.refusedConfiguration file error)
  | .ok configuration =>
    match configuration.metadata.check with
    | .error what => throw (.inconsistentMetadata what)
    | .ok () => return ⟨configuration.metadata, configuration.dialect⟩

def readRequest {α : Type} (files : FileAccess m) (decode : Decoder α) (file : String) :
    ExceptT Failure m α := do
  let text ← attempt (files.read file) (.unreadableRequest file)
  match decode.ofText text with
  | .ok request => return request
  | .fault fault => throw (.refusedRequest file fault)

def orFailure {α : Type} : Except RequestError α → ExceptT Failure m α
  | .ok a => return a
  | .error e => throw (.request e)

/-- Writes a configuration and the schema of configurations into a directory. -/
def writeConfiguration (files : FileAccess m) (directory : String) (c : Configuration) :
    ExceptT Failure m Unit := do
  attempt (files.makeDirectory directory) .unwritableConfiguration
  attempt (files.write (configurationFile directory) c.toText) .unwritableConfiguration
  attempt (files.write (schemaFile directory) Schema.text) .unwritableConfiguration

end Tasks

/-- A command as JSON. -/
def commandToJson (c : Sql.Command) : Json :=
  .object [
    ("statement", .string c.statement),
    ("parameters", .object (c.parameters.map fun (name, value) => (name, value.toJson)))]

/-- A command for people: the statement, and its parameters on a line of their own. -/
def commandForPeople (c : Sql.Command) : String :=
  c.statement ++ "\n" ++
    if c.parameters.isEmpty then "" else "-- " ++ c.parameters.display ++ "\n"

/-- Commands as they are printed. -/
def commandsText (pretty : Bool) (commands : List Sql.Command) : String :=
  if pretty then String.join (commands.map commandForPeople)
  else (Json.array (commands.map commandToJson)).toPrettyText ++ "\n"

/-- Does a task, and returns what is printed. -/
def run {m : Type → Type} [Monad m] (files : FileAccess m) (i : Invocation) :
    ExceptT Failure m String :=
  match i.task with
  | .setUp => do
    writeConfiguration files i.configuration .empty
    return ""
  | .query file count pretty => do
    let context ← loadConfiguration files i.configuration
    let query ← readRequest files Request.Query.decode file
    let command ← orFailure (if count then query.countCommand context else query.command context)
    return commandsText pretty [command]
  | .mutation file pretty => do
    let context ← loadConfiguration files i.configuration
    let mutation ← readRequest files Request.Mutation.decode file
    let commands ← orFailure (mutation.commands context)
    return commandsText pretty commands
  | .printSchema => return Schema.text

/-- What the program leaves behind: its exit code, what it printed, and why it failed, if it
did. -/
structure Outcome where
  exitCode : Nat
  output : String
  failure : Option Failure
  deriving DecidableEq

def usage : String :=
  "Usage: query-engine [--configuration DIRECTORY] TASK\n\n" ++
  "Tasks:\n" ++
  "  initialize                        write an empty configuration and its JSON schema\n" ++
  "  query FILE [--count] [--pretty]   compile the query in a JSON file\n" ++
  "  mutation FILE [--pretty]          compile the mutation in a JSON file\n" ++
  "  print-schema                      print the JSON schema of the configuration file\n"

def versionText : String := "query-engine-cli 0.1.0\n"

/-- The whole program. Wrong arguments make it exit with 2, and a failure with 1. -/
def program {m : Type → Type} [Monad m] (files : FileAccess m) (environment : Option String)
    (arguments : List String) : m Outcome :=
  match parse environment arguments with
  | none => return ⟨2, "", none⟩
  | some .help => return ⟨0, usage, none⟩
  | some .version => return ⟨0, versionText, none⟩
  | some (.invocation i) => do
    match ← (run files i).run with
    | .ok output => return ⟨0, output, none⟩
    | .error failure => return ⟨1, "", some failure⟩

end ResourceSql.CommandLine
