import ThreeAddress.CommandLine.Options
import ThreeAddress.Code.Listing
import ThreeAddress.Compile
import ThreeAddress.Files.Host
import ThreeAddress.Text.Blank

namespace ThreeAddress.CommandLine

open ThreeAddress.Files

structure Outcome where
  exitCode : Nat := 0
  output : String := ""
  errors : String := ""
deriving DecidableEq

def versionText : String := "tacc 0.1.0\n"

def usageText : String :=
  "Compiles a block-structured source program into three-address code.\n\n" ++
  "Usage: tacc [OPTIONS]\n\n" ++
  "Options:\n" ++
  "  -i, --input <INPUT>    source file, or '-' for standard input\n" ++
  "  -o, --output <OUTPUT>  write the code here instead of standard output\n" ++
  "  -h, --help             print this text\n" ++
  "  -V, --version          print the version\n"

variable {m : Type → Type} [Monad m]

/-- Reads the named file, or the standard input under the name of a dash. -/
def readSource (host : Host m) (input : String) : m (Except String String) :=
  if input = "-" then host.readInput else host.readFile input

def deliver (host : Host m) (output? : Option String) (listing : String) :
    m (Except CompileError Outcome) := do
  match output? with
  | none => return .ok { output := listing }
  | some path =>
      match ← host.writeFile path listing with
      | .ok () => return .ok {}
      | .error reason => return .error (.inaccessible path reason)

def compileInput (host : Host m) (input : String) (output? : Option String) : m Outcome := do
  match ← readSource host input with
  | .error reason =>
      return { exitCode := 1, errors := "could not read '" ++ input ++ "': " ++ reason ++ "\n" }
  | .ok text =>
      let source := Text.trimEnd text
      let failed (error : CompileError) : Outcome :=
        { exitCode := 1, errors := error.report input source ++ "\n" }
      match compile input source with
      | .error error => return failed error
      | .ok code =>
          match ← deliver host output? (Listing.render code) with
          | .ok outcome => return outcome
          | .error error => return failed error

def run (host : Host m) (words : List String) : m Outcome :=
  match Request.ofWords words with
  | .error error => return { exitCode := 2, errors := "error: " ++ error.message ++ "\n" }
  | .ok .version => return { output := versionText }
  | .ok .help => return { output := usageText }
  | .ok (.compile input output?) => compileInput host input output?

/-- Compiles a file, with its whole text and its path as the file name. -/
def compileFile (host : Host m) (path : String) : m (Except CompileError (List Instr)) := do
  match ← host.readFile path with
  | .error reason => return .error (.inaccessible path reason)
  | .ok source => return compile path source

end ThreeAddress.CommandLine
