import GlyphRebase.CommandLine.Help
import GlyphRebase.CommandLine.Options
import GlyphRebase.FilePass
import GlyphRebase.Json.Text

/-!
# The command line

One run of the program on a file tree: the arguments are read, the configuration is loaded, and the
pass is made. While it runs the number of each line is printed, if progress is asked for, and at its
end the final report. The exit code is 0, or 2 if the arguments are wrong, or 1 if anything else
is.
-/

namespace GlyphRebase.CommandLine

/-- What a run of the program leaves behind. -/
structure Outcome where
  exitCode : Nat
  /-- What was printed. -/
  output : String
  /-- What was printed as an error. -/
  complaint : String
  /-- The files afterwards. -/
  tree : FileTree

/-- The final report. -/
def summaryText (format : Config.SummaryFormat) (s : Summary) : String :=
  match format, s.state.firstOverflow? with
  | .text, some code => "first u16 overflow at " ++ code ++ "\n"
  | .text, none => ""
  | .json, overflow? =>
    Json.render (.object [
      ("lines", .integer s.lines),
      ("matched", .integer s.matched),
      ("overflow", .boolean s.state.overflowed),
      ("overflow_hex", (overflow?.map Json.text).getD .null)]) ++ "\n"

/-- What is printed during a pass. -/
def passText (s : Config.Settings) (r : FileReport) : String :=
  let counts := if s.progress then r.steps.map fun step => toString step.count ++ "\n" else []
  String.join counts ++ (r.finished?.map (summaryText s.summary)).getD ""

/-- The outcome of a run that did nothing but complain. -/
def refused (t : FileTree) (exitCode : Nat) (complaint : String) : Outcome :=
  ⟨exitCode, "", complaint ++ "\n", t⟩

/-- The error of a run. -/
def errorText (message : String) : String := program ++ ": " ++ message

/-- The run that the options ask for. -/
def runOptions (t : FileTree) (o : Options) : Outcome :=
  match Config.load t o.layers with
  | .error fault => refused t 1 (errorText fault.message)
  | .ok s =>
    let r := FilePass.run s.rules s.atomic s.input s.output t
    match r.result with
    | .ok _ => ⟨0, passText s r, "", r.tree⟩
    | .error e => ⟨1, passText s r, errorText e.message ++ "\n", r.tree⟩

/-- A run of the program with its arguments. -/
def run (t : FileTree) (arguments : List String) : Outcome :=
  match Options.read arguments with
  | .ok o => runOptions t o
  | .error .help => ⟨0, helpText, "", t⟩
  | .error .version => ⟨0, versionText, "", t⟩
  | .error (.usage e) => refused t 2 ("error: " ++ e.message)

end GlyphRebase.CommandLine
