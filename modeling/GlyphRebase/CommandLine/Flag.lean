/-!
# Flags

The flags of the command line. An option has a value; a switch has none. The last two switches do
not start a run, but ask for a text.
-/

namespace GlyphRebase.CommandLine

/-- A flag with a value. -/
inductive ValueFlag where
  /-- A configuration file. -/
  | config
  /-- The offset. -/
  | offset
  /-- The special index. -/
  | specialIndex
  /-- The boundary. -/
  | wrapBoundary
  /-- The form of the final report. -/
  | summary
  deriving DecidableEq, Repr

/-- A flag without a value. -/
inductive Switch where
  /-- Negative indices end the run. -/
  | rejectNegative
  /-- The output changes only at the end. -/
  | atomic
  /-- Lines are not announced. -/
  | quiet
  /-- The usage is printed. -/
  | help
  /-- The version is printed. -/
  | version
  deriving DecidableEq, Repr

/-- A flag of either kind. -/
inductive Flag where
  | value (f : ValueFlag)
  | switch (s : Switch)
  deriving DecidableEq, Repr

/-- The long name of a flag with a value. -/
def ValueFlag.name : ValueFlag → String
  | config => "config"
  | offset => "offset"
  | specialIndex => "special-index"
  | wrapBoundary => "wrap-boundary"
  | summary => "summary"

/-- Is the value of the flag a number? -/
def ValueFlag.isNumeric : ValueFlag → Bool
  | offset | specialIndex | wrapBoundary => true
  | config | summary => false

/-- The long name of a switch. -/
def Switch.name : Switch → String
  | rejectNegative => "reject-negative"
  | atomic => "atomic"
  | quiet => "quiet"
  | help => "help"
  | version => "version"

namespace Flag

/-- The flag in messages. A flag with a value is shown with a name for that. -/
def display : Flag → String
  | .value f => "--" ++ f.name ++ " <" ++ f.name ++ ">"
  | .switch s => "--" ++ s.name

/-- All flags. -/
def all : List Flag :=
  [.value .config, .value .offset, .value .specialIndex, .value .wrapBoundary,
   .switch .rejectNegative, .switch .atomic, .switch .quiet, .value .summary, .switch .help,
   .switch .version]

/-- The long name of the flag. -/
def name : Flag → String
  | .value f => f.name
  | .switch s => s.name

/-- The flag of a long name. -/
def ofName? (name : String) : Option Flag := all.find? (·.name == name)

/-- The flag of a letter. -/
def ofLetter? : Char → Option Flag
  | 'c' => some (.value .config)
  | 'q' => some (.switch .quiet)
  | 'h' => some (.switch .help)
  | 'V' => some (.switch .version)
  | _ => none

end Flag

end GlyphRebase.CommandLine
