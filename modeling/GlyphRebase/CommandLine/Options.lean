import GlyphRebase.CommandLine.Flag
import GlyphRebase.Config.Settings
import GlyphRebase.Number.Literal

/-!
# Options

What the command line asks for. `Options.read` goes through the arguments once, from left to right.

A flag takes the argument after it as its value, unless the value is attached to it. Such a value is
looked at only when the next flag or the next file name comes, or at the end; so a fault in what
comes next may be found before a fault in the value. An argument that starts with a hyphen is a
flag, but for a lone hyphen, and for a negative number where a number is awaited. After `--` there
are no more flags.
-/

namespace GlyphRebase.CommandLine

/-- What is wrong with the arguments. -/
inductive UsageError where
  /-- There is no such flag, or there are too many file names. -/
  | unexpectedArgument (argument : String)
  /-- A switch has a value. -/
  | unexpectedValue (flag : Flag) (value : String)
  /-- A flag has no value. -/
  | missingValue (flag : ValueFlag)
  /-- A flag is given twice. -/
  | repeated (flag : Flag)
  /-- The value of a flag is no number. -/
  | notNumber (flag : ValueFlag) (value : String) (fault : Number.Fault)
  /-- The value of a flag is none of the words that it may be. -/
  | notPossible (flag : ValueFlag) (value : String)
  deriving DecidableEq, Repr

/-- The error in words. -/
def UsageError.message : UsageError → String
  | unexpectedArgument argument => "unexpected argument '" ++ argument ++ "' found"
  | unexpectedValue flag value =>
    "unexpected value '" ++ value ++ "' for '" ++ flag.display ++
      "' found; no more were expected"
  | missingValue flag =>
    "a value is required for '" ++ (Flag.value flag).display ++ "' but none was supplied"
  | repeated flag => "the argument '" ++ flag.display ++ "' cannot be used multiple times"
  | notNumber flag value fault =>
    "invalid value '" ++ value ++ "' for '" ++ (Flag.value flag).display ++ "': '" ++ value ++
      "' is not a number: " ++ fault.message
  | notPossible flag value =>
    "invalid value '" ++ value ++ "' for '" ++ (Flag.value flag).display ++ "'"

/-- Why there is no run. -/
inductive Stop where
  /-- The arguments are wrong. -/
  | usage (e : UsageError)
  /-- The usage is asked for. -/
  | help
  /-- The version is asked for. -/
  | version
  deriving DecidableEq, Repr

/-- What is asked for. -/
structure Options where
  /-- The glyph table to read. -/
  input : Option String := none
  /-- The file to write. -/
  output : Option String := none
  /-- The configuration file. -/
  config : Option String := none
  offset : Option Int64 := none
  specialIndex : Option Int64 := none
  wrapBoundary : Option Int64 := none
  rejectNegative : Bool := false
  atomic : Bool := false
  quiet : Bool := false
  summary : Option Config.SummaryFormat := none
  deriving DecidableEq, Repr

namespace Options

/-- Is the flag given already? -/
def has (o : Options) : Flag → Bool
  | .value .config => o.config.isSome
  | .value .offset => o.offset.isSome
  | .value .specialIndex => o.specialIndex.isSome
  | .value .wrapBoundary => o.wrapBoundary.isSome
  | .value .summary => o.summary.isSome
  | .switch .rejectNegative => o.rejectNegative
  | .switch .atomic => o.atomic
  | .switch .quiet => o.quiet
  | .switch .help | .switch .version => false

/-- The number that the value of a flag stands for. -/
def number (flag : ValueFlag) (value : String) : Except Stop Int64 :=
  (Number.readLiteral value).mapError fun fault => .usage (.notNumber flag value fault)

/-- The form of the report that the value of a flag names. -/
def summaryFormat (value : String) : Except Stop Config.SummaryFormat :=
  if value = "text" then .ok .text
  else if value = "json" then .ok .json
  else if value.isEmpty then .error (.usage (.missingValue .summary))
  else .error (.usage (.notPossible .summary value))

/-- The options with a flag and its value. -/
def give (o : Options) (flag : ValueFlag) (value : String) : Except Stop Options :=
  if o.has (.value flag) then .error (.usage (.repeated (.value flag)))
  else
    match flag with
    | .config => .ok { o with config := some value }
    | .offset => return { o with offset := some (← number flag value) }
    | .specialIndex => return { o with specialIndex := some (← number flag value) }
    | .wrapBoundary => return { o with wrapBoundary := some (← number flag value) }
    | .summary => return { o with summary := some (← summaryFormat value) }

/-- The options with a switch. -/
def turn (o : Options) (s : Switch) : Except Stop Options :=
  if o.has (.switch s) then .error (.usage (.repeated (.switch s)))
  else
    match s with
    | .rejectNegative => .ok { o with rejectNegative := true }
    | .atomic => .ok { o with atomic := true }
    | .quiet => .ok { o with quiet := true }
    | .help => .error .help
    | .version => .error .version

end Options

/-! ### Reading arguments -/

/-- How far the arguments are read. -/
structure Reading where
  options : Options
  /-- A flag whose value is not looked at yet, or is still awaited. -/
  pending : Option (ValueFlag × Option String) := none

namespace Reading

/-- The options once the pending value is looked at. -/
def settle (r : Reading) : Except Stop Options :=
  match r.pending with
  | none => .ok r.options
  | some (flag, none) => .error (.usage (.missingValue flag))
  | some (flag, some value) => r.options.give flag value

/-- The flag that awaits its value. -/
def awaiting? (r : Reading) : Option ValueFlag :=
  match r.pending with
  | some (flag, none) => some flag
  | _ => none

/-- After a flag, with the value that is attached to it. -/
def takeFlag (r : Reading) (flag : Flag) (attached : Option String) : Except Stop Reading :=
  match flag, attached with
  | .value f, some value => do return ⟨← (← r.settle).give f value, none⟩
  | .value f, none => do return ⟨← r.settle, some (f, none)⟩
  | .switch _, some value => .error (.usage (.unexpectedValue flag value))
  | .switch s, none => do return ⟨← (← r.settle).turn s, none⟩

/-- After letters of which each may be a flag. What follows a flag with a value is the value. -/
def takeLetters (r : Reading) : List Char → Except Stop Reading
  | [] => .ok r
  | c :: cs =>
    match Flag.ofLetter? c with
    | none => .error (.usage (.unexpectedArgument (String.ofList ['-', c])))
    | some (.switch s) => do takeLetters (← r.takeFlag (.switch s) none) cs
    | some (.value f) =>
      r.takeFlag (.value f) <|
        match cs with
        | [] => none
        | '=' :: value => some (String.ofList value)
        | value => some (String.ofList value)

/-- After a file name: the first is the input, the second the output. -/
def takeName (r : Reading) (name : String) : Except Stop Reading :=
  if r.options.output.isSome then .error (.usage (.unexpectedArgument name))
  else do
    let o ← r.settle
    if o.input.isNone then return ⟨{ o with input := some name }, none⟩
    else return ⟨{ o with output := some name }, none⟩

/-- After an argument that is no flag. -/
def takePlain (r : Reading) (argument : String) : Except Stop Reading :=
  match r.awaiting? with
  | some flag => .ok { r with pending := some (flag, some argument) }
  | none => r.takeName argument

/-- After an argument with two hyphens in front. -/
def takeLong (r : Reading) (cs : List Char) : Except Stop Reading :=
  let name := String.ofList (cs.takeWhile (· ≠ '='))
  let attached := match cs.dropWhile (· ≠ '=') with
    | [] => none
    | _ :: value => some (String.ofList value)
  match Flag.ofName? name with
  | none => .error (.usage (.unexpectedArgument ("--" ++ name)))
  | some flag => r.takeFlag flag attached

/-- Do the characters after a hyphen make a negative number? A point stands behind a digit, and an
exponent is an `e` between digits and at most one point. -/
def isNumber (cs : List Char) : Bool :=
  let isDigit (c : Char) : Bool := '0' ≤ c && c ≤ '9'
  let mantissa := cs.takeWhile (· ≠ 'e')
  let point := mantissa.filter (!isDigit ·)
  (point.isEmpty || point == ['.'] && mantissa.head? != some '.') &&
    match cs.dropWhile (· ≠ 'e') with
    | [] => true
    | _ :: power => !mantissa.isEmpty && !power.isEmpty && power.all isDigit

/-- After an argument with one hyphen in front. -/
def takeShort (r : Reading) (argument : String) (cs : List Char) : Except Stop Reading :=
  match r.awaiting? with
  | some flag =>
    if flag.isNumeric && isNumber cs then r.takePlain argument else r.takeLetters cs
  | none => r.takeLetters cs

/-- After an argument. -/
def take (r : Reading) (argument : String) : Except Stop Reading :=
  match argument.toList with
  | '-' :: '-' :: cs => r.takeLong cs
  | '-' :: c :: cs => r.takeShort argument (c :: cs)
  | _ => r.takePlain argument

/-- After all arguments. -/
def takeAll (r : Reading) : List String → Except Stop Reading
  | [] => .ok r
  | "--" :: names => names.foldlM takeName r
  | argument :: rest => do takeAll (← r.take argument) rest

end Reading

/-- What the arguments ask for. -/
def Options.read (arguments : List String) : Except Stop Options := do
  (← Reading.takeAll ⟨{}, none⟩ arguments).settle

/-- The layers of the configuration that the options make. -/
def Options.layers (o : Options) : List Config.Layer :=
  let text (key : String) (s : Option String) : List Config.Layer :=
    s.toList.map fun s => .setting key (.text s)
  let number (key : String) (n : Option Int64) : List Config.Layer :=
    n.toList.map fun n => .setting key (.integer n)
  let choice (given : Bool) (key : String) (value : Config.Scalar) : List Config.Layer :=
    if given then [.setting key value] else []
  [.localFile "."] ++ o.config.toList.map .file ++
    text "io.input_path" o.input ++ text "io.output_path" o.output ++
    number "remap.offset" o.offset ++ number "remap.special_index" o.specialIndex ++
    number "remap.wrap_boundary" o.wrapBoundary ++
    choice o.rejectNegative "remap.negative_index" (.text "reject") ++
    choice o.atomic "io.atomic_output" (.boolean true) ++
    choice o.quiet "report.progress" (.boolean false) ++
    text "report.summary" (o.summary.map (·.name))

end GlyphRebase.CommandLine
