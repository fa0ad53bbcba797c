/-!
# Texts of the command line

What is printed when the usage or the version is asked for.
-/

namespace GlyphRebase.CommandLine

/-- The name of the program. -/
def program : String := "keyfont"

/-- The name and the version of the program. -/
def versionText : String := program ++ " 0.1.0\n"

/-- The lines that explain the program. -/
def helpLines : List String :=
  ["Rebase a keyfont glyph table into 16-bit code points",
   "",
   "Usage: keyfont [OPTIONS] [input] [output]",
   "",
   "Arguments:",
   "  [input]   Glyph table to read (default: input.txt)",
   "  [output]  File to write the rebased table to (default: output.txt)",
   "",
   "Options:",
   "  -c, --config <config>                TOML configuration file layered over the defaults",
   "      --offset <offset>                Subtracted from every entry except the special index (e.g. 0xBFB0)",
   "      --special-index <special-index>  Entry written unchanged (e.g. 512)",
   "      --wrap-boundary <wrap-boundary>  Overflow threshold and wrap amount (e.g. 0x10000)",
   "      --reject-negative                Fail instead of writing negative indices",
   "      --atomic                         Only replace the output file once the whole table was written",
   "  -q, --quiet                          Do not print the line counter",
   "      --summary <summary>              Final report format [possible values: text, json]",
   "  -h, --help                           Print help",
   "  -V, --version                        Print version"]

/-- The usage of the program. -/
def helpText : String := String.join (helpLines.map (· ++ "\n"))

end GlyphRebase.CommandLine
