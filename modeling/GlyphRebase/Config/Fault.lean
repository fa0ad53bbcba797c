import GlyphRebase.Config.Value

/-!
# Faults of configurations

Why no settings come out of the layers of a configuration.
-/

namespace GlyphRebase.Config

/-- Why a configuration gives no settings. -/
inductive Fault where
  /-- A key is no path. -/
  | badKey (key : String)
  /-- A file is missing. -/
  | notFound (path : String)
  /-- A file is no text. -/
  | notText
  /-- A file is no TOML document. -/
  | badDocument (file : String)
  /-- A setting is of another type than it should be. -/
  | badType (key found expected : String) (origin : Option String)
  /-- A section is neither a table nor a list. -/
  | noSection (found type : String)
  /-- A section that is a table lacks a setting. -/
  | missing (name : String)
  /-- A section that is a list lacks elements. -/
  | tooShort (length : Nat) (type : String) (fields : Nat)
  /-- There is no choice of this name. -/
  | unknownChoice (type name : String)
  /-- A choice is neither a text nor a table with one key. -/
  | noChoice (type : String)
  deriving DecidableEq, Repr

/-- The fault in words. -/
def Fault.message : Fault → String
  | badKey key => "failed to parse path " ++ key
  | notFound path => "configuration file \"" ++ path ++ "\" not found"
  | notText => "stream did not contain valid UTF-8"
  | badDocument _ => "TOML parse error"
  | badType key found expected origin =>
    "invalid type: " ++ found ++ ", expected " ++ expected ++ " for key `" ++ key ++ "`" ++
      (match origin with
        | some file => " in " ++ file
        | none => "")
  | noSection found type => "invalid type: " ++ found ++ ", expected struct " ++ type
  | missing name => "missing field `" ++ name ++ "`"
  | tooShort length type fields =>
    "invalid length " ++ toString length ++ ", expected struct " ++ type ++ " with " ++
      toString fields ++ " elements"
  | unknownChoice type name =>
    "enum " ++ type ++ " does not have variant constructor " ++ name
  | noChoice type =>
    "value of enum " ++ type ++
      " should be represented by either string or table with exactly one key"

end GlyphRebase.Config
