import GlyphRebase.Stream.Fault

/-!
# Faults of file trees

Why a path does not lead where it should.
-/

namespace GlyphRebase

/-- Why an operation on files fails. -/
inductive FileFault where
  /-- There is nothing at the path, or the path is empty. -/
  | noEntry
  /-- Something that the path goes through is no directory. -/
  | notDirectory
  /-- There is a directory where a file should be. -/
  | isDirectory
  /-- The path goes through too many links. -/
  | tooManyLinks
  /-- The path, or a name in it, is too long. -/
  | nameTooLong
  /-- The path ends in a name that stands for a directory as such. -/
  | busy
  /-- The path holds a character that no name has. -/
  | zeroCharacter
  /-- The path cannot be renamed to. -/
  | invalidArgument
  /-- No name is free for a further file. -/
  | noFreeName
  deriving DecidableEq, Repr

/-- The fault as a stream reports it. -/
def FileFault.toStreamFault : FileFault → StreamFault
  | noEntry => ⟨.notFound, "No such file or directory (os error 2)"⟩
  | notDirectory => ⟨.notADirectory, "Not a directory (os error 20)"⟩
  | isDirectory => ⟨.isADirectory, "Is a directory (os error 21)"⟩
  | tooManyLinks => ⟨.filesystemLoop, "Too many levels of symbolic links (os error 40)"⟩
  | nameTooLong => ⟨.invalidFilename, "File name too long (os error 36)"⟩
  | busy => ⟨.resourceBusy, "Device or resource busy (os error 16)"⟩
  | zeroCharacter => ⟨.invalidInput, "file name contained an unexpected NUL byte"⟩
  | invalidArgument => ⟨.invalidInput, "Invalid argument (os error 22)"⟩
  | noFreeName => ⟨.alreadyExists, "too many temporary files exist"⟩

end GlyphRebase
