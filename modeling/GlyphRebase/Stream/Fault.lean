/-!
# Faults of streams and files

What a stream or a file reports when it cannot do what it is asked to: a kind, by which programs
tell faults apart, and a text for people.
-/

namespace GlyphRebase

/-- The kinds of faults. -/
inductive FaultKind where
  | notFound | permissionDenied | connectionRefused | connectionReset | hostUnreachable
  | networkUnreachable | connectionAborted | notConnected | addressInUse | addressNotAvailable
  | networkDown | brokenPipe | alreadyExists | wouldBlock | notADirectory | isADirectory
  | directoryNotEmpty | readOnlyFilesystem | filesystemLoop | staleFileHandle | invalidInput
  | invalidData | timedOut | writeZero | storageFull | notSeekable | quotaExceeded | fileTooLarge
  | resourceBusy | executableFileBusy | deadlock | crossesDevices | tooManyLinks
  | invalidFilename | argumentListTooLong | interrupted | unsupported | unexpectedEnd
  | outOfMemory | other
  deriving DecidableEq, Repr

/-- A fault: its kind, and its text. -/
structure StreamFault where
  kind : FaultKind
  text : String
  deriving DecidableEq, Repr

end GlyphRebase
