import CallScript.CommandLine

/-!
# The program

Reads the script from the file that the command line names or from standard input, hands it to
`CommandLine.run`, and prints what comes out of that.
-/

namespace CallScript

/-- The text of a script whose bytes were read. -/
def decodeSource (bytes : ByteArray) : Except SourceError String :=
  match String.fromUTF8? bytes with
  | some source => .ok source
  | none => .error .notText

/-- The cause of a failed reading. -/
def SourceError.ofSystem : IO.Error → SourceError
  | .noFileOrDirectory .. => .notFound
  | .inappropriateType .. => .isDirectory
  | e => .other (toString e)

/-- Reads a script from a file, or from standard input. -/
def readSource (file : Option String) : IO (Except SourceError String) :=
  try
    let bytes ←
      match file with
      | some path => IO.FS.readBinFile path
      | none => (← IO.getStdin).readBinToEnd
    pure (decodeSource bytes)
  catch e => pure (.error (.ofSystem e))

end CallScript

/-- Runs the program and exits with its status. -/
def main (arguments : List String) : IO UInt32 := do
  let seed ← IO.monoNanosNow
  let outcome ← CallScript.CommandLine.run CallScript.readSource seed arguments
  IO.print outcome.output
  match outcome.report with
  | some report => IO.eprintln report
  | none => pure ()
  pure outcome.status.toUInt32
