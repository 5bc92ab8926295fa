import RootFinder.CommandLine

/-! The program: the command line on the standard streams. -/

namespace RootFinder

/-- The standard streams; each line of output is sent off at once, so that a failure is seen. -/
def standardConsole : Console IO where
  output text := do
    let out ← IO.getStdout
    try
      out.putStrLn text
      out.flush
      pure (.ok ())
    catch e => pure (.error (toString e))
  errors text := IO.eprintln text

end RootFinder

def main (arguments : List String) : IO UInt32 :=
  RootFinder.CommandLine.run RootFinder.standardConsole arguments
