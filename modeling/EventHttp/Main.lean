import EventHttp.CommandLine

/-! The command line: shows what a run shows and ends with its exit code.  A run
that serves goes on until its input ends. -/

def main (args : List String) : IO UInt32 := do
  let run := EventHttp.Transcript.ofArgs .unrestricted 1 args
  (← IO.getStdout).putStr run.out
  (← IO.getStderr).putStr run.err
  if run.served then
    let input ← IO.getStdin
    repeat
      if (← input.getLine).isEmpty then break
  return .ofNat run.code
