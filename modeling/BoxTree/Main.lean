import BoxTree.CommandLine

namespace BoxTree

/-!
# The program

* `Environment.read` — the environment of this process.
* `main` — runs the command line and prints what it says.
-/

/-- The environment of this process, as far as it matters. -/
def Environment.read : IO Environment := do
  let entries ← (consulted ++ BuildService.consulted).filterMapM fun name => do
    return (← IO.getEnv name).map fun value => (name, value)
  let mut terminals := []
  if ← (← IO.getStdout).isTty then terminals := .standardOutput :: terminals
  if ← (← IO.getStderr).isTty then terminals := .standardError :: terminals
  return { entries, terminals, namesBuildService := BuildService.isNamed }

end BoxTree

/-- Runs the command line. -/
def main (arguments : List String) : IO UInt32 := do
  let ending := BoxTree.runCommandLine (← BoxTree.Environment.read) arguments
  IO.print ending.output
  for line in ending.log do
    IO.eprintln line
  return ending.exitCode.toUInt32
