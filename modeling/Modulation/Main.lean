import Modulation.Command.Basic

set_option autoImplicit false

/-! # The command line

Files are those of the file system, and random numbers start from a seed that the system gives. -/

namespace Modulation

instance : Storage IO where
  read? path := do
    try
      return some (← IO.FS.readFile path)
    catch _ =>
      return none
  write? path content := do
    try
      let folder := folderPath path
      if folder ≠ "" then IO.FS.createDirAll folder
      IO.FS.writeFile path content
      return true
    catch _ =>
      return false

/-- A seed that the system gives. -/
def systemSeed : IO UInt64 := do
  let bytes ← IO.getRandomBytes 8
  return bytes.toList.foldl (fun seed byte => seed * 256 + byte.toUInt64) 0

end Modulation

/-- Carries out the command line. -/
def main (arguments : List String) : IO UInt32 := do
  let source := Modulation.SeededSource.ofSeed (← Modulation.systemSeed)
  let outcome ← Modulation.Command.execute source arguments
  IO.eprint outcome.errors
  IO.print outcome.output
  return UInt32.ofNat outcome.exitCode
