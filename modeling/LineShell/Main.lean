import LineShell.Machine
import LineShell.Session

/-!
The shell as a program. It runs on a machine in memory whose files are the ones named on the command
line and by the config variable, and copies its output to the streams of the process.
-/

namespace LineShell

def Machine.importFile (m : Machine) (path : String) : IO Machine := do
  try
    let bytes ← IO.FS.readBinFile path
    return m.install ((Path.ofString path).filter (· ≠ "")) (.file ⟨.data bytes, .plain⟩)
  catch _ => return m

def Machine.fresh (home : String) : Machine where
  tree := .empty
  dir := .root
  transcript := []
  limit := ⟨none, false⟩
  hostName := "localhost"
  home := home

def processVariables : IO (List (String × String)) := do
  let names := ["HOME", "PATH", "USER", Shell.configVariable]
  names.filterMapM fun name => do return (← IO.getEnv name).map fun value => (name, value)

partial def readAll (stream : IO.FS.Stream) (sofar : ByteArray) : IO ByteArray := do
  let chunk ← stream.read 65536
  if chunk.isEmpty then return sofar else readAll stream (sofar ++ chunk)

def playTranscript (m : Machine) : IO Unit := do
  let out ← IO.getStdout
  let failures ← IO.getStderr
  for (stream, bytes) in m.transcript do
    match stream with
    | .output => out.write bytes
    | .failures => failures.write bytes

end LineShell

open LineShell in
def main (args : List String) : IO UInt32 := do
  let vars ← processVariables
  let named := args ++ (vars.lookup Shell.configVariable).toList
  let machine ← named.foldlM Machine.importFile (Machine.fresh "/")
  let bytes ← if args.isEmpty then readAll (← IO.getStdin) .empty else pure .empty
  let launch : Launch := ⟨"snash", args, vars⟩
  let (status, machine, _) := Shell.invoke Machine.host launch (.bytes bytes) machine
  playTranscript machine
  return UInt32.ofNat (Shell.exitByte status)
