import RemoteTable.Cli.Command

/-!
# The program

Reads the arguments, reads the file that the command needs, runs the command and prints what it wrote. Exit
code 1 means an error, 2 that the arguments were at fault.
-/

namespace RemoteTable.Cli

def fileContents (path : String) : IO (Except String Bytes) := do
  try
    return .ok (← IO.FS.readBinFile path).toList
  catch e => return .error (toString e)

/-- Tokens that differ from run to run. -/
def randomSupply : IO Supply := do
  let seed ← IO.getRandomBytes 8
  let high := Bytes.toNat seed.toList
  return .fresh fun n => ⟨BitVec.ofNat 64 high ++ BitVec.ofNat 64 n⟩

def usage : String :=
  "\n".intercalate [
    "Usage: remote-table <command>",
    "",
    "Commands:",
    "  encode-error --kind <kind> --message <text>",
    "  decode-error [--policy <policy>] [--message <text>]",
    "  chunk [--size <bytes>] --bytes <bytes>",
    "  demo [--config <path>]"]

end RemoteTable.Cli

open RemoteTable RemoteTable.Cli

def main (args : List String) : IO UInt32 := do
  match Command.read args with
  | .error u =>
    if u = .shown then IO.println usage else IO.eprintln usage
    return u.exitCode.toUInt32
  | .ok command =>
    let contents ← match command.file? with
      | some path => fileContents path
      | none => pure (.ok [])
    let run := command.run (fun _ => contents) (← randomSupply)
    IO.print (Written.text run.written.out)
    IO.eprint (Written.text run.written.err)
    match run.error with
    | none => return 0
    | some e =>
      IO.eprintln e.display
      return 1
