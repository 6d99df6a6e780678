import TextScore.Command.Run

/-!
# Main — the program on real files
-/

namespace TextScore.Command

/-- The system's number of a fault, which some calls report with its sign changed. -/
def systemNumber (code : UInt32) : UInt32 :=
  if 0x80000000 ≤ code then 0 - code else code

def faultOf : IO.Error → FileFault
  | .inappropriateType _ code _ => if systemNumber code = 20 then .notADirectory else .isDirectory
  | .invalidArgument _ code _ => if systemNumber code = 36 then .nameTooLong else .notFound
  | _ => .notFound

instance : Files IO where
  read path := do
    try
      let bytes ← IO.FS.readBinFile path
      match String.fromUTF8? bytes with
      | some text => return .ok text
      | none => return .error .notUtf8
    catch e => return .error (faultOf e)
  write path content := do
    try
      IO.FS.writeFile path content
      return .ok ()
    catch e => return .error (faultOf e)

end TextScore.Command

open TextScore.Command in
/-- Prints the remarks that were asked for, then what the command has to say. -/
def main (args : List String) : IO UInt32 := do
  let outcome : Outcome ← run args
  let out ← IO.getStdout
  let err ← IO.getStderr
  for remark in outcome.journal do
    err.putStrLn s!"[{remark.level.name}] {remark.text}"
  err.putStr outcome.stderr
  out.putStr outcome.stdout
  return UInt32.ofNat outcome.exitCode
