import KeyedIR.CommandLine.Run
/-! # The program

Runs the command line on the files of the system. Colours are on if standard output is a terminal,
unless the environment says otherwise.
-/

namespace KeyedIR

set_option autoImplicit false

/-- The number of an error, which some system calls give with the sign changed. -/
def errorNumber (code : UInt32) : UInt32 := if code < 0x80000000 then code else 0 - code

def FileError.ofSystem (e : IO.Error) : FileError :=
  match e with
  | .noFileOrDirectory .. => .notFound
  | .inappropriateType _ code _ =>
    if errorNumber code = 20 then .notDirectory
    else if errorNumber code = 21 then .isDirectory
    else .other e.toString
  | .invalidArgument _ code _ =>
    if errorNumber code = 36 then .nameTooLong
    else if errorNumber code = 22 then .nameEnds
    else .other e.toString
  | _ => .other e.toString

instance : FileStore IO where
  readBytes name := do
    match ← (IO.FS.readBinFile name).toBaseIO with
    | .ok bytes => return .ok bytes
    | .error e => return .error (.ofSystem e)
  writeBytes name bytes := do
    match ← (IO.FS.writeBinFile name bytes).toBaseIO with
    | .ok () => return .ok ()
    | .error e => return .error (.ofSystem e)

def wantsColors : IO Bool := do
  if (← IO.getEnv "CLICOLOR_FORCE").any (· != "0") then return true
  if (← IO.getEnv "NO_COLOR").isSome then return false
  if (← IO.getEnv "CLICOLOR").any (· == "0") then return false
  (← IO.getStdout).isTty

end KeyedIR

def main (arguments : List String) : IO UInt32 := do
  let outcome : KeyedIR.CommandLine.Outcome ←
    KeyedIR.CommandLine.run (← KeyedIR.wantsColors) arguments
  IO.eprint outcome.report
  IO.print outcome.output
  return UInt32.ofNat outcome.code
