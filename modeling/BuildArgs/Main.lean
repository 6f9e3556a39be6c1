import BuildArgs.CommandLine.Run

/-!
The program. It hands the words of its command line, which are texts here, the files they may name
and the name of the processor to `CommandLine.run`, prints what comes back and ends with its status.
-/

namespace BuildArgs.Main

open CommandLine

/-- The number of a fault of the operating system, which may be reported negated. -/
def faultNumber (code : UInt32) : Nat :=
  if code < 0x80000000 then code.toNat else (0 - code).toNat

def readFault (error : IO.Error) : ReadFault :=
  let numbered (code : UInt32) : ReadFault :=
    match faultNumber code with
    | 2 => .missing
    | 13 => .denied
    | 20 => .notADirectory
    | 21 => .isADirectory
    | 36 => .nameTooLong
    | _ => .other (toString error)
  match error with
  | .noFileOrDirectory _ code _ => numbered code
  | .permissionDenied _ code _ => numbered code
  | .inappropriateType _ code _ => numbered code
  | .invalidArgument _ code _ => numbered code
  | _ => .other (toString error)

def readNow (path : SystemString) : IO (Except ReadFault (List UInt8)) := do
  try
    return .ok (← IO.FS.readBinFile path.shown).toList
  catch error =>
    return .error (readFault error)

def paths : Request → List SystemString
  | .list inputs _ _ _ => inputs.manifest :: inputs.argsFile.toList
  | .check inputs _ => inputs.manifest :: inputs.argsFile.toList
  | _ => []

def architecture : IO String := do
  try
    return (← IO.FS.readFile "/proc/sys/kernel/arch").trimAscii.toString
  catch _ =>
    return "unknown"

end BuildArgs.Main

open BuildArgs in
def main (texts : List String) : IO UInt32 := do
  let words := texts.map SystemString.ofText
  let wanted := ((CommandLine.parse words).map Main.paths).getD []
  let contents ← wanted.mapM fun path => do return (path, ← Main.readNow path)
  let read : ReadFile := fun path => (contents.lookup path).getD (.error .missing)
  let outcome := CommandLine.run read (← Main.architecture) words
  IO.print outcome.stdout
  IO.eprint outcome.stderr
  return outcome.exit.toUInt32
