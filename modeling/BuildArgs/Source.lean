import BuildArgs.Digest
import BuildArgs.Json.Record
import BuildArgs.LoadError
import BuildArgs.SystemString

/-!
Files that contributed values. Each is recorded with the digest of its bytes, so that a later build
can tell whether it changed, under the text that is shown for the path by which it was asked for.
-/

namespace BuildArgs

structure Source where
  path : String
  digest : String
  deriving DecidableEq, Repr

abbrev ReadFile := SystemString → Except ReadFault (List UInt8)

namespace Source

def toJson (source : Source) : Json :=
  .object [("path", .string source.path), ("digest", .string source.digest)]

def ofJson? (text : String) : Option Source := do
  let record ← Json.readRecord ["path", "digest"] text
  return ⟨← record.text? "path", ← record.text? "digest"⟩

def load (read : ReadFile) (path : SystemString) : Except LoadError (String × Source) :=
  match read path with
  | .error fault => .error (.unreadable path.shown fault)
  | .ok bytes =>
    match Utf8.decode bytes with
    | .error fault => .error (.notText path.shown fault)
    | .ok chars => .ok (String.ofList chars, ⟨path.shown, Digest.ofBytes bytes⟩)

end Source
end BuildArgs
