import BuildArgs.Json.Record

/-!
Places that values come from. Two declarations of an argument are the same declaration
exactly when their origins are equal, so an origin without a line differs from one with.
-/

namespace BuildArgs

structure Origin where
  file : String
  line : Option UInt32
  deriving DecidableEq, Repr

namespace Origin

def ofFile (file : String) : Origin := ⟨file, none⟩

def text (origin : Origin) : String :=
  match origin.line with
  | some line => origin.file ++ ":" ++ toString line.toNat
  | none => origin.file

def order (left right : Origin) : Ordering :=
  (compare left.file right.file).then <|
    match left.line, right.line with
    | none, none => .eq
    | none, some _ => .lt
    | some _, none => .gt
    | some one, some other => compare one.toNat other.toNat

def toJson (origin : Origin) : Json :=
  .object (("file", .string origin.file) ::
    Json.optional "line" (origin.line.map fun line => .integer line.toNat))

def ofJson? (text : String) : Option Origin := do
  let record ← Json.readRecord ["file", "line"] text
  return ⟨← record.text? "file", ← record.word? "line"⟩

end Origin
end BuildArgs
