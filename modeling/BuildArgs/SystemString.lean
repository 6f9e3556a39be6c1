import BuildArgs.Text.Utf8

/-!
Words and paths as the operating system hands them over: bytes, which most often are those of a text
but need not be. A text stands for its bytes wherever such a word is expected.
-/

namespace BuildArgs

@[ext]
structure SystemString where
  bytes : List UInt8
  deriving DecidableEq, Repr

namespace SystemString

def ofText (text : String) : SystemString := ⟨Utf8.encode text.toList⟩

instance : Coe String SystemString := ⟨ofText⟩

instance : Coe (List String) (List SystemString) := ⟨List.map ofText⟩

def text? (word : SystemString) : Option String :=
  (Utf8.decode word.bytes).toOption.map String.ofList

/-- The text that is shown for a word. It is another word where the bytes are no text. -/
def shown (word : SystemString) : String := String.ofList (Utf8.decodeLossy word.bytes)

def isEmpty (word : SystemString) : Bool := word.bytes.isEmpty

end SystemString
end BuildArgs
