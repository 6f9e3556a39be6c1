/-!
Readers and the classes of characters that TOML texts are made of. A reader takes
characters from the front of a text and leaves the rest, or refuses the text.
-/

namespace BuildArgs.Toml

abbrev Reader (α : Type) := List Char → Option (α × List Char)

def isBlank (c : Char) : Bool := c == ' ' || c == '\t'

def isPlain (c : Char) : Bool := c == '\t' || (' ' ≤ c && c != '\x7f')

def isKeyChar (c : Char) : Bool := c.isAlphanum || c == '-' || c == '_'

def isHexDigit (c : Char) : Bool := c.isDigit || ('a' ≤ c && c ≤ 'f') || ('A' ≤ c && c ≤ 'F')

def isOctalDigit (c : Char) : Bool := '0' ≤ c && c ≤ '7'

def isBinaryDigit (c : Char) : Bool := c == '0' || c == '1'

def digitValue (c : Char) : Nat :=
  if c.isDigit then c.toNat - '0'.toNat
  else if 'a' ≤ c then c.toNat - 'a'.toNat + 10
  else c.toNat - 'A'.toNat + 10

def numberValue (base : Nat) (digits : List Char) : Nat :=
  digits.foldl (fun value digit => value * base + digitValue digit) 0

def skipBlank (text : List Char) : List Char := text.dropWhile isBlank

def expect (c : Char) : List Char → Option (List Char)
  | d :: rest => if d = c then some rest else none
  | [] => none

def expectAll : List Char → List Char → Option (List Char)
  | [], text => some text
  | c :: word, text => (expect c text).bind (expectAll word)

def lineBreak : List Char → Option (List Char)
  | '\n' :: rest => some rest
  | '\r' :: '\n' :: rest => some rest
  | _ => none

def lineEnd : List Char → Option (List Char)
  | [] => some []
  | text => lineBreak text

/-- Passes over what may follow an expression on its line: blanks and a comment. -/
def trailing (text : List Char) : Option (List Char) :=
  match skipBlank text with
  | '#' :: rest => lineEnd (rest.dropWhile isPlain)
  | rest => lineEnd rest

def skipLines (inComment : Bool) : List Char → Option (List Char)
  | '\n' :: rest => skipLines false rest
  | '\r' :: '\n' :: rest => skipLines false rest
  | c :: rest =>
    if inComment then if isPlain c then skipLines true rest else none
    else if c = '#' then skipLines true rest
    else if isBlank c then skipLines false rest
    else some (c :: rest)
  | [] => if inComment then none else some []

end BuildArgs.Toml
