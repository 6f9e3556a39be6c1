import BuildArgs.Toml.Reader

/-!
Strings. A basic string stands between quotation marks and may hold escapes; a literal
string stands between apostrophes and holds every character as it is. Both have a form
with three marks that may span lines.
-/

namespace BuildArgs.Toml

def consRead (c : Char) (read : Option (List Char × List Char)) :
    Option (List Char × List Char) :=
  read.map fun result => (c :: result.1, result.2)

def shortEscape (c : Char) : Option Char :=
  match c with
  | 'b' => some '\x08'
  | 't' => some '\t'
  | 'n' => some '\n'
  | 'f' => some '\x0c'
  | 'r' => some '\r'
  | '"' => some '"'
  | '\\' => some '\\'
  | _ => none

def longEscape (digits : List Char) : Option Char :=
  if digits.all isHexDigit then
    let value := numberValue 16 digits
    if value.isValidChar then some (Char.ofNat value) else none
  else none

def basicString : Reader (List Char)
  | '"' :: rest => some ([], rest)
  | '\\' :: 'u' :: a :: b :: c :: d :: rest =>
    (longEscape [a, b, c, d]).bind fun char => consRead char (basicString rest)
  | '\\' :: 'U' :: a :: b :: c :: d :: e :: f :: g :: h :: rest =>
    (longEscape [a, b, c, d, e, f, g, h]).bind fun char => consRead char (basicString rest)
  | '\\' :: c :: rest => (shortEscape c).bind fun char => consRead char (basicString rest)
  | c :: rest => if isPlain c ∧ c ≠ '\\' then consRead c (basicString rest) else none
  | [] => none

def literalString : Reader (List Char)
  | '\'' :: rest => some ([], rest)
  | c :: rest => if isPlain c then consRead c (literalString rest) else none
  | [] => none

def endsLine (text : List Char) : Bool := (lineBreak (skipBlank text)).isSome

def dropFirstBreak (text : List Char) : List Char := (lineBreak text).getD text

/-- Reads a basic string over several lines, after its opening marks. Up to two quotation
marks may stand before the closing ones. A backslash at the end of a line removes the line
break and all blanks and line breaks that follow it, which is what `folding` stands for. -/
def basicLines (folding : Bool) : Reader (List Char)
  | '"' :: '"' :: '"' :: '"' :: '"' :: rest => some (['"', '"'], rest)
  | '"' :: '"' :: '"' :: '"' :: rest => some (['"'], rest)
  | '"' :: '"' :: '"' :: rest => some ([], rest)
  | '\r' :: '\n' :: rest =>
    if folding then basicLines true rest else consRead '\n' (basicLines false rest)
  | '\\' :: 'u' :: a :: b :: c :: d :: rest =>
    (longEscape [a, b, c, d]).bind fun char => consRead char (basicLines false rest)
  | '\\' :: 'U' :: a :: b :: c :: d :: e :: f :: g :: h :: rest =>
    (longEscape [a, b, c, d, e, f, g, h]).bind fun char => consRead char (basicLines false rest)
  | '\\' :: rest =>
    if endsLine rest then basicLines true rest
    else
      match rest with
      | c :: rest => (shortEscape c).bind fun char => consRead char (basicLines false rest)
      | [] => none
  | c :: rest =>
    if folding && (c == '\n' || isBlank c) then basicLines true rest
    else if c = '\n' ∨ isPlain c then consRead c (basicLines false rest)
    else none
  | [] => none

def literalLines : Reader (List Char)
  | '\'' :: '\'' :: '\'' :: '\'' :: '\'' :: rest => some (['\'', '\''], rest)
  | '\'' :: '\'' :: '\'' :: '\'' :: rest => some (['\''], rest)
  | '\'' :: '\'' :: '\'' :: rest => some ([], rest)
  | '\r' :: '\n' :: rest => consRead '\n' (literalLines rest)
  | c :: rest => if c = '\n' ∨ isPlain c then consRead c (literalLines rest) else none
  | [] => none

def readString : Reader (List Char)
  | '"' :: '"' :: '"' :: rest => basicLines false (dropFirstBreak rest)
  | '"' :: rest => basicString rest
  | '\'' :: '\'' :: '\'' :: rest => literalLines (dropFirstBreak rest)
  | '\'' :: rest => literalString rest
  | _ => none

end BuildArgs.Toml
