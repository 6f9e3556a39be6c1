import BuildArgs.Value

/-!
The texts of values: the notation of build files, in which listings show them, and JSON.
Neither shows an origin.
-/

namespace BuildArgs.Value

def escape (c : Char) : List Char :=
  if c = '"' ∨ c = '$' ∨ c = '\\' then ['\\', c] else [c]

def quote (text : String) : List Char := '"' :: text.toList.flatMap escape ++ ['"']

mutual

def chars : Value → List Char
  | .none _ => "<void>".toList
  | .boolean _ true => "true".toList
  | .boolean _ false => "false".toList
  | .integer _ value => Json.decimal value.toInt
  | .string _ value => quote value
  | .list _ items => '[' :: itemChars items ++ [']']
  | .scope _ [] => "\x7b \x7d".toList
  | .scope _ entries => '\x7b' :: ' ' :: entryChars entries ++ [' ', '\x7d']

def itemChars : List Value → List Char
  | [] => []
  | [item] => item.chars
  | item :: rest => item.chars ++ ',' :: ' ' :: itemChars rest

def entryChars : List (String × Value) → List Char
  | [] => []
  | [(name, value)] => name.toList ++ " = ".toList ++ value.chars
  | (name, value) :: rest =>
    name.toList ++ " = ".toList ++ value.chars ++ ',' :: ' ' :: entryChars rest

end

def text (value : Value) : String := String.ofList value.chars

mutual

def toJson : Value → Json
  | .none _ => .null
  | .boolean _ value => .boolean value
  | .integer _ value => .integer value.toInt
  | .string _ value => .string value
  | .list _ items => .array (itemsToJson items)
  | .scope _ entries => .object (entriesToJson entries)

def itemsToJson : List Value → List Json
  | [] => []
  | item :: rest => item.toJson :: itemsToJson rest

def entriesToJson : List (String × Value) → List (String × Json)
  | [] => []
  | (name, value) :: rest => (name, value.toJson) :: entriesToJson rest

end

end BuildArgs.Value
