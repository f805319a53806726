import DensityClustering.Json.Value

/-!
The text of a document, without blanks.
-/

namespace DensityClustering

namespace JsonNumber

def digitChars (ds : List Digit) : List Char := ds.map fun d => Char.ofNat (48 + d.val)

def render (n : JsonNumber) : List Char :=
  (if n.negative then ['-'] else []) ++ digitChars n.whole ++
    (match n.fraction with
      | none => []
      | some ds => '.' :: digitChars ds) ++
    (match n.exponent with
      | none => []
      | some e => 'e' :: (if e.negative then ['-'] else []) ++ digitChars e.digits)

end JsonNumber

namespace JsonText

def hexChar (n : Nat) : Char := Nat.digitChar (n % 16)

def escapeUnit (unit : Nat) : List Char :=
  ['\\', 'u', hexChar (unit / 4096), hexChar (unit / 256), hexChar (unit / 16), hexChar unit]

/-- A code point within a string: quotes, backslashes, control characters and surrogates are
escaped. -/
def renderCode (code : Nat) : List Char :=
  if code = 34 ∨ code = 92 then ['\\', Char.ofNat code]
  else if code < 32 ∨ isSurrogate code then escapeUnit code
  else [Char.ofNat code]

def render (t : JsonText) : List Char := '"' :: t.codes.flatMap renderCode ++ ['"']

end JsonText

namespace Json

def separated : List (List Char) → List Char
  | [] => []
  | [s] => s
  | s :: rest => s ++ ',' :: separated rest

mutual

def renderChars : Json → List Char
  | null => ['n', 'u', 'l', 'l']
  | bool true => ['t', 'r', 'u', 'e']
  | bool false => ['f', 'a', 'l', 's', 'e']
  | number n => n.render
  | string t => t.render
  | array items => '[' :: separated (renderItems items) ++ [']']
  | object entries => '\x7b' :: separated (renderEntries entries) ++ ['\x7d']

def renderItems : List Json → List (List Char)
  | [] => []
  | v :: vs => renderChars v :: renderItems vs

def renderEntries : List (JsonText × Json) → List (List Char)
  | [] => []
  | (name, v) :: rest => (name.render ++ ':' :: renderChars v) :: renderEntries rest

end

def render (j : Json) : String := String.ofList j.renderChars

end Json

end DensityClustering
