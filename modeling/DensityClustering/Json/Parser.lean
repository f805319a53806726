import DensityClustering.Json.Token

/-!
Documents from tokens. The parser keeps the arrays and objects that are still open on a stack, so
that it takes one token at a time, however deep they nest.
-/

namespace DensityClustering

/-- An array or object that is still open, with what it holds so far, last first. An object also
holds the name whose value is being read. -/
inductive JsonFrame where
  | array (items : List Json)
  | object (entries : List (JsonText × Json)) (name : JsonText)

inductive JsonState where
  | value (stack : List JsonFrame)
  /-- The first item of an array, or its end. -/
  | firstItem (stack : List JsonFrame)
  /-- The first name of an object, or its end. -/
  | firstName (stack : List JsonFrame)
  | name (entries : List (JsonText × Json)) (stack : List JsonFrame)
  | colon (entries : List (JsonText × Json)) (name : JsonText) (stack : List JsonFrame)
  | done (v : Json) (stack : List JsonFrame)

namespace JsonState

/-- The state after a token where a value is due. -/
def beginValue (stack : List JsonFrame) : JsonToken → Option JsonState
  | .null => some (done .null stack)
  | .bool b => some (done (.bool b) stack)
  | .number n => some (done (.number n) stack)
  | .string t => some (done (.string t) stack)
  | .openArray => some (firstItem stack)
  | .openObject => some (firstName stack)
  | _ => none

def step : JsonState → JsonToken → Option JsonState
  | value stack, t => beginValue stack t
  | firstItem stack, .closeArray => some (done (.array []) stack)
  | firstItem stack, t => beginValue (.array [] :: stack) t
  | firstName stack, .closeObject => some (done (.object []) stack)
  | firstName stack, .string t => some (colon [] t stack)
  | name entries stack, .string t => some (colon entries t stack)
  | colon entries t stack, .colon => some (value (.object entries t :: stack))
  | done v (.array items :: stack), .comma => some (value (.array (v :: items) :: stack))
  | done v (.array items :: stack), .closeArray => some (done (.array (v :: items).reverse) stack)
  | done v (.object entries t :: stack), .comma => some (name ((t, v) :: entries) stack)
  | done v (.object entries t :: stack), .closeObject =>
    some (done (.object ((t, v) :: entries).reverse) stack)
  | _, _ => none

def result : JsonState → Option Json
  | done v [] => some v
  | _ => none

end JsonState

namespace Json

def ofTokens (tokens : List JsonToken) : Option Json :=
  (tokens.foldlM JsonState.step (JsonState.value [])).bind JsonState.result

def parse (text : String) : Option Json := (JsonToken.readAll text.toList).bind ofTokens

end Json

end DensityClustering
