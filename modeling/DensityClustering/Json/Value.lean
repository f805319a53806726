/-!
JSON documents as they are written: numbers keep their digits, and strings may hold surrogates that
stand alone, since both may go unread.
-/

namespace DensityClustering

abbrev Digit := Fin 10

def Digit.ofNat (n : Nat) : Digit := Fin.ofNat 10 n

structure JsonExponent where
  negative : Bool
  digits : List Digit
  deriving DecidableEq, Repr

structure JsonNumber where
  negative : Bool
  whole : List Digit
  fraction : Option (List Digit)
  exponent : Option JsonExponent
  deriving DecidableEq, Repr

/-- A text by its code points; surrogates that stand alone are kept. -/
structure JsonText where
  codes : List Nat
  deriving DecidableEq, Repr

namespace JsonText

/-- The code point is half of a surrogate pair. -/
def isSurrogate (code : Nat) : Bool := decide (0xD800 ≤ code ∧ code < 0xE000)

def ofString (s : String) : JsonText := ⟨s.toList.map Char.toNat⟩

/-- The characters, unless a surrogate stands alone. -/
def toString? (t : JsonText) : Option String :=
  if t.codes.any isSurrogate then none else some (String.ofList (t.codes.map Char.ofNat))

end JsonText

/-- A document. Objects keep their entries in order, repeated names included. -/
inductive Json where
  | null
  | bool (b : Bool)
  | number (n : JsonNumber)
  | string (t : JsonText)
  | array (items : List Json)
  | object (entries : List (JsonText × Json))
  deriving Repr

end DensityClustering
