import DensityClustering.Json.Printer
import DensityClustering.Json.Token

/-!
How a document may be written. Blanks may stand on both sides of every name and every value, an
exponent may begin with a letter of either case and have a plus sign, and a character of a string may
be escaped. So a document has many texts; none of its texts is that of another document, as the parser
reads all of them.
-/

namespace DensityClustering

namespace JsonNumber

/-- Zero, or digits of which the first is not zero. -/
def IsWhole (ds : List Digit) : Prop :=
  ds = [Digit.ofNat 0] ∨ ∃ d rest, ds = d :: rest ∧ d.val ≠ 0

/-- The whole part has no zero in front, and each other part that is there has a digit. -/
structure WellFormed (n : JsonNumber) : Prop where
  whole : IsWhole n.whole
  fraction : ∀ ds, n.fraction = some ds → ds ≠ []
  exponent : ∀ e, n.exponent = some e → e.digits ≠ []

def SpellsFraction : Option (List Digit) → List Char → Prop
  | none, cs => cs = []
  | some ds, cs => cs = '.' :: digitChars ds

/-- Only a negative exponent needs a sign. -/
def SpellsExponent : Option JsonExponent → List Char → Prop
  | none, cs => cs = []
  | some e, cs => ∃ letter sign, (letter = 'e' ∨ letter = 'E') ∧
      (if e.negative then sign = ['-'] else sign = [] ∨ sign = ['+']) ∧
      cs = letter :: (sign ++ digitChars e.digits)

def Spells (n : JsonNumber) (cs : List Char) : Prop :=
  n.WellFormed ∧ ∃ fraction exponent, SpellsFraction n.fraction fraction ∧
    SpellsExponent n.exponent exponent ∧
    cs = (if n.negative then ['-'] else []) ++ (digitChars n.whole ++ (fraction ++ exponent))

end JsonNumber

namespace JsonText

/-- The escapes of one letter, with the code units they stand for. -/
def shortEscapes : List (Char × Nat) :=
  [('"', 34), ('\\', 92), ('/', 47), ('b', 8), ('f', 12), ('n', 10), ('r', 13), ('t', 9)]

/-- The character is the hexadecimal digit `n`, of either case. -/
def IsHexDigit (c : Char) (n : Nat) : Prop :=
  n < 16 ∧ (c = Nat.digitChar n ∨ c = (Nat.digitChar n).toUpper)

/-- How a code unit may be written within a string: as the character itself, by a letter, or by four
hexadecimal digits. -/
inductive SpellsUnit : Nat → List Char → Prop where
  | plain {c : Char} (hquote : c ≠ '"') (hbackslash : c ≠ '\\') (hcontrol : 32 ≤ c.toNat) :
    SpellsUnit c.toNat [c]
  | short {c : Char} {unit : Nat} (h : (c, unit) ∈ shortEscapes) : SpellsUnit unit ['\\', c]
  | hex {a b c d : Char} {i j k l : Nat} (ha : IsHexDigit a i) (hb : IsHexDigit b j)
    (hc : IsHexDigit c k) (hd : IsHexDigit d l) :
    SpellsUnit (((i * 16 + j) * 16 + k) * 16 + l) ['\\', 'u', a, b, c, d]

inductive SpellsUnits : List Nat → List Char → Prop where
  | nil : SpellsUnits [] []
  | cons {unit : Nat} {units : List Nat} {w cs : List Char} (h : SpellsUnit unit w)
    (hs : SpellsUnits units cs) : SpellsUnits (unit :: units) (w ++ cs)

/-- A string is written unit by unit, and units that are a surrogate pair are one code point. -/
def Spells (t : JsonText) (cs : List Char) : Prop :=
  ∃ units body, SpellsUnits units body ∧ JsonToken.joinPairs units = t.codes ∧
    cs = '"' :: (body ++ ['"'])

end JsonText

namespace Json

def Blank (cs : List Char) : Prop := ∀ c ∈ cs, JsonToken.isBlank c = true

/-- A text with blanks around it. -/
def Padded (spells : List Char → Prop) (cs : List Char) : Prop :=
  ∃ before w after, Blank before ∧ spells w ∧ Blank after ∧ cs = before ++ (w ++ after)

/-- A name and a value with a colon in between. -/
def SpellsEntry (name value : List Char → Prop) (cs : List Char) : Prop :=
  ∃ n v, Padded name n ∧ Padded value v ∧ cs = n ++ ':' :: v

mutual

def Spells : Json → List Char → Prop
  | null, cs => cs = ['n', 'u', 'l', 'l']
  | bool true, cs => cs = ['t', 'r', 'u', 'e']
  | bool false, cs => cs = ['f', 'a', 'l', 's', 'e']
  | number n, cs => n.Spells cs
  | string t, cs => t.Spells cs
  | array items, cs => ∃ inner, SpellsItems items inner ∧ cs = '[' :: (inner ++ [']'])
  | object entries, cs => ∃ inner, SpellsEntries entries inner ∧ cs = '\x7b' :: (inner ++ ['\x7d'])

/-- What stands between the brackets of an array. -/
def SpellsItems : List Json → List Char → Prop
  | [], cs => Blank cs
  | [v], cs => Padded (Spells v) cs
  | v :: w :: vs, cs =>
    ∃ first rest, Padded (Spells v) first ∧ SpellsItems (w :: vs) rest ∧ cs = first ++ ',' :: rest

/-- What stands between the braces of an object. -/
def SpellsEntries : List (JsonText × Json) → List Char → Prop
  | [], cs => Blank cs
  | [(t, v)], cs => SpellsEntry t.Spells (Spells v) cs
  | (t, v) :: e :: es, cs =>
    ∃ first rest, SpellsEntry t.Spells (Spells v) first ∧ SpellsEntries (e :: es) rest ∧
      cs = first ++ ',' :: rest

end

/-- The text is the document, with blanks around it. -/
def Written (j : Json) (text : String) : Prop := Padded j.Spells text.toList

end Json

end DensityClustering
