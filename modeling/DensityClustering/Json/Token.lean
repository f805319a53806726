import DensityClustering.Json.Value

/-!
The tokens of a JSON text. Blanks between tokens are spaces, tabs and line ends; a string holds no
control character, and an escape is one of the eight short ones or four hexadecimal digits.
-/

namespace DensityClustering

inductive JsonToken where
  | openArray
  | closeArray
  | openObject
  | closeObject
  | colon
  | comma
  | null
  | bool (b : Bool)
  | number (n : JsonNumber)
  | string (t : JsonText)
  deriving DecidableEq, Repr

namespace JsonToken

def digit? (c : Char) : Option Digit :=
  if c.isDigit then some (Digit.ofNat (c.toNat - 48)) else none

def digits : List Char → List Digit × List Char
  | [] => ([], [])
  | c :: cs =>
    match digit? c with
    | some d => (d :: (digits cs).1, (digits cs).2)
    | none => ([], c :: cs)

def someDigits (cs : List Char) : Option (List Digit × List Char) :=
  match digits cs with
  | ([], _) => none
  | (ds, rest) => some (ds, rest)

/-- The whole part of a number: zero, or digits that do not begin with zero. -/
def whole (cs : List Char) : Option (List Digit × List Char) :=
  match someDigits cs with
  | some (d :: e :: ds, rest) => if d.val = 0 then none else some (d :: e :: ds, rest)
  | result => result

def fraction : List Char → Option (Option (List Digit) × List Char)
  | '.' :: cs => (someDigits cs).map fun (ds, rest) => (some ds, rest)
  | cs => some (none, cs)

def exponentSign : List Char → Bool × List Char
  | '-' :: cs => (true, cs)
  | '+' :: cs => (false, cs)
  | cs => (false, cs)

def exponent : List Char → Option (Option JsonExponent × List Char)
  | c :: cs =>
    if c = 'e' ∨ c = 'E' then
      let (negative, cs) := exponentSign cs
      (someDigits cs).map fun (ds, rest) => (some ⟨negative, ds⟩, rest)
    else some (none, c :: cs)
  | [] => some (none, [])

def sign : List Char → Bool × List Char
  | '-' :: cs => (true, cs)
  | cs => (false, cs)

def readNumber (cs : List Char) : Option (JsonNumber × List Char) := do
  let (negative, cs) := sign cs
  let (whole, cs) ← whole cs
  let (fraction, cs) ← fraction cs
  let (exponent, cs) ← exponent cs
  return (⟨negative, whole, fraction, exponent⟩, cs)

def hexDigit? (c : Char) : Option Nat :=
  if c.isDigit then some (c.toNat - 48)
  else if 'a' ≤ c ∧ c ≤ 'f' then some (c.toNat - 87)
  else if 'A' ≤ c ∧ c ≤ 'F' then some (c.toNat - 55)
  else none

def hexUnit? (a b c d : Char) : Option Nat := do
  return ((((← hexDigit? a) * 16 + (← hexDigit? b)) * 16 + (← hexDigit? c)) * 16 + (← hexDigit? d))

def escape? : Char → Option Nat
  | '"' => some 34
  | '\\' => some 92
  | '/' => some 47
  | 'b' => some 8
  | 'f' => some 12
  | 'n' => some 10
  | 'r' => some 13
  | 't' => some 9
  | _ => none

/-- The code units of a string up to its closing quote, and the rest. -/
def readUnits : List Char → Option (List Nat × List Char)
  | [] => none
  | '"' :: rest => some ([], rest)
  | '\\' :: 'u' :: a :: b :: c :: d :: rest => do
    let unit ← hexUnit? a b c d
    let (units, rest) ← readUnits rest
    return (unit :: units, rest)
  | '\\' :: e :: rest => do
    let unit ← escape? e
    let (units, rest) ← readUnits rest
    return (unit :: units, rest)
  | c :: rest =>
    if c = '\\' ∨ c.toNat < 32 then none
    else do
      let (units, rest) ← readUnits rest
      return (c.toNat :: units, rest)

/-- The unit is the first half of a surrogate pair. -/
def isHigh (unit : Nat) : Bool := decide (0xD800 ≤ unit ∧ unit < 0xDC00)

/-- The unit is the second half of a surrogate pair. -/
def isLow (unit : Nat) : Bool := decide (0xDC00 ≤ unit ∧ unit < 0xE000)

def joinPairs : List Nat → List Nat
  | high :: low :: rest =>
    if isHigh high && isLow low then
      (0x10000 + (high - 0xD800) * 0x400 + (low - 0xDC00)) :: joinPairs rest
    else high :: joinPairs (low :: rest)
  | units => units

/-- The first token of a text that begins with none of the blanks, and the rest. -/
def read : List Char → Option (JsonToken × List Char)
  | '[' :: rest => some (openArray, rest)
  | ']' :: rest => some (closeArray, rest)
  | '\x7b' :: rest => some (openObject, rest)
  | '\x7d' :: rest => some (closeObject, rest)
  | ':' :: rest => some (colon, rest)
  | ',' :: rest => some (comma, rest)
  | 'n' :: 'u' :: 'l' :: 'l' :: rest => some (null, rest)
  | 't' :: 'r' :: 'u' :: 'e' :: rest => some (bool true, rest)
  | 'f' :: 'a' :: 'l' :: 's' :: 'e' :: rest => some (bool false, rest)
  | '"' :: rest => (readUnits rest).map fun (units, rest) => (string ⟨joinPairs units⟩, rest)
  | cs => (readNumber cs).map fun (n, rest) => (number n, rest)

def isBlank (c : Char) : Bool := c == ' ' || c == '\n' || c == '\t' || c == '\r'

theorem digits_length (cs : List Char) : (digits cs).2.length ≤ cs.length := by
  induction cs with
  | nil => exact Nat.le_refl _
  | cons c cs ih =>
    unfold digits
    split
    · exact Nat.le_succ_of_le ih
    · exact Nat.le_refl _

theorem someDigits_length {cs rest : List Char} {ds : List Digit}
    (h : someDigits cs = some (ds, rest)) : rest.length < cs.length := by
  cases cs with
  | nil => simp [someDigits, digits] at h
  | cons c cs =>
    have hl := digits_length cs
    unfold someDigits digits at h
    split at h
    · cases h
    · next heq =>
      cases h
      split at heq
      · cases heq; simp only [List.length_cons]; omega
      · cases heq; simp_all

theorem whole_length {cs rest : List Char} {ds : List Digit} (h : whole cs = some (ds, rest)) :
    rest.length < cs.length := by
  unfold whole at h
  split at h
  · next heq =>
    split at h
    · cases h
    · cases h; exact someDigits_length heq
  · exact someDigits_length h

theorem fraction_length {cs rest : List Char} {f : Option (List Digit)}
    (h : fraction cs = some (f, rest)) : rest.length ≤ cs.length := by
  unfold fraction at h
  split at h
  · next cs =>
    obtain ⟨⟨ds, r⟩, hd, he⟩ := Option.map_eq_some_iff.mp h
    cases he
    have := someDigits_length hd
    simp only [List.length_cons]; omega
  · cases h; exact Nat.le_refl _

theorem exponentSign_length (cs : List Char) : (exponentSign cs).2.length ≤ cs.length := by
  unfold exponentSign
  split <;> simp

theorem exponent_length {cs rest : List Char} {e : Option JsonExponent}
    (h : exponent cs = some (e, rest)) : rest.length ≤ cs.length := by
  unfold exponent at h
  split at h
  · next c cs =>
    split at h
    · have hs := exponentSign_length cs
      obtain ⟨⟨ds, r⟩, hd, he⟩ := Option.map_eq_some_iff.mp h
      cases he
      have : rest.length < (exponentSign cs).2.length := someDigits_length hd
      simp only [List.length_cons]; omega
    · cases h; exact Nat.le_refl _
  · cases h; exact Nat.le_refl _

theorem sign_length (cs : List Char) : (sign cs).2.length ≤ cs.length := by
  unfold sign
  split <;> simp

theorem readNumber_length {cs rest : List Char} {n : JsonNumber}
    (h : readNumber cs = some (n, rest)) : rest.length < cs.length := by
  have hs := sign_length cs
  simp only [readNumber, Option.bind_eq_bind, Option.bind_eq_some_iff, Option.pure_def] at h
  obtain ⟨⟨ds, r₁⟩, h₁, ⟨f, r₂⟩, h₂, ⟨e, r₃⟩, h₃, h₄⟩ := h
  cases h₄
  have : r₁.length < (sign cs).2.length := whole_length h₁
  have : r₂.length ≤ r₁.length := fraction_length h₂
  have : r₃.length ≤ r₂.length := exponent_length h₃
  show r₃.length < cs.length
  omega

theorem readUnits_length {cs rest : List Char} {units : List Nat}
    (h : readUnits cs = some (units, rest)) : rest.length < cs.length := by
  fun_induction readUnits cs generalizing units rest with
  | case1 => cases h
  | case2 => cases h; simp
  | case3 a b c d tail ih =>
    simp only [Option.bind_eq_bind, Option.bind_eq_some_iff, Option.pure_def] at h
    obtain ⟨_, _, ⟨u, r⟩, hr, he⟩ := h
    cases he
    have := ih hr
    simp only [List.length_cons]; omega
  | case4 e tail _ ih =>
    simp only [Option.bind_eq_bind, Option.bind_eq_some_iff, Option.pure_def] at h
    obtain ⟨_, _, ⟨u, r⟩, hr, he⟩ := h
    cases he
    have := ih hr
    simp only [List.length_cons]; omega
  | case5 => cases h
  | case6 c tail _ _ _ _ ih =>
    simp only [Option.bind_eq_bind, Option.bind_eq_some_iff, Option.pure_def] at h
    obtain ⟨⟨u, r⟩, hr, he⟩ := h
    cases he
    have := ih hr
    simp only [List.length_cons]; omega

theorem read_length {cs rest : List Char} {t : JsonToken} (h : read cs = some (t, rest)) :
    rest.length < cs.length := by
  unfold read at h
  split at h
  case h_10 =>
    obtain ⟨⟨u, r⟩, hr, he⟩ := Option.map_eq_some_iff.mp h
    cases he
    have := readUnits_length hr
    simp only [List.length_cons]; omega
  case h_11 =>
    obtain ⟨⟨n, r⟩, hr, he⟩ := Option.map_eq_some_iff.mp h
    cases he
    exact readNumber_length hr
  all_goals
    cases h
    simp only [List.length_cons]
    omega

def readAll (cs : List Char) : Option (List JsonToken) :=
  if cs.all isBlank then some []
  else
    match _h : read (cs.dropWhile isBlank) with
    | none => none
    | some (t, rest) => (readAll rest).map (t :: ·)
termination_by cs.length
decreasing_by
  have h₁ := read_length _h
  have h₂ := (List.dropWhile_sublist (l := cs) isBlank).length_le
  omega

end JsonToken

end DensityClustering
