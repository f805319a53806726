import DensityClustering.Proofs.Json.Grammar

/-!
Every spelling of a number and of a string is read as that number and that string, up to where it
ends, and blanks before a token are passed over.
-/

namespace DensityClustering

open JsonNumber

namespace JsonToken

/-- No digit comes next. -/
def NoDigit (cs : List Char) : Prop := ∀ c ∈ cs.head?, digit? c = none

/-- What comes next cannot belong to a number. -/
structure EndsNumber (cs : List Char) : Prop where
  digit : NoDigit cs
  point : ∀ c ∈ cs.head?, c ≠ '.'
  exponent : ∀ c ∈ cs.head?, c ≠ 'e' ∧ c ≠ 'E'

theorem endsNumber_nil : EndsNumber [] := ⟨by simp [NoDigit], by simp, by simp⟩

theorem endsNumber_cons {c : Char} (hdigit : digit? c = none) (hpoint : c ≠ '.')
    (hexponent : c ≠ 'e' ∧ c ≠ 'E') (cs : List Char) : EndsNumber (c :: cs) := by
  constructor
  · rintro _ ⟨⟩; exact hdigit
  · rintro _ ⟨⟩; exact hpoint
  · rintro _ ⟨⟩; exact hexponent

/-! ### Numbers -/

theorem digit?_char : ∀ d : Digit, digit? (Char.ofNat (48 + d.val)) = some d := by decide

theorem char_ne_sign : ∀ d : Digit,
    Char.ofNat (48 + d.val) ≠ '-' ∧ Char.ofNat (48 + d.val) ≠ '+' := by decide

theorem digitChars_cons (d : Digit) (ds : List Digit) (rest : List Char) :
    digitChars (d :: ds) ++ rest = Char.ofNat (48 + d.val) :: (digitChars ds ++ rest) := rfl

theorem digits_append (ds : List Digit) {rest : List Char} (h : NoDigit rest) :
    digits (digitChars ds ++ rest) = (ds, rest) := by
  induction ds with
  | nil =>
    cases rest with
    | nil => rfl
    | cons c rest =>
      have hc : digit? c = none := h c rfl
      simp only [digitChars, List.map_nil, List.nil_append, digits, hc]
  | cons d ds ih => simp only [digitChars_cons, digits, digit?_char, ih]

theorem someDigits_append {ds : List Digit} (hne : ds ≠ []) {rest : List Char} (h : NoDigit rest) :
    someDigits (digitChars ds ++ rest) = some (ds, rest) := by
  unfold someDigits
  rw [digits_append ds h]
  cases ds with
  | nil => exact absurd rfl hne
  | cons d ds => rfl

theorem IsWhole.ne_nil {ds : List Digit} (h : IsWhole ds) : ds ≠ [] := by
  obtain rfl | ⟨d, tail, rfl, -⟩ := h
  · exact List.cons_ne_nil _ _
  · exact List.cons_ne_nil _ _

theorem whole_append {ds : List Digit} (hw : IsWhole ds) {rest : List Char} (h : NoDigit rest) :
    whole (digitChars ds ++ rest) = some (ds, rest) := by
  unfold whole
  rw [someDigits_append (IsWhole.ne_nil hw) h]
  obtain rfl | ⟨d, tail, rfl, hd⟩ := hw
  · rfl
  · -- one digit may be zero, the first of several may not
    cases tail with
    | nil => rfl
    | cons e tail => simp only [hd, if_false]

theorem fraction_append {f : Option (List Digit)} {cs rest : List Char} (hs : SpellsFraction f cs)
    (hf : ∀ ds, f = some ds → ds ≠ []) (hdigit : NoDigit rest)
    (hpoint : ∀ c ∈ rest.head?, c ≠ '.') : fraction (cs ++ rest) = some (f, rest) := by
  cases f with
  | none =>
    obtain rfl : cs = [] := hs
    cases rest with
    | nil => rfl
    | cons c rest =>
      have hc : c ≠ '.' := hpoint c rfl
      show fraction (c :: rest) = some (none, c :: rest)
      unfold fraction
      split
      · next heq => exact absurd (List.cons.inj heq).1 hc
      · rfl
  | some ds =>
    obtain rfl : cs = '.' :: digitChars ds := hs
    have hdigits := someDigits_append (hf ds rfl) hdigit
    simp only [List.cons_append, fraction, hdigits, Option.map_some]

theorem exponentSign_digitChars {ds : List Digit} (hne : ds ≠ []) (rest : List Char) :
    exponentSign (digitChars ds ++ rest) = (false, digitChars ds ++ rest) := by
  cases ds with
  | nil => exact absurd rfl hne
  | cons d ds =>
    rw [digitChars_cons]
    unfold exponentSign
    split
    · next heq => exact absurd (List.cons.inj heq).1 (char_ne_sign d).1
    · next heq => exact absurd (List.cons.inj heq).1 (char_ne_sign d).2
    · rfl

theorem exponent_append {e : Option JsonExponent} {cs rest : List Char} (hs : SpellsExponent e cs)
    (he : ∀ x, e = some x → x.digits ≠ []) (h : EndsNumber rest) :
    exponent (cs ++ rest) = some (e, rest) := by
  cases e with
  | none =>
    obtain rfl : cs = [] := hs
    cases rest with
    | nil => rfl
    | cons c rest =>
      have hc : c ≠ 'e' ∧ c ≠ 'E' := h.exponent c rfl
      simp only [List.nil_append, exponent, hc.1, hc.2, or_self, if_false]
  | some x =>
    obtain ⟨letter, sign, hletter, hsign, rfl⟩ := hs
    have hdigits := someDigits_append (he x rfl) h.digit
    have hread : exponentSign (sign ++ (digitChars x.digits ++ rest)) =
        (x.negative, digitChars x.digits ++ rest) := by
      cases hn : x.negative with
      | true =>
        simp only [hn, if_true] at hsign
        rw [hsign]
        rfl
      | false =>
        simp only [hn, Bool.false_eq_true, if_false] at hsign
        obtain rfl | rfl := hsign
        · exact exponentSign_digitChars (he x rfl) rest
        · rfl
    simp only [List.cons_append, List.append_assoc, exponent, hletter, if_true, hread, hdigits,
      Option.map_some]

theorem sign_append (negative : Bool) {ds : List Digit} (hne : ds ≠ []) (rest : List Char) :
    sign ((if negative then ['-'] else []) ++ (digitChars ds ++ rest)) =
      (negative, digitChars ds ++ rest) := by
  cases negative with
  | true => rfl
  | false =>
    cases ds with
    | nil => exact absurd rfl hne
    | cons d ds =>
      show sign (digitChars (d :: ds) ++ rest) = _
      rw [digitChars_cons]
      unfold sign
      split
      · next heq => exact absurd (List.cons.inj heq).1 (char_ne_sign d).1
      · rfl

/-- What follows the digits before an exponent is no digit and no point. -/
theorem noDigit_of_spellsExponent {e : Option JsonExponent} {cs rest : List Char}
    (hs : SpellsExponent e cs) (h : EndsNumber rest) :
    NoDigit (cs ++ rest) ∧ ∀ c ∈ (cs ++ rest).head?, c ≠ '.' := by
  cases e with
  | none =>
    obtain rfl : cs = [] := hs
    exact ⟨h.digit, h.point⟩
  | some x =>
    obtain ⟨letter, sign, hletter, -, rfl⟩ := hs
    simp only [NoDigit, List.cons_append, List.head?_cons, Option.mem_some_iff, forall_eq']
    obtain rfl | rfl := hletter
    · decide
    · decide

theorem noDigit_of_spellsFraction {f : Option (List Digit)} {cs rest : List Char}
    (hs : SpellsFraction f cs) (h : NoDigit rest) : NoDigit (cs ++ rest) := by
  cases f with
  | none =>
    obtain rfl : cs = [] := hs
    exact h
  | some ds =>
    obtain rfl : cs = '.' :: digitChars ds := hs
    intro c hc
    obtain rfl := Option.mem_some_iff.mp hc
    decide

theorem readNumber_append {n : JsonNumber} {cs rest : List Char} (hs : n.Spells cs)
    (h : EndsNumber rest) : readNumber (cs ++ rest) = some (n, rest) := by
  obtain ⟨hn, fractionChars, exponentChars, hfraction, hexponent, rfl⟩ := hs
  obtain ⟨hdigit, hpoint⟩ := noDigit_of_spellsExponent hexponent h
  have hsign := sign_append n.negative (IsWhole.ne_nil hn.whole)
    (fractionChars ++ (exponentChars ++ rest))
  have hw := whole_append hn.whole (noDigit_of_spellsFraction hfraction hdigit)
  have hf := fraction_append hfraction hn.fraction hdigit hpoint
  have he := exponent_append hexponent hn.exponent h
  simp only [readNumber, List.append_assoc, hsign, hw, hf, he, Option.bind_eq_bind,
    Option.bind_some, Option.pure_def]

/-! ### Strings -/

theorem hexDigit?_of_isHexDigit {c : Char} {n : Nat} (h : JsonText.IsHexDigit c n) :
    hexDigit? c = some n := by
  have hall : ∀ k < 16, hexDigit? (Nat.digitChar k) = some k ∧
      hexDigit? (Nat.digitChar k).toUpper = some k := by decide
  obtain ⟨hn, rfl | rfl⟩ := h
  · exact (hall n hn).1
  · exact (hall n hn).2

theorem readUnits_plain {c : Char} (hquote : c ≠ '"') (hbackslash : c ≠ '\\')
    (hcontrol : 32 ≤ c.toNat) (rest : List Char) :
    readUnits (c :: rest) = (readUnits rest).map (Prod.map (c.toNat :: ·) id) := by
  have hlt : ¬ c.toNat < 32 := Nat.not_lt.mpr hcontrol
  rw [readUnits.eq_def]
  split
  case h_2 heq => exact absurd (List.cons.inj heq).1 hquote
  case h_5 heq =>
    obtain ⟨rfl, rfl⟩ := List.cons.inj heq
    simp only [hbackslash, hlt, or_self, if_false]
    cases readUnits rest <;> rfl
  all_goals simp_all

theorem readUnits_short {c : Char} {unit : Nat} (h : (c, unit) ∈ JsonText.shortEscapes)
    (rest : List Char) :
    readUnits ('\\' :: c :: rest) = (readUnits rest).map (Prod.map (unit :: ·) id) := by
  have hall : ∀ e ∈ JsonText.shortEscapes, escape? e.1 = some e.2 ∧ e.1 ≠ 'u' := by decide
  obtain ⟨hescape, hu⟩ : escape? c = some unit ∧ c ≠ 'u' := hall (c, unit) h
  rw [readUnits, hescape]
  · cases readUnits rest <;> rfl
  · intro _ _ _ _ _ heq
    exact absurd heq hu

theorem readUnits_hex {a b c d : Char} {unit : Nat} (h : hexUnit? a b c d = some unit)
    (rest : List Char) :
    readUnits ('\\' :: 'u' :: a :: b :: c :: d :: rest) =
      (readUnits rest).map (Prod.map (unit :: ·) id) := by
  rw [readUnits, h]
  cases readUnits rest <;> rfl

theorem readUnits_unit {unit : Nat} {w : List Char} (h : JsonText.SpellsUnit unit w)
    (rest : List Char) :
    readUnits (w ++ rest) = (readUnits rest).map (Prod.map (unit :: ·) id) := by
  cases h with
  | plain hquote hbackslash hcontrol => exact readUnits_plain hquote hbackslash hcontrol rest
  | short h => exact readUnits_short h rest
  | hex ha hb hc hd =>
    apply readUnits_hex
    simp only [hexUnit?, hexDigit?_of_isHexDigit ha, hexDigit?_of_isHexDigit hb,
      hexDigit?_of_isHexDigit hc, hexDigit?_of_isHexDigit hd, Option.bind_eq_bind, Option.bind_some,
      Option.pure_def]

theorem readUnits_append {units : List Nat} {body : List Char}
    (h : JsonText.SpellsUnits units body) (rest : List Char) :
    readUnits (body ++ '"' :: rest) = some (units, rest) := by
  induction h with
  | nil => simp only [List.nil_append, readUnits]
  | cons hunit _ ih =>
    rw [List.append_assoc, readUnits_unit hunit, ih]
    rfl

/-! ### Tokens -/

theorem read_string {t : JsonText} {cs : List Char} (h : t.Spells cs) (rest : List Char) :
    read (cs ++ rest) = some (string t, rest) := by
  obtain ⟨units, body, hbody, hjoin, rfl⟩ := h
  have hunits := readUnits_append hbody rest
  simp only [List.cons_append, List.append_assoc, List.nil_append, read, hunits, Option.map_some,
    hjoin]

/-- A number begins with a sign or a digit, and no other token does. -/
theorem read_number {n : JsonNumber} {cs rest : List Char} (h : n.Spells cs)
    (hend : EndsNumber rest) : read (cs ++ rest) = some (number n, rest) := by
  have hread := readNumber_append h hend
  obtain ⟨c, tail, hcons, hc⟩ : ∃ c tail, cs ++ rest = c :: tail ∧
      (c = '-' ∨ ∃ d : Digit, c = Char.ofNat (48 + d.val)) := by
    obtain ⟨hn, fractionChars, exponentChars, -, -, rfl⟩ := h
    cases n.negative with
    | true => exact ⟨'-', _, rfl, .inl rfl⟩
    | false =>
      obtain h0 | ⟨d, ds, h0, -⟩ := hn.whole
      · exact ⟨_, _, by rw [h0]; rfl, .inr ⟨Digit.ofNat 0, rfl⟩⟩
      · exact ⟨_, _, by rw [h0]; rfl, .inr ⟨d, rfl⟩⟩
  have hfirst : c ∉ ['[', ']', '\x7b', '\x7d', ':', ',', 'n', 't', 'f', '"'] := by
    have hdigit : ∀ d : Digit, Char.ofNat (48 + d.val) ∉
        ['[', ']', '\x7b', '\x7d', ':', ',', 'n', 't', 'f', '"'] := by decide
    obtain rfl | ⟨d, rfl⟩ := hc
    · decide
    · exact hdigit d
  rw [hcons] at hread ⊢
  unfold read
  split
  case h_11 => rw [hread, Option.map_some]
  all_goals
    next heq =>
    refine absurd ?_ hfirst
    rw [(List.cons.inj heq).1]
    decide

/-! ### Blanks -/

theorem isBlank_iff {c : Char} : isBlank c = true ↔ c = ' ' ∨ c = '\n' ∨ c = '\t' ∨ c = '\r' := by
  simp only [isBlank, Bool.or_eq_true, beq_iff_eq, or_assoc]

theorem read_blank {c : Char} (h : isBlank c = true) (cs : List Char) : read (c :: cs) = none := by
  obtain rfl | rfl | rfl | rfl := isBlank_iff.mp h <;> rfl

/-- The recursion of `readAll`, without the proof that it ends. -/
theorem readAll_eq (cs : List Char) : readAll cs =
    if cs.all isBlank then some []
    else (read (cs.dropWhile isBlank)).bind fun (t, rest) => (readAll rest).map (t :: ·) := by
  rw [readAll]
  split
  · rfl
  · split
    · next hread => rw [hread]; rfl
    · next hread => rw [hread]; rfl

theorem readAll_nil : readAll [] = some [] := by rw [readAll]; rfl

theorem readAll_cons_blank {c : Char} (h : isBlank c = true) (cs : List Char) :
    readAll (c :: cs) = readAll cs := by
  rw [readAll_eq, readAll_eq cs, List.dropWhile_cons_of_pos h, List.all_cons, h, Bool.true_and]

theorem readAll_append_blank {before : List Char} (h : Json.Blank before) (cs : List Char) :
    readAll (before ++ cs) = readAll cs := by
  induction before with
  | nil => rfl
  | cons c before ih =>
    rw [List.cons_append, readAll_cons_blank (h c List.mem_cons_self),
      ih fun d hd => h d (List.mem_cons_of_mem c hd)]

/-- The tokens of a text are its first token and those of the rest. -/
theorem readAll_of_read {cs rest : List Char} {t : JsonToken} (h : read cs = some (t, rest)) :
    readAll cs = (readAll rest).map (t :: ·) := by
  cases cs with
  | nil => cases h
  | cons c cs =>
    have hblank : isBlank c = false := by
      cases hc : isBlank c with
      | false => rfl
      | true => rw [read_blank hc] at h; cases h
    have hall : (c :: cs).all isBlank = false := by rw [List.all_cons, hblank, Bool.false_and]
    rw [readAll_eq, hall, List.dropWhile_cons_of_neg (by simp [hblank]), h]
    rfl

end JsonToken

end DensityClustering
