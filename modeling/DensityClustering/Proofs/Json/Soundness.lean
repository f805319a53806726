import DensityClustering.Proofs.Json.Parsing

/-!
A text that is parsed is one of the texts of its document, so that the parser accepts the grammar and
nothing else. What is read of a text is a spelling of the token that comes of it, and the stack of the
parser keeps all tokens that it has taken.
-/

namespace DensityClustering

open JsonNumber

namespace JsonToken

/-! ### Numbers -/

theorem digit?_eq_some {c : Char} {d : Digit} (h : digit? c = some d) :
    c = Char.ofNat (48 + d.val) := by
  unfold digit? at h
  split at h
  · next hdigit =>
    obtain rfl := Option.some.inj h
    have hbounds : 48 ≤ c.toNat ∧ c.toNat ≤ 57 := by
      simpa [Char.isDigit, Char.le_def, UInt32.le_iff_toNat_le] using hdigit
    have hval : (Digit.ofNat (c.toNat - 48)).val = c.toNat - 48 := by
      show (c.toNat - 48) % 10 = _
      omega
    rw [hval, show 48 + (c.toNat - 48) = c.toNat by omega, Char.ofNat_toNat]
  · cases h

theorem digits_spelled (cs : List Char) : cs = digitChars (digits cs).1 ++ (digits cs).2 := by
  induction cs with
  | nil => rfl
  | cons c cs ih =>
    unfold digits
    split
    · next d hd =>
      rw [digit?_eq_some hd]
      exact congrArg _ ih
    · rfl

theorem someDigits_spelled {cs rest : List Char} {ds : List Digit}
    (h : someDigits cs = some (ds, rest)) : ds ≠ [] ∧ cs = digitChars ds ++ rest := by
  have hcs := digits_spelled cs
  unfold someDigits at h
  cases hdigits : (digits cs).1 with
  | nil =>
    rw [show digits cs = ([], (digits cs).2) from Prod.ext hdigits rfl] at h
    cases h
  | cons d ds' =>
    rw [show digits cs = (d :: ds', (digits cs).2) from Prod.ext hdigits rfl] at h
    cases h
    exact ⟨List.cons_ne_nil _ _, hdigits ▸ hcs⟩

theorem whole_spelled {cs rest : List Char} {ds : List Digit} (h : whole cs = some (ds, rest)) :
    IsWhole ds ∧ cs = digitChars ds ++ rest := by
  unfold whole at h
  split at h
  · next d e ds' rest' hdigits =>
    split at h
    · cases h
    · next hd =>
      cases h
      exact ⟨.inr ⟨d, _, rfl, hd⟩, (someDigits_spelled hdigits).2⟩
  · next hseveral =>
    obtain ⟨hne, hcs⟩ := someDigits_spelled h
    refine ⟨?_, hcs⟩
    match ds, hne with
    | [d], _ =>
      by_cases hd : d.val = 0
      · exact .inl (congrArg (fun d => [d]) (Fin.ext hd))
      · exact .inr ⟨d, [], rfl, hd⟩
    | d :: e :: ds', _ => exact absurd h (hseveral d e ds' rest)

theorem fraction_spelled {cs rest : List Char} {f : Option (List Digit)}
    (h : fraction cs = some (f, rest)) :
    (∀ ds, f = some ds → ds ≠ []) ∧ ∃ w, SpellsFraction f w ∧ cs = w ++ rest := by
  unfold fraction at h
  split at h
  · obtain ⟨⟨ds, tail⟩, hdigits, heq⟩ := Option.map_eq_some_iff.mp h
    obtain ⟨hne, hcs⟩ := someDigits_spelled hdigits
    cases heq
    exact ⟨fun _ hds => Option.some.inj hds ▸ hne, _, rfl, by rw [hcs]; rfl⟩
  · cases h
    exact ⟨nofun, [], rfl, rfl⟩

theorem exponentSign_spelled (cs : List Char) : ∃ sign,
    (if (exponentSign cs).1 then sign = ['-'] else sign = [] ∨ sign = ['+']) ∧
      cs = sign ++ (exponentSign cs).2 := by
  unfold exponentSign
  split
  · exact ⟨['-'], rfl, rfl⟩
  · exact ⟨['+'], .inr rfl, rfl⟩
  · exact ⟨[], .inl rfl, rfl⟩

theorem exponent_spelled {cs rest : List Char} {e : Option JsonExponent}
    (h : exponent cs = some (e, rest)) :
    (∀ x, e = some x → x.digits ≠ []) ∧ ∃ w, SpellsExponent e w ∧ cs = w ++ rest := by
  unfold exponent at h
  split at h
  · next c cs =>
    split at h
    · next hletter =>
      obtain ⟨⟨ds, tail⟩, hdigits, heq⟩ := Option.map_eq_some_iff.mp h
      obtain ⟨hne, hcs⟩ := someDigits_spelled hdigits
      obtain ⟨sign, hsign, hafter⟩ := exponentSign_spelled cs
      change (exponentSign cs).2 = _ at hcs
      cases heq
      refine ⟨fun _ hx => Option.some.inj hx ▸ hne, _, ⟨c, sign, hletter, hsign, rfl⟩, ?_⟩
      calc c :: cs = c :: (sign ++ (digitChars ds ++ rest)) := by rw [← hcs, ← hafter]
        _ = _ := by rw [List.cons_append, List.append_assoc]
    · cases h
      exact ⟨nofun, [], rfl, rfl⟩
  · cases h
    exact ⟨nofun, [], rfl, rfl⟩

theorem sign_spelled (cs : List Char) :
    cs = (if (sign cs).1 then ['-'] else []) ++ (sign cs).2 := by
  unfold sign
  split <;> rfl

theorem readNumber_spelled {cs rest : List Char} {n : JsonNumber}
    (h : readNumber cs = some (n, rest)) : ∃ w, n.Spells w ∧ cs = w ++ rest := by
  simp only [readNumber, Option.bind_eq_bind, Option.bind_eq_some_iff, Option.pure_def] at h
  obtain ⟨⟨ds, r₁⟩, h₁, ⟨f, r₂⟩, h₂, ⟨e, r₃⟩, h₃, h₄⟩ := h
  obtain ⟨hwhole, hcs₁⟩ := whole_spelled h₁
  obtain ⟨hf, fractionChars, hfraction, hcs₂⟩ := fraction_spelled h₂
  obtain ⟨he, exponentChars, hexponent, hcs₃⟩ := exponent_spelled h₃
  dsimp only at hcs₁ hcs₂ hcs₃
  cases h₄
  refine ⟨_, ⟨⟨hwhole, hf, he⟩, fractionChars, exponentChars, hfraction, hexponent, rfl⟩, ?_⟩
  calc cs = (if (sign cs).1 then ['-'] else []) ++ (sign cs).2 := sign_spelled cs
    _ = (if (sign cs).1 then ['-'] else []) ++
          (digitChars ds ++ (fractionChars ++ (exponentChars ++ r₃))) := by rw [hcs₁, hcs₂, hcs₃]
    _ = _ := by simp only [List.append_assoc]

/-! ### Strings -/

theorem hexDigit?_eq_some {c : Char} {n : Nat} (h : hexDigit? c = some n) :
    JsonText.IsHexDigit c n := by
  have hall : ∀ k < 103, ∀ n ∈ hexDigit? (Char.ofNat k), n < 16 ∧
      (Char.ofNat k = Nat.digitChar n ∨ Char.ofNat k = (Nat.digitChar n).toUpper) := by decide
  have hbound : c.toNat < 103 := by
    unfold hexDigit? at h
    simp only [Char.isDigit, Bool.and_eq_true, decide_eq_true_iff, ge_iff_le, Char.le_def,
      UInt32.le_iff_toNat_le] at h
    change c.val.toNat < 103
    split at h
    · next hdigit =>
      have : c.val.toNat ≤ 57 := hdigit.2
      omega
    split at h
    · next hlower =>
      have : c.val.toNat ≤ 102 := hlower.2
      omega
    split at h
    · next hupper =>
      have : c.val.toNat ≤ 70 := hupper.2
      omega
    · cases h
  have hc := hall c.toNat hbound n
  rw [Char.ofNat_toNat] at hc
  exact hc h

theorem escape?_eq_some {c : Char} {unit : Nat} (h : escape? c = some unit) :
    (c, unit) ∈ JsonText.shortEscapes := by
  unfold escape? at h
  split at h <;> cases h <;> decide

theorem readUnits_spelled {cs rest : List Char} {units : List Nat}
    (h : readUnits cs = some (units, rest)) :
    ∃ body, JsonText.SpellsUnits units body ∧ cs = body ++ '"' :: rest := by
  fun_induction readUnits cs generalizing units rest with
  | case1 => cases h
  | case2 => cases h; exact ⟨[], .nil, rfl⟩
  | case3 a b c d tail ih =>
    simp only [Option.bind_eq_bind, Option.bind_eq_some_iff, Option.pure_def] at h
    obtain ⟨unit, hunit, ⟨us, r⟩, htail, heq⟩ := h
    cases heq
    obtain ⟨body, hbody, rfl⟩ := ih htail
    simp only [hexUnit?, Option.bind_eq_bind, Option.bind_eq_some_iff, Option.pure_def] at hunit
    obtain ⟨i, hi, j, hj, k, hk, l, hl, hsum⟩ := hunit
    cases hsum
    exact ⟨_, .cons (.hex (hexDigit?_eq_some hi) (hexDigit?_eq_some hj) (hexDigit?_eq_some hk)
      (hexDigit?_eq_some hl)) hbody, rfl⟩
  | case4 e tail _ ih =>
    simp only [Option.bind_eq_bind, Option.bind_eq_some_iff, Option.pure_def] at h
    obtain ⟨unit, hunit, ⟨us, r⟩, htail, heq⟩ := h
    cases heq
    obtain ⟨body, hbody, rfl⟩ := ih htail
    exact ⟨_, .cons (.short (escape?_eq_some hunit)) hbody, rfl⟩
  | case5 => cases h
  | case6 c tail hquote _ _ hplain ih =>
    simp only [Option.bind_eq_bind, Option.bind_eq_some_iff, Option.pure_def] at h
    obtain ⟨⟨us, r⟩, htail, heq⟩ := h
    cases heq
    obtain ⟨body, hbody, rfl⟩ := ih htail
    simp only [not_or, Nat.not_lt] at hplain
    exact ⟨_, .cons (.plain hquote hplain.1 hplain.2) hbody, rfl⟩

/-! ### Tokens -/

def Spells : JsonToken → List Char → Prop
  | openArray, cs => cs = ['[']
  | closeArray, cs => cs = [']']
  | openObject, cs => cs = ['\x7b']
  | closeObject, cs => cs = ['\x7d']
  | colon, cs => cs = [':']
  | comma, cs => cs = [',']
  | null, cs => cs = ['n', 'u', 'l', 'l']
  | bool true, cs => cs = ['t', 'r', 'u', 'e']
  | bool false, cs => cs = ['f', 'a', 'l', 's', 'e']
  | number n, cs => n.Spells cs
  | string t, cs => t.Spells cs

theorem read_spelled {cs rest : List Char} {t : JsonToken} (h : read cs = some (t, rest)) :
    ∃ w, t.Spells w ∧ cs = w ++ rest := by
  unfold read at h
  split at h
  case h_10 tail =>
    obtain ⟨⟨units, r⟩, hunits, heq⟩ := Option.map_eq_some_iff.mp h
    obtain ⟨body, hbody, rfl⟩ := readUnits_spelled hunits
    cases heq
    refine ⟨_, ⟨units, body, hbody, rfl, rfl⟩, ?_⟩
    rw [List.cons_append, List.append_assoc, List.singleton_append]
  case h_11 =>
    obtain ⟨⟨n, r⟩, hn, heq⟩ := Option.map_eq_some_iff.mp h
    cases heq
    exact readNumber_spelled hn
  all_goals
    cases h
    exact ⟨_, rfl, rfl⟩

/-- The text is the tokens one after the other, with blanks before each of them and at its end. -/
def Spaced : List JsonToken → List Char → Prop
  | [], cs => Json.Blank cs
  | t :: ts, cs => ∃ before w rest, Json.Blank before ∧ t.Spells w ∧ Spaced ts rest ∧
      cs = before ++ (w ++ rest)

theorem readAll_spaced {cs : List Char} {ts : List JsonToken} (h : readAll cs = some ts) :
    Spaced ts cs := by
  fun_induction readAll cs generalizing ts with
  | case1 cs hblank =>
    cases h
    exact fun c hc => List.all_eq_true.mp hblank c hc
  | case2 cs _ hread => cases h
  | case3 cs _ t rest hread ih =>
    obtain ⟨us, hus, rfl⟩ := Option.map_eq_some_iff.mp h
    obtain ⟨w, hw, hcs⟩ := read_spelled hread
    refine ⟨cs.takeWhile isBlank, w, rest, fun c hc => ?_, hw, ih hus, ?_⟩
    · exact List.all_eq_true.mp List.all_takeWhile c hc
    · rw [← hcs, List.takeWhile_append_dropWhile]

end JsonToken

/-! ### The stack of the parser -/

namespace JsonFrame

/-- The tokens of items that are each followed by another one. -/
def itemsTaken (items : List Json) : List JsonToken := items.flatMap fun v => v.tokens ++ [.comma]

def entriesTaken (entries : List (JsonText × Json)) : List JsonToken :=
  entries.flatMap fun e => .string e.1 :: .colon :: (e.2.tokens ++ [.comma])

/-- The tokens from which the frames of a stack were built. -/
def taken : List JsonFrame → List JsonToken
  | [] => []
  | array items :: stack => taken stack ++ .openArray :: itemsTaken items.reverse
  | object entries t :: stack =>
    taken stack ++ .openObject :: (entriesTaken entries.reverse ++ [.string t, .colon])

end JsonFrame

namespace Json

open JsonFrame (itemsTaken entriesTaken)

theorem itemTokens_append_singleton (items : List Json) (v : Json) :
    itemTokens (items ++ [v]) = itemsTaken items ++ v.tokens := by
  induction items with
  | nil => rfl
  | cons w items ih =>
    have hcons : itemTokens (w :: (items ++ [v])) =
        w.tokens ++ .comma :: itemTokens (items ++ [v]) := by
      cases items <;> rfl
    rw [List.cons_append, hcons, ih, itemsTaken, itemsTaken, List.flatMap_cons, List.append_assoc,
      List.append_assoc]
    rfl

theorem entryTokens_append_singleton (entries : List (JsonText × Json)) (t : JsonText) (v : Json) :
    entryTokens (entries ++ [(t, v)]) = entriesTaken entries ++ .string t :: .colon :: v.tokens := by
  induction entries with
  | nil => rfl
  | cons e entries ih =>
    have hcons : entryTokens (e :: (entries ++ [(t, v)])) =
        .string e.1 :: .colon :: (e.2.tokens ++ .comma :: entryTokens (entries ++ [(t, v)])) := by
      cases entries <;> rfl
    rw [List.cons_append, hcons, ih, entriesTaken, entriesTaken, List.flatMap_cons]
    simp only [List.cons_append, List.append_assoc, List.nil_append]

end Json

namespace JsonState

open JsonFrame (itemsTaken entriesTaken)

/-- The tokens that have been taken. -/
def taken : JsonState → List JsonToken
  | value stack => JsonFrame.taken stack
  | firstItem stack => JsonFrame.taken stack ++ [.openArray]
  | firstName stack => JsonFrame.taken stack ++ [.openObject]
  | name entries stack => JsonFrame.taken stack ++ .openObject :: entriesTaken entries.reverse
  | colon entries t stack =>
    JsonFrame.taken stack ++ .openObject :: (entriesTaken entries.reverse ++ [.string t])
  | done v stack => JsonFrame.taken stack ++ v.tokens

theorem taken_beginValue {stack : List JsonFrame} {t : JsonToken} {s : JsonState}
    (h : beginValue stack t = some s) : s.taken = JsonFrame.taken stack ++ [t] := by
  cases t <;> cases h <;> rfl

/-- No token is lost: the stack holds what has been read, last first, and so tells all of it. -/
theorem taken_step {s s' : JsonState} {t : JsonToken} (h : s.step t = some s') :
    s'.taken = s.taken ++ [t] := by
  unfold step at h
  split at h
  · exact taken_beginValue h
  -- an array without items, or with a first one
  · cases h
    simp [taken, Json.tokens, Json.itemTokens]
  · exact taken_beginValue h
  -- an object without entries, or with a first one
  · cases h
    simp [taken, Json.tokens, Json.entryTokens]
  · cases h
    simp [taken, entriesTaken]
  -- a name, and its colon
  · cases h
    simp [taken]
  · cases h
    simp [taken, JsonFrame.taken]
  -- the end of an item: the array goes on, or is done
  · cases h
    simp [taken, JsonFrame.taken, itemsTaken]
  · cases h
    simp [taken, JsonFrame.taken, Json.tokens, Json.itemTokens_append_singleton]
  -- the end of an entry: the object goes on, or is done
  · cases h
    simp [taken, JsonFrame.taken, entriesTaken]
  · cases h
    simp [taken, JsonFrame.taken, Json.tokens, Json.entryTokens_append_singleton]
  -- no other token is taken
  · cases h

theorem taken_run {ts : List JsonToken} {s s' : JsonState} (h : Json.run s ts = some s') :
    s'.taken = s.taken ++ ts := by
  induction ts generalizing s with
  | nil =>
    cases h
    exact (List.append_nil _).symm
  | cons t ts ih =>
    obtain ⟨s₁, hstep, hrun⟩ := Option.bind_eq_some_iff.mp h
    rw [ih hrun, taken_step hstep, List.append_assoc, List.singleton_append]

end JsonState

namespace Json

theorem tokens_of_ofTokens {ts : List JsonToken} {j : Json} (h : ofTokens ts = some j) :
    ts = j.tokens := by
  obtain ⟨s, hrun, hresult⟩ := Option.bind_eq_some_iff.mp h
  have htaken := JsonState.taken_run hrun
  unfold JsonState.result at hresult
  split at hresult
  · cases hresult
    exact htaken.symm
  · cases hresult

/-! ### From the tokens to the text -/

open JsonToken (Spaced)

/-- Where the tokens `ts` stand first, the text begins with one of `spells`, after blanks. -/
def Unlexes (spells : List Char → Prop) (ts : List JsonToken) : Prop :=
  ∀ us cs, Spaced (ts ++ us) cs → ∃ before w rest, Blank before ∧ spells w ∧ Spaced us rest ∧
    cs = before ++ (w ++ rest)

/-- Where the tokens `ts` stand first and a mark follows, the text up to the mark is one of
`spells`. -/
def UnlexesUpTo (spells : List Char → Prop) (ts : List JsonToken) : Prop :=
  ∀ mark us cs, Spaced (ts ++ mark :: us) cs → ∃ p m rest, spells p ∧ mark.Spells m ∧
    Spaced us rest ∧ cs = p ++ (m ++ rest)

theorem unlexes_token {spells : List Char → Prop} {t : JsonToken} (h : ∀ w, t.Spells w → spells w) :
    Unlexes spells [t] := by
  rintro us cs ⟨before, w, rest, hbefore, hw, hrest, rfl⟩
  exact ⟨before, w, rest, hbefore, h w hw, hrest, rfl⟩

theorem Unlexes.padded {spells : List Char → Prop} {ts : List JsonToken} (h : Unlexes spells ts) :
    UnlexesUpTo (Padded spells) ts := by
  intro mark us cs hcs
  obtain ⟨before, w, rest, hbefore, hw, ⟨after, m, rest, hafter, hm, hrest, rfl⟩, rfl⟩ := h _ _ hcs
  refine ⟨_, m, rest, ⟨before, w, after, hbefore, hw, hafter, rfl⟩, hm, hrest, ?_⟩
  simp only [List.append_assoc]

/-- Two texts with a mark in between. -/
theorem UnlexesUpTo.separated {first second : List Char → Prop} {ts us : List JsonToken}
    (hfirst : UnlexesUpTo first ts) (mark : JsonToken) (hsecond : UnlexesUpTo second us) :
    UnlexesUpTo (fun cs => ∃ v m w, first v ∧ mark.Spells m ∧ second w ∧ cs = v ++ (m ++ w))
      (ts ++ mark :: us) := by
  intro last vs cs hcs
  rw [List.append_assoc] at hcs
  obtain ⟨v, m, after, hv, hm, hafter, rfl⟩ := hfirst mark _ cs hcs
  obtain ⟨w, l, rest, hw, hl, hrest, rfl⟩ := hsecond last vs after hafter
  refine ⟨_, l, rest, ⟨v, m, w, hv, hm, hw, rfl⟩, hl, hrest, ?_⟩
  simp only [List.append_assoc]

theorem UnlexesUpTo.mono {spells spells' : List Char → Prop} {ts : List JsonToken}
    (h : UnlexesUpTo spells ts) (himp : ∀ w, spells w → spells' w) : UnlexesUpTo spells' ts := by
  intro mark us cs hcs
  obtain ⟨p, m, rest, hp, hm, hrest, rfl⟩ := h mark us cs hcs
  exact ⟨p, m, rest, himp p hp, hm, hrest, rfl⟩

theorem UnlexesUpTo.enclosed {inner : List Char → Prop} {ts : List JsonToken}
    (h : UnlexesUpTo inner ts) {opening closing : JsonToken} :
    Unlexes (fun cs => ∃ a w b, opening.Spells a ∧ inner w ∧ closing.Spells b ∧
      cs = a ++ (w ++ b)) (opening :: (ts ++ [closing])) := by
  rintro us _ ⟨before, a, after, hbefore, ha, hafter, rfl⟩
  change Spaced ((ts ++ [closing]) ++ us) after at hafter
  rw [List.append_assoc] at hafter
  obtain ⟨w, b, rest, hw, hb, hrest, rfl⟩ := h closing us after hafter
  refine ⟨before, _, rest, hbefore, ⟨a, w, b, ha, hw, hb, rfl⟩, hrest, ?_⟩
  simp only [List.append_assoc]

theorem unlexesUpTo_blank : UnlexesUpTo Blank [] := by
  rintro mark us _ ⟨before, m, rest, hbefore, hm, hrest, rfl⟩
  exact ⟨before, m, rest, hbefore, hm, hrest, rfl⟩

theorem unlexes_name (t : JsonText) : Unlexes t.Spells [.string t] := unlexes_token fun _ hw => hw

theorem unlexes_entry (t : JsonText) {value : List Char → Prop} {ts : List JsonToken}
    (hvalue : Unlexes value ts) :
    UnlexesUpTo (SpellsEntry t.Spells value) (.string t :: .colon :: ts) := by
  refine ((unlexes_name t).padded.separated .colon hvalue.padded).mono ?_
  rintro _ ⟨n, m, v, hn, rfl, hv, rfl⟩
  exact ⟨n, v, hn, hv, rfl⟩

mutual

theorem unlexes_tokens : ∀ j : Json, Unlexes j.Spells j.tokens
  | null => unlexes_token fun _ hw => hw
  | bool true => unlexes_token fun _ hw => hw
  | bool false => unlexes_token fun _ hw => hw
  | number _ => unlexes_token fun _ hw => hw
  | string t => unlexes_name t
  | array items => by
    intro us cs hcs
    obtain ⟨before, _, rest, hbefore, ⟨_, w, _, rfl, hw, rfl, rfl⟩, hrest, rfl⟩ :=
      (unlexesUpTo_itemTokens items).enclosed us cs hcs
    exact ⟨before, _, rest, hbefore, ⟨w, hw, rfl⟩, hrest, rfl⟩
  | object entries => by
    intro us cs hcs
    obtain ⟨before, _, rest, hbefore, ⟨_, w, _, rfl, hw, rfl, rfl⟩, hrest, rfl⟩ :=
      (unlexesUpTo_entryTokens entries).enclosed us cs hcs
    exact ⟨before, _, rest, hbefore, ⟨w, hw, rfl⟩, hrest, rfl⟩

theorem unlexesUpTo_itemTokens :
    ∀ items : List Json, UnlexesUpTo (SpellsItems items) (itemTokens items)
  | [] => unlexesUpTo_blank
  | [v] => (unlexes_tokens v).padded
  | v :: w :: vs => by
    refine ((unlexes_tokens v).padded.separated .comma
      (unlexesUpTo_itemTokens (w :: vs))).mono ?_
    rintro _ ⟨first, m, others, hfirst, rfl, hothers, rfl⟩
    exact ⟨first, others, hfirst, hothers, rfl⟩

theorem unlexesUpTo_entryTokens : ∀ entries : List (JsonText × Json),
    UnlexesUpTo (SpellsEntries entries) (entryTokens entries)
  | [] => unlexesUpTo_blank
  | [(t, v)] => unlexes_entry t (unlexes_tokens v)
  | (t, v) :: e :: es => by
    refine ((unlexes_entry t (unlexes_tokens v)).separated .comma
      (unlexesUpTo_entryTokens (e :: es))).mono ?_
    rintro _ ⟨first, m, others, hfirst, rfl, hothers, rfl⟩
    exact ⟨first, others, hfirst, hothers, rfl⟩

end

/-- The parser reads the texts of a document as that document, and no others. -/
theorem parse_eq_some_iff {j : Json} {text : String} : parse text = some j ↔ j.Written text := by
  refine ⟨fun h => ?_, parse_of_written⟩
  obtain ⟨ts, hts, hj⟩ := Option.bind_eq_some_iff.mp h
  have hspaced := JsonToken.readAll_spaced hts
  rw [tokens_of_ofTokens hj, ← List.append_nil j.tokens] at hspaced
  obtain ⟨before, w, after, hbefore, hw, hafter, heq⟩ := unlexes_tokens j [] _ hspaced
  exact ⟨before, w, after, hbefore, hw, hafter, heq⟩

end Json

end DensityClustering
