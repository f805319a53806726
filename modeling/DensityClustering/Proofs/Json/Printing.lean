import DensityClustering.Json.Number
import DensityClustering.Proofs.Decimal.Shortest
import DensityClustering.Proofs.Json.Parsing

/-!
The printed text of a document is one of its texts, so that it is parsed as the document it was
printed from. Integers keep their value, and what is printed for a double is a number.
-/

namespace DensityClustering

/-! ### Numbers -/

namespace JsonNumber

theorem spellsExponent_render (e : JsonExponent) : SpellsExponent (some e)
    ('e' :: (if e.negative then ['-'] else []) ++ digitChars e.digits) := by
  refine ⟨'e', if e.negative then ['-'] else [], .inl rfl, ?_, rfl⟩
  cases e.negative with
  | true => rfl
  | false => exact .inl rfl

theorem spells_render {n : JsonNumber} (h : n.WellFormed) : n.Spells n.render := by
  obtain ⟨negative, whole, _ | ds, _ | e⟩ := n
  · exact ⟨h, [], [], rfl, rfl, by simp only [render, List.append_assoc]⟩
  · exact ⟨h, [], _, rfl, spellsExponent_render e, by simp only [render, List.append_assoc]⟩
  · exact ⟨h, '.' :: digitChars ds, [], rfl, rfl, by simp only [render, List.append_assoc]⟩
  · exact ⟨h, '.' :: digitChars ds, _, rfl, spellsExponent_render e,
      by simp only [render, List.append_assoc]⟩

theorem digitsOf_of_lt_ten {n : Nat} (h : n < 10) : digitsOf n = [Digit.ofNat n] := by
  rw [digitsOf, Nat.toDigits_of_lt_base h]
  have hchar : ∀ k < 10, Digit.ofNat ((Nat.digitChar k).toNat - '0'.toNat) = Digit.ofNat k := by
    decide
  rw [List.map_singleton, hchar n h]

theorem digitsOf_of_ten_le {n : Nat} (h : 10 ≤ n) :
    digitsOf n = digitsOf (n / 10) ++ digitsOf (n % 10) := by
  have hlast : n % 10 < 10 := Nat.mod_lt n (by decide)
  simp only [digitsOf]
  rw [Nat.toDigits_of_base_le (by decide) h, List.map_append, Nat.toDigits_of_lt_base hlast]

theorem spell_append (start : Nat) (ds es : List Digit) :
    spell start (ds ++ es) = spell (spell start ds) es := List.foldl_append

theorem spell_digitsOf (n : Nat) : spell 0 (digitsOf n) = n := by
  have hsmall : ∀ (start n : Nat), n < 10 → spell start (digitsOf n) = 10 * start + n := by
    intro start n h
    rw [digitsOf_of_lt_ten h]
    show 10 * start + n % 10 = _
    rw [Nat.mod_eq_of_lt h]
  induction n using Nat.strongRecOn with
  | _ n ih =>
    by_cases h : n < 10
    · rw [hsmall 0 n h, Nat.mul_zero, Nat.zero_add]
    · rw [digitsOf_of_ten_le (by omega), spell_append, ih (n / 10) (by omega),
        hsmall _ _ (Nat.mod_lt n (by decide))]
      omega

theorem digitsOf_zero : digitsOf 0 = [Digit.ofNat 0] := by decide

/-- A positive number begins with a digit other than zero. -/
theorem digitsOf_head {n : Nat} (hn : n ≠ 0) :
    ∃ d rest, digitsOf n = d :: rest ∧ d.val ≠ 0 := by
  induction n using Nat.strongRecOn with
  | _ n ih =>
    by_cases h : n < 10
    · have hdigit : ∀ k < 10, k ≠ 0 → (Digit.ofNat k).val ≠ 0 := by decide
      exact ⟨_, [], digitsOf_of_lt_ten h, hdigit n h hn⟩
    · obtain ⟨d, rest, hhead, hd⟩ := ih (n / 10) (by omega) (by omega)
      exact ⟨d, _, by rw [digitsOf_of_ten_le (by omega), hhead, List.cons_append], hd⟩

theorem digitsOf_ne_nil (n : Nat) : digitsOf n ≠ [] := by
  by_cases h : n = 0
  · rw [h, digitsOf_zero]
    exact List.cons_ne_nil _ _
  · obtain ⟨d, rest, hhead, -⟩ := digitsOf_head h
    rw [hhead]
    exact List.cons_ne_nil _ _

theorem isWhole_digitsOf (n : Nat) : IsWhole (digitsOf n) := by
  by_cases h : n = 0
  · exact .inl (by rw [h, digitsOf_zero])
  · exact .inr (digitsOf_head h)

theorem ofNat_wellFormed (n : Nat) : (ofNat n).WellFormed :=
  ⟨isWhole_digitsOf n, nofun, nofun⟩

/-- An integer up to the largest word is read as itself. -/
theorem toWord?_ofNat {n : Nat} (h : n ≤ largestWord) : (ofNat n).toWord? = some n := by
  show (if spell 0 (digitsOf n) ≤ largestWord then some (spell 0 (digitsOf n)) else none) = some n
  rw [spell_digitsOf, if_pos h]

theorem ofDecimal_wellFormed (negative : Bool) {n : Decimal.Number} (hn : n.digits ≠ 0) :
    (ofDecimal negative n).WellFormed := by
  obtain ⟨d, rest, hhead, hd⟩ := digitsOf_head hn
  have hlength : (digitsOf n.digits).length = rest.length + 1 := by rw [hhead, List.length_cons]
  unfold ofDecimal
  simp only [Bool.and_eq_true, decide_eq_true_iff, hlength]
  split
  · -- zeros before the point
    refine ⟨.inr ⟨d, _, by rw [hhead]; rfl, hd⟩, ?_, nofun⟩
    rintro _ ⟨⟩
    decide
  split
  · next hlow hpoint =>
    -- the point stands between the digits
    obtain ⟨k, hk⟩ : ∃ k, ((rest.length + 1 : Nat) + n.exponent : Int).toNat = k + 1 :=
      ⟨_, (Nat.succ_pred (by omega)).symm⟩
    rw [hk, hhead]
    refine ⟨.inr ⟨d, _, rfl, hd⟩, ?_, nofun⟩
    rintro _ ⟨⟩ hnil
    have := List.drop_eq_nil_iff.mp hnil
    simp only [List.length_cons] at this
    omega
  split
  · -- zeros after the point
    refine ⟨.inl rfl, ?_, nofun⟩
    rintro _ ⟨⟩ hnil
    exact digitsOf_ne_nil _ (List.append_eq_nil_iff.mp hnil).2
  · -- one digit before the point, and an exponent
    refine ⟨.inr ⟨d, [], by rw [hhead]; rfl, hd⟩, ?_, ?_⟩
    · intro ds hds hnil
      split at hds
      · cases hds
      · next hone =>
        cases hds
        have := List.drop_eq_nil_iff.mp hnil
        omega
    · rintro _ ⟨⟩
      exact digitsOf_ne_nil _

theorem ofDouble_wellFormed (x : Float) : (ofDouble x).WellFormed := by
  unfold ofDouble
  dsimp only
  split
  · refine ⟨isWhole_digitsOf 0, ?_, nofun⟩
    rintro _ ⟨⟩
    exact digitsOf_ne_nil 0
  · next h => exact ofDecimal_wellFormed _ (Decimal.shortest_digits_ne_zero h)

end JsonNumber

/-! ### Strings -/

namespace JsonText

/-- Every code point is one, and no two of them are the halves of a third. -/
structure WellFormed (t : JsonText) : Prop where
  bound : ∀ code ∈ t.codes, code < 0x110000
  joined : JsonToken.joinPairs t.codes = t.codes

theorem spellsUnit_escapeUnit {unit : Nat} (h : unit < 0x10000) :
    SpellsUnit unit (escapeUnit unit) := by
  have hhex : ∀ n, IsHexDigit (hexChar n) (n % 16) := fun n => ⟨Nat.mod_lt n (by decide), .inl rfl⟩
  have hsum : ((unit / 4096 % 16 * 16 + unit / 256 % 16) * 16 + unit / 16 % 16) * 16 + unit % 16 =
      unit := by omega
  have := SpellsUnit.hex (hhex (unit / 4096)) (hhex (unit / 256)) (hhex (unit / 16)) (hhex unit)
  rwa [hsum] at this

theorem toNat_ofNat_of_not_isSurrogate {code : Nat} (hbound : code < 0x110000)
    (h : isSurrogate code = false) : (Char.ofNat code).toNat = code := by
  have hvalid : code.isValidChar := by
    simp only [isSurrogate, decide_eq_false_iff_not] at h
    simp only [Nat.isValidChar]
    omega
  rw [Char.ofNat, dif_pos hvalid]
  rfl

theorem spellsUnit_renderCode {code : Nat} (h : code < 0x110000) :
    SpellsUnit code (renderCode code) := by
  unfold renderCode
  split
  · next hquote =>
    obtain rfl | rfl := hquote
    · exact SpellsUnit.short (by decide)
    · exact SpellsUnit.short (by decide)
  split
  · next hescaped =>
    refine spellsUnit_escapeUnit ?_
    simp only [isSurrogate, decide_eq_true_iff] at hescaped
    omega
  · next hquote hplain =>
    simp only [not_or, Bool.not_eq_true, Nat.not_lt] at hquote hplain
    have hcode := toNat_ofNat_of_not_isSurrogate h hplain.2
    have hspelled : SpellsUnit (Char.ofNat code).toNat [Char.ofNat code] := by
      refine SpellsUnit.plain ?_ ?_ (by omega)
      · intro heq
        exact hquote.1 (by rw [← hcode, heq]; rfl)
      · intro heq
        exact hquote.2 (by rw [← hcode, heq]; rfl)
    rwa [hcode] at hspelled

theorem spells_render {t : JsonText} (h : t.WellFormed) : t.Spells t.render := by
  have hunits : ∀ codes : List Nat, (∀ code ∈ codes, code < 0x110000) →
      SpellsUnits codes (codes.flatMap renderCode) := by
    intro codes hcodes
    induction codes with
    | nil => exact .nil
    | cons code codes ih =>
      rw [List.flatMap_cons]
      exact .cons (spellsUnit_renderCode (hcodes code List.mem_cons_self))
        (ih fun c hc => hcodes c (List.mem_cons_of_mem code hc))
  exact ⟨t.codes, _, hunits t.codes h.bound, h.joined, rfl⟩

theorem joinPairs_of_no_surrogate {units : List Nat} (h : ∀ u ∈ units, isSurrogate u = false) :
    JsonToken.joinPairs units = units := by
  fun_induction JsonToken.joinPairs units with
  | case1 high low rest hpair _ =>
    have hhigh := h high List.mem_cons_self
    simp only [JsonToken.isHigh, JsonToken.isLow, isSurrogate, Bool.and_eq_true, decide_eq_true_iff,
      decide_eq_false_iff_not] at hpair hhigh
    omega
  | case2 high low rest _ ih => rw [ih fun u hu => h u (List.mem_cons_of_mem high hu)]
  | case3 => rfl

theorem isSurrogate_toNat (c : Char) : isSurrogate c.toNat = false := by
  have hvalid : c.toNat.isValidChar := c.valid
  simp only [Nat.isValidChar] at hvalid
  simp only [isSurrogate, decide_eq_false_iff_not]
  omega

theorem ofString_wellFormed (s : String) : (ofString s).WellFormed := by
  constructor
  · intro code hcode
    obtain ⟨c, -, rfl⟩ := List.mem_map.mp hcode
    have hvalid : c.toNat.isValidChar := c.valid
    simp only [Nat.isValidChar] at hvalid
    omega
  · apply joinPairs_of_no_surrogate
    intro code hcode
    obtain ⟨c, -, rfl⟩ := List.mem_map.mp hcode
    exact isSurrogate_toNat c

theorem toString?_ofString (s : String) : (ofString s).toString? = some s := by
  have hnone : (ofString s).codes.any isSurrogate = false := by
    simp only [ofString, List.any_map, List.any_eq_false, Function.comp_apply, isSurrogate_toNat]
    simp
  have hchars : (ofString s).codes.map Char.ofNat = s.toList := by
    simp only [ofString, List.map_map, Function.comp_def, Char.ofNat_toNat, List.map_id']
  rw [toString?, hnone, hchars, String.ofList_toList]
  rfl

end JsonText

/-! ### Documents -/

namespace Json

mutual

def WellFormed : Json → Prop
  | number n => n.WellFormed
  | string t => t.WellFormed
  | array items => ItemsWellFormed items
  | object entries => EntriesWellFormed entries
  | _ => True

def ItemsWellFormed : List Json → Prop
  | [] => True
  | v :: vs => v.WellFormed ∧ ItemsWellFormed vs

def EntriesWellFormed : List (JsonText × Json) → Prop
  | [] => True
  | (t, v) :: es => t.WellFormed ∧ v.WellFormed ∧ EntriesWellFormed es

end

theorem entriesWellFormed_iff {entries : List (JsonText × Json)} :
    EntriesWellFormed entries ↔ ∀ e ∈ entries, e.1.WellFormed ∧ e.2.WellFormed := by
  induction entries with
  | nil => simp [EntriesWellFormed]
  | cons e entries ih => simp only [EntriesWellFormed, List.forall_mem_cons, ih, and_assoc]

theorem padded_self {spells : List Char → Prop} {w : List Char} (h : spells w) :
    Padded spells w :=
  ⟨[], w, [], by simp [Blank], h, by simp [Blank], by simp⟩

mutual

theorem spells_renderChars : ∀ j : Json, j.WellFormed → j.Spells j.renderChars
  | null, _ => rfl
  | bool true, _ => rfl
  | bool false, _ => rfl
  | number _, h => JsonNumber.spells_render h
  | string _, h => JsonText.spells_render h
  | array items, h => ⟨_, spellsItems_render items h, rfl⟩
  | object entries, h => ⟨_, spellsEntries_render entries h, rfl⟩

theorem spellsItems_render : ∀ items : List Json, ItemsWellFormed items →
    SpellsItems items (separated (renderItems items))
  | [], _ => by simp [SpellsItems, Blank, renderItems, separated]
  | [v], h => padded_self (spells_renderChars v h.1)
  | v :: w :: vs, h =>
    ⟨_, _, padded_self (spells_renderChars v h.1), spellsItems_render (w :: vs) h.2, rfl⟩

theorem spellsEntries_render : ∀ entries : List (JsonText × Json), EntriesWellFormed entries →
    SpellsEntries entries (separated (renderEntries entries))
  | [], _ => by simp [SpellsEntries, Blank, renderEntries, separated]
  | [(_, v)], h => ⟨_, _, padded_self (JsonText.spells_render h.1),
      padded_self (spells_renderChars v h.2.1), rfl⟩
  | (_, v) :: e :: es, h => ⟨_, _, ⟨_, _, padded_self (JsonText.spells_render h.1),
      padded_self (spells_renderChars v h.2.1), rfl⟩, spellsEntries_render (e :: es) h.2.2, rfl⟩

end

theorem written_render {j : Json} (h : j.WellFormed) : j.Written j.render := by
  rw [Written, render, String.toList_ofList]
  exact padded_self (spells_renderChars j h)

/-- What is printed is parsed as the document it was printed from. -/
theorem parse_render {j : Json} (h : j.WellFormed) : parse j.render = some j :=
  parse_of_written (written_render h)

end Json

end DensityClustering
