import DensityClustering.Json.Parser
import DensityClustering.Proofs.Json.Lexing

/-!
Every text of a document is parsed as that document, however the document nests: its text is read as
its tokens, and the stack of the parser gives it back from them.
-/

namespace DensityClustering

namespace Json

mutual

def tokens : Json → List JsonToken
  | null => [.null]
  | bool b => [.bool b]
  | number n => [.number n]
  | string t => [.string t]
  | array items => .openArray :: (itemTokens items ++ [.closeArray])
  | object entries => .openObject :: (entryTokens entries ++ [.closeObject])

def itemTokens : List Json → List JsonToken
  | [] => []
  | [v] => tokens v
  | v :: w :: vs => tokens v ++ .comma :: itemTokens (w :: vs)

def entryTokens : List (JsonText × Json) → List JsonToken
  | [] => []
  | [(t, v)] => .string t :: .colon :: tokens v
  | (t, v) :: e :: es => .string t :: .colon :: (tokens v ++ .comma :: entryTokens (e :: es))

end

/-! ### From the text to the tokens -/

/-- The texts `spells` are read as the tokens `ts`, whatever stands behind them. -/
def Lexes (spells : List Char → Prop) (ts : List JsonToken) : Prop :=
  ∀ w rest, spells w → JsonToken.EndsNumber rest →
    JsonToken.readAll (w ++ rest) = (JsonToken.readAll rest).map (ts ++ ·)

theorem lexes_of_read {spells : List Char → Prop} {t : JsonToken}
    (h : ∀ w rest, spells w → JsonToken.EndsNumber rest →
      JsonToken.read (w ++ rest) = some (t, rest)) : Lexes spells [t] :=
  fun w rest hw hrest => JsonToken.readAll_of_read (h w rest hw hrest)

theorem endsNumber_of_blank {b rest : List Char} (hb : Blank b) (hrest : JsonToken.EndsNumber rest) :
    JsonToken.EndsNumber (b ++ rest) := by
  cases b with
  | nil => exact hrest
  | cons c b =>
    have hc := JsonToken.isBlank_iff.mp (hb c List.mem_cons_self)
    obtain rfl | rfl | rfl | rfl := hc <;>
      exact JsonToken.endsNumber_cons (by decide) (by decide) (by decide) _

theorem Lexes.padded {spells : List Char → Prop} {ts : List JsonToken} (h : Lexes spells ts) :
    Lexes (Padded spells) ts := by
  rintro _ rest ⟨before, w, after, hbefore, hw, hafter, rfl⟩ hrest
  rw [List.append_assoc, JsonToken.readAll_append_blank hbefore, List.append_assoc,
    h w _ hw (endsNumber_of_blank hafter hrest), JsonToken.readAll_append_blank hafter]

/-- A punctuation mark between two texts. -/
theorem Lexes.separated {first second : List Char → Prop} {ts us : List JsonToken} {c : Char}
    {mark : JsonToken} (hfirst : Lexes first ts) (hsecond : Lexes second us)
    (hmark : ∀ cs, JsonToken.read (c :: cs) = some (mark, cs))
    (hend : ∀ cs, JsonToken.EndsNumber (c :: cs)) {v w rest : List Char} (hv : first v)
    (hw : second w) (hrest : JsonToken.EndsNumber rest) :
    JsonToken.readAll ((v ++ c :: w) ++ rest) =
      (JsonToken.readAll rest).map ((ts ++ mark :: us) ++ ·) := by
  rw [List.append_assoc, List.cons_append, hfirst v _ hv (hend _),
    JsonToken.readAll_of_read (hmark _), hsecond w rest hw hrest]
  simp only [Option.map_map]
  congr 1
  funext vs
  simp only [Function.comp_apply, List.append_assoc, List.cons_append]

theorem endsNumber_comma (cs : List Char) : JsonToken.EndsNumber (',' :: cs) :=
  JsonToken.endsNumber_cons (by decide) (by decide) (by decide) cs

theorem endsNumber_colon (cs : List Char) : JsonToken.EndsNumber (':' :: cs) :=
  JsonToken.endsNumber_cons (by decide) (by decide) (by decide) cs

theorem Lexes.entry {name value : List Char → Prop} {ts us : List JsonToken} (hname : Lexes name ts)
    (hvalue : Lexes value us) : Lexes (SpellsEntry name value) (ts ++ .colon :: us) := by
  rintro _ rest ⟨n, v, hn, hv, rfl⟩ hrest
  exact Lexes.separated hname.padded hvalue.padded (fun _ => rfl) endsNumber_colon hn hv hrest

/-- A text between two brackets. -/
theorem Lexes.enclosed {inner : List Char → Prop} {ts : List JsonToken} (h : Lexes inner ts)
    {first last : Char} {opening closing : JsonToken}
    (hopen : ∀ cs, JsonToken.read (first :: cs) = some (opening, cs))
    (hclose : ∀ cs, JsonToken.read (last :: cs) = some (closing, cs))
    (hend : ∀ cs, JsonToken.EndsNumber (last :: cs)) :
    Lexes (fun cs => ∃ w, inner w ∧ cs = first :: (w ++ [last])) (opening :: (ts ++ [closing])) := by
  rintro _ rest ⟨w, hw, rfl⟩ -
  rw [List.cons_append, List.append_assoc, List.singleton_append,
    JsonToken.readAll_of_read (hopen _), h w _ hw (hend _), JsonToken.readAll_of_read (hclose _)]
  simp only [Option.map_map]
  congr 1
  funext vs
  simp only [Function.comp_apply, List.append_assoc, List.cons_append, List.nil_append]

theorem lexes_blank : Lexes Blank [] := by
  intro w rest hw _
  rw [JsonToken.readAll_append_blank hw]
  exact (Option.map_id' ..).symm

theorem lexes_name (t : JsonText) : Lexes t.Spells [.string t] :=
  lexes_of_read fun _ rest hw _ => JsonToken.read_string hw rest

mutual

theorem lexes_spells : ∀ j : Json, Lexes j.Spells j.tokens
  | null => lexes_of_read fun w rest hw _ => by
      obtain rfl : w = _ := hw
      rfl
  | bool true => lexes_of_read fun w rest hw _ => by
      obtain rfl : w = _ := hw
      rfl
  | bool false => lexes_of_read fun w rest hw _ => by
      obtain rfl : w = _ := hw
      rfl
  | number n => lexes_of_read fun _ _ hw hrest => JsonToken.read_number hw hrest
  | string t => lexes_name t
  | array items => (lexes_spellsItems items).enclosed (fun _ => rfl) (fun _ => rfl)
      fun cs => JsonToken.endsNumber_cons (by decide) (by decide) (by decide) cs
  | object entries => (lexes_spellsEntries entries).enclosed (fun _ => rfl) (fun _ => rfl)
      fun cs => JsonToken.endsNumber_cons (by decide) (by decide) (by decide) cs

theorem lexes_spellsItems : ∀ items : List Json, Lexes (SpellsItems items) (itemTokens items)
  | [] => lexes_blank
  | [v] => (lexes_spells v).padded
  | v :: w :: vs => by
    rintro _ rest ⟨first, others, hfirst, hothers, rfl⟩ hrest
    exact Lexes.separated (lexes_spells v).padded (lexes_spellsItems (w :: vs)) (fun _ => rfl)
      endsNumber_comma hfirst hothers hrest

theorem lexes_spellsEntries :
    ∀ entries : List (JsonText × Json), Lexes (SpellsEntries entries) (entryTokens entries)
  | [] => lexes_blank
  | [(t, v)] => (lexes_name t).entry (lexes_spells v)
  | (t, v) :: e :: es => by
    rintro _ rest ⟨first, others, hfirst, hothers, rfl⟩ hrest
    exact Lexes.separated ((lexes_name t).entry (lexes_spells v)) (lexes_spellsEntries (e :: es))
      (fun _ => rfl) endsNumber_comma hfirst hothers hrest

end

theorem readAll_written {j : Json} {text : String} (h : j.Written text) :
    JsonToken.readAll text.toList = some j.tokens := by
  have hread := (lexes_spells j).padded text.toList [] h JsonToken.endsNumber_nil
  simpa only [List.append_nil, JsonToken.readAll_nil, Option.map_some] using hread

/-! ### From the tokens to the document -/

/-- The state after a run of tokens, none if one of them may not stand where it does. -/
abbrev run (s : JsonState) (ts : List JsonToken) : Option JsonState := ts.foldlM JsonState.step s

theorem run_cons {s s' : JsonState} {t : JsonToken} (h : s.step t = some s')
    (ts : List JsonToken) : run s (t :: ts) = run s' ts := by
  rw [run, List.foldlM_cons, h]
  rfl

theorem tokens_head (j : Json) : ∃ t ts, j.tokens = t :: ts ∧ t ≠ .closeArray := by
  cases j <;> exact ⟨_, _, by rw [tokens], by nofun⟩

/-- The first item of an array is read like any other. -/
theorem run_firstItem (v : Json) (vs : List Json) (stack : List JsonFrame) (ts : List JsonToken) :
    run (.firstItem stack) (itemTokens (v :: vs) ++ ts) =
      run (.value (.array [] :: stack)) (itemTokens (v :: vs) ++ ts) := by
  have hstep : ∀ t, t ≠ JsonToken.closeArray → JsonState.step (.firstItem stack) t =
      JsonState.step (.value (.array [] :: stack)) t := by
    intro t ht
    cases t with
    | closeArray => exact absurd rfl ht
    | _ => rfl
  obtain ⟨t, us, htokens, ht⟩ : ∃ t us, itemTokens (v :: vs) = t :: us ∧ t ≠ .closeArray := by
    obtain ⟨t, us, htokens, ht⟩ := v.tokens_head
    cases vs with
    | nil => exact ⟨t, us, htokens, ht⟩
    | cons w vs => exact ⟨t, _, by rw [itemTokens, htokens, List.cons_append], ht⟩
  simp only [run, htokens, List.cons_append, List.foldlM_cons, hstep t ht]

/-- The first entry of an object is read like any other. -/
theorem run_firstName (e : JsonText × Json) (es : List (JsonText × Json)) (stack : List JsonFrame)
    (ts : List JsonToken) :
    run (.firstName stack) (entryTokens (e :: es) ++ ts) =
      run (.name [] stack) (entryTokens (e :: es) ++ ts) := by
  obtain ⟨us, htokens⟩ : ∃ us, entryTokens (e :: es) = .string e.1 :: us := by
    cases es with
    | nil => exact ⟨_, rfl⟩
    | cons f es => exact ⟨_, rfl⟩
  rw [htokens]
  rfl

mutual

/-- A value is put on top of what is still open. -/
theorem run_tokens : ∀ (j : Json) (stack : List JsonFrame) (ts : List JsonToken),
    run (.value stack) (j.tokens ++ ts) = run (.done j stack) ts
  | null, _, _ => rfl
  | bool _, _, _ => rfl
  | number _, _, _ => rfl
  | string _, _, _ => rfl
  | array [], _, _ => rfl
  | array (v :: vs), stack, ts => by
    rw [tokens, List.cons_append, List.append_assoc, run_cons (by rfl), run_firstItem]
    exact run_itemTokens (v :: vs) (List.cons_ne_nil _ _) [] stack ts
  | object [], _, _ => rfl
  | object (e :: es), stack, ts => by
    rw [tokens, List.cons_append, List.append_assoc, run_cons (by rfl), run_firstName]
    exact run_entryTokens (e :: es) (List.cons_ne_nil _ _) [] stack ts

/-- The items of an array up to its end, after those that were read before. -/
theorem run_itemTokens : ∀ (items : List Json), items ≠ [] → ∀ (before : List Json)
    (stack : List JsonFrame) (ts : List JsonToken),
    run (.value (.array before :: stack)) (itemTokens items ++ .closeArray :: ts) =
      run (.done (.array (before.reverse ++ items)) stack) ts
  | [], h, _, _, _ => absurd rfl h
  | [v], _, before, stack, ts => by
    rw [itemTokens, run_tokens v, run_cons (by rfl), List.reverse_cons]
  | v :: w :: vs, _, before, stack, ts => by
    rw [itemTokens, List.append_assoc, List.cons_append, run_tokens v, run_cons (by rfl),
      run_itemTokens (w :: vs) (List.cons_ne_nil _ _) (v :: before) stack ts, List.reverse_cons,
      List.append_assoc]
    rfl

/-- The entries of an object up to its end, after those that were read before. -/
theorem run_entryTokens : ∀ (entries : List (JsonText × Json)), entries ≠ [] →
    ∀ (before : List (JsonText × Json)) (stack : List JsonFrame) (ts : List JsonToken),
    run (.name before stack) (entryTokens entries ++ .closeObject :: ts) =
      run (.done (.object (before.reverse ++ entries)) stack) ts
  | [], h, _, _, _ => absurd rfl h
  | [(t, v)], _, before, stack, ts => by
    rw [entryTokens, List.cons_append, List.cons_append, run_cons (by rfl), run_cons (by rfl),
      run_tokens v, run_cons (by rfl), List.reverse_cons]
  | (t, v) :: e :: es, _, before, stack, ts => by
    rw [entryTokens, List.cons_append, List.cons_append, List.append_assoc, List.cons_append,
      run_cons (by rfl), run_cons (by rfl), run_tokens v, run_cons (by rfl),
      run_entryTokens (e :: es) (List.cons_ne_nil _ _) ((t, v) :: before) stack ts,
      List.reverse_cons, List.append_assoc]
    rfl

end

theorem ofTokens_tokens (j : Json) : ofTokens j.tokens = some j := by
  have hrun := run_tokens j [] []
  rw [List.append_nil] at hrun
  rw [ofTokens]
  exact congrArg (·.bind JsonState.result) hrun

theorem parse_of_written {j : Json} {text : String} (h : j.Written text) :
    parse text = some j := by
  rw [parse, readAll_written h, Option.bind_some, ofTokens_tokens]

end Json

end DensityClustering
