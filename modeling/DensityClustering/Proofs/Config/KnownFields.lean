import DensityClustering.Proofs.Config.Fields
import DensityClustering.Proofs.Json.Printing

/-!
What settings are read from an object depends on the values of its known fields alone: not on their
order, on blanks and escapes, or on fields that are not known. A missing field stands for its
default, and a list is read like the object that names its values. Only the names must be texts: an
object with a surrogate that stands alone in one of its names is not read at all.
-/

namespace DensityClustering

namespace Json

variable {before after : List (JsonText × Json)} {e : JsonText × Json} {name : String}

theorem lookup_insert_of_ne (h : ¬ isNamed name e = true) :
    lookup (before ++ e :: after) name = lookup (before ++ after) name := by
  simp only [lookup, List.find?_append, List.find?_cons_of_neg h]

theorem lookup_insert_of_none (h : isNamed name e = true)
    (hnone : lookup (before ++ after) name = none) :
    lookup (before ++ e :: after) name = some e.2 := by
  have hbefore : before.find? (isNamed name) = none := by
    rw [lookup, Option.map_eq_none_iff, List.find?_append, Option.or_eq_none_iff] at hnone
    exact hnone.1
  simp only [lookup, List.find?_append, hbefore, Option.none_or, List.find?_cons_of_pos h,
    Option.map_some]

theorem legible_insert_iff : Legible (before ++ e :: after) ↔
    e.1.toString? ≠ none ∧ Legible (before ++ after) := by
  simp only [Legible, List.mem_append, List.mem_cons]
  constructor
  · exact fun h => ⟨h e (.inr (.inl rfl)), fun f hf => h f (hf.imp id .inr)⟩
  · rintro ⟨he, h⟩ f (hf | rfl | hf)
    · exact h f (.inl hf)
    · exact he
    · exact h f (.inr hf)

theorem atMostOnce_insert_of_ne (h : ¬ isNamed name e = true) :
    AtMostOnce (before ++ e :: after) name ↔ AtMostOnce (before ++ after) name := by
  simp only [AtMostOnce, List.filter_append, List.filter_cons_of_neg h]

theorem atMostOnce_of_insert (h : AtMostOnce (before ++ e :: after) name) :
    AtMostOnce (before ++ after) name := by
  have hsub : (before ++ after).Sublist (before ++ e :: after) :=
    (List.sublist_cons_self e after).append_left before
  exact Nat.le_trans (hsub.filter (isNamed name)).length_le h

/-- An entry with a name that is there at most once is the only one with it. -/
theorem lookup_eq_none_of_insert (hname : isNamed name e = true)
    (h : AtMostOnce (before ++ e :: after) name) : lookup (before ++ after) name = none := by
  unfold AtMostOnce at h
  rw [List.filter_append, List.filter_cons_of_pos hname, List.length_append, List.length_cons] at h
  have hnil : (before ++ after).filter (isNamed name) = [] := by
    apply List.eq_nil_of_length_eq_zero
    rw [List.filter_append, List.length_append]
    omega
  rw [lookup_eq_head?, hnil]
  rfl

end Json

namespace RunConfig

/-- The text is an object with these entries. Their names are texts, and each known field is there at
most once. -/
structure Describes (entries : List (JsonText × Json)) (text : String) : Prop where
  written : (Json.object entries).Written text
  legible : Json.Legible entries
  once : ∀ name ∈ fieldNames, Json.AtMostOnce entries name

/-- The name is a text, but not that of a known field. -/
def IsUnknown (t : JsonText) : Prop := ∃ name, t.toString? = some name ∧ name ∉ fieldNames

theorem validate_default : default.validate = .ok default := by
  have hnone : default.fault? = none := by decide +kernel
  rw [validate, hnone]

/-- The entry gives the default of its field. -/
def IsDefault (e : JsonText × Json) : Prop := ofJson (.object [e]) = some default

/-- Each entry of the object that is printed for the default settings gives a default. -/
theorem isDefault_of_mem {entries : List (JsonText × Json)} (h : default.toJson = .object entries) :
    ∀ e ∈ entries, IsDefault e := by
  unfold IsDefault
  cases h
  decide +kernel

theorem ofJson_object {entries : List (JsonText × Json)} (hlegible : Json.Legible entries)
    (honce : ∀ name ∈ fieldNames, Json.AtMostOnce entries name) :
    ofJson (.object entries) = ofFields (fieldNames.map (Json.lookup entries)) := by
  rw [ofJson, Json.fields?_object hlegible honce]
  rfl

/-- The outcome depends on the document only by the settings it gives. -/
theorem read_congr {j j' : Json} {text text' : String} (h : j.Written text) (h' : j'.Written text')
    (heq : ofJson j' = ofJson j) : read text' = read text := by
  simp only [read, Json.parse_of_written h, Json.parse_of_written h', Option.bind_some, heq]

theorem read_of_not_legible {entries : List (JsonText × Json)} {text : String}
    (h : (Json.object entries).Written text) (hnot : ¬ Json.Legible entries) :
    read text = .error .unreadable := by
  rw [read, Json.parse_of_written h, Option.bind_some, ofJson, Json.fields?_of_not_legible hnot]
  rfl

/-- An entry whose value is read as the default can be left out. -/
theorem orDefault_lookup_insert {α : Type} {read : Json → Option α} {d : α}
    {before after : List (JsonText × Json)} {e : JsonText × Json} {name : String}
    (h : Json.orDefault read d (Json.lookup [e] name) = some d)
    (honce : Json.AtMostOnce (before ++ e :: after) name) :
    Json.orDefault read d (Json.lookup (before ++ e :: after) name) =
      Json.orDefault read d (Json.lookup (before ++ after) name) := by
  by_cases hname : Json.isNamed name e = true
  · have hnone := Json.lookup_eq_none_of_insert hname honce
    have halone : Json.lookup [e] name = some e.2 := by
      rw [Json.lookup, List.find?_cons_of_pos hname]
      rfl
    rw [halone] at h
    rw [Json.lookup_insert_of_none hname hnone, hnone, h]
    rfl
  · rw [Json.lookup_insert_of_ne hname]

theorem ofFields_lookup_insert {before after : List (JsonText × Json)} {e : JsonText × Json}
    (h : ofFields (fieldNames.map (Json.lookup [e])) = some default)
    (honce : ∀ name ∈ fieldNames, Json.AtMostOnce (before ++ e :: after) name) :
    ofFields (fieldNames.map (Json.lookup (before ++ e :: after))) =
      ofFields (fieldNames.map (Json.lookup (before ++ after))) := by
  simp only [fieldNames, List.forall_mem_cons, List.not_mem_nil, false_implies, implies_true,
    and_true] at honce
  obtain ⟨hdistance, howners, hthreshold, hkind, hmeasure⟩ := honce
  simp only [fieldNames, List.map_cons, List.map_nil, ofFields, Option.bind_eq_bind,
    Option.bind_eq_some_iff, Option.pure_def] at h
  obtain ⟨distance, h₁, owners, h₂, threshold, h₃, kind, h₄, measure, h₅, heq⟩ := h
  cases heq
  simp only [fieldNames, List.map_cons, List.map_nil, ofFields,
    orDefault_lookup_insert h₁ hdistance, orDefault_lookup_insert h₂ howners,
    orDefault_lookup_insert h₃ hthreshold, orDefault_lookup_insert h₄ hkind,
    orDefault_lookup_insert h₅ hmeasure]

theorem read_of_lookup {entries entries' : List (JsonText × Json)} {text text' : String}
    (h : Describes entries text) (h' : Describes entries' text')
    (heq : ∀ name ∈ fieldNames, Json.lookup entries' name = Json.lookup entries name) :
    read text' = read text := by
  apply read_congr h.written h'.written
  rw [ofJson_object h.legible h.once, ofJson_object h'.legible h'.once,
    List.map_congr_left heq]

theorem not_isNamed_of_isUnknown {e : JsonText × Json} (h : IsUnknown e.1) {name : String}
    (hname : name ∈ fieldNames) : ¬ Json.isNamed name e = true := by
  obtain ⟨own, hown, hfresh⟩ := h
  rw [Json.isNamed_iff, hown, Option.some.injEq]
  rintro rfl
  exact hfresh hname

/-- A field that is not known can stand anywhere in an object, with any value. -/
theorem describes_insert_iff {before after : List (JsonText × Json)} {e : JsonText × Json}
    (h : IsUnknown e.1) {text text' : String} (hw : (Json.object (before ++ after)).Written text)
    (hw' : (Json.object (before ++ e :: after)).Written text') :
    Describes (before ++ e :: after) text' ↔ Describes (before ++ after) text := by
  obtain ⟨own, hown, -⟩ := id h
  have honce : ∀ name ∈ fieldNames, Json.AtMostOnce (before ++ e :: after) name ↔
      Json.AtMostOnce (before ++ after) name := fun name hname =>
    Json.atMostOnce_insert_of_ne (not_isNamed_of_isUnknown h hname)
  constructor
  · rintro ⟨-, hlegible, hfields⟩
    exact ⟨hw, (Json.legible_insert_iff.mp hlegible).2, fun n hn => (honce n hn).mp (hfields n hn)⟩
  · rintro ⟨-, hlegible, hfields⟩
    exact ⟨hw', Json.legible_insert_iff.mpr ⟨by rw [hown]; exact Option.some_ne_none own, hlegible⟩,
      fun n hn => (honce n hn).mpr (hfields n hn)⟩

/-- Let a text be an object that has each known field at most once, and whose names are texts. The
settings that are read, or the error, are those of every other such object with the same values of
the known fields; of every text with the same entries in any order; of the object with a field more
or less that is not known, whatever its value; of the object without a field that is given its
default; and of the list of the values, if these are the first known fields. -/
theorem read_known_fields_only {entries : List (JsonText × Json)} {text : String}
    (h : Describes entries text) :
    (∀ entries' text', Describes entries' text' →
      (∀ name ∈ fieldNames, Json.lookup entries' name = Json.lookup entries name) →
      read text' = read text) ∧
    (∀ entries' text', entries.Perm entries' → (Json.object entries').Written text' →
      read text' = read text) ∧
    (∀ before after e text', entries = before ++ after → IsUnknown e.1 →
      (Json.object (before ++ e :: after)).Written text' → read text' = read text) ∧
    (∀ before after e text', entries = before ++ e :: after → IsUnknown e.1 →
      (Json.object (before ++ after)).Written text' → read text' = read text) ∧
    (∀ before after e text', entries = before ++ e :: after → IsDefault e →
      (Json.object (before ++ after)).Written text' → read text' = read text) ∧
    ∀ text', entries.length ≤ 5 →
      entries.map (·.1.toString?) = (fieldNames.take entries.length).map some →
      (Json.array (entries.map (·.2))).Written text' → read text' = read text := by
  refine ⟨?lookup, ?perm, ?insert, ?delete, ?drop, ?list⟩
  case lookup => exact fun _ _ h' heq => read_of_lookup h h' heq
  case perm =>
    intro entries' text' hperm hw
    have h' : Describes entries' text' := ⟨hw, Json.legible_perm hperm h.legible,
      fun name hname => Json.atMostOnce_perm hperm (h.once name hname)⟩
    exact read_of_lookup h h' fun name hname => (Json.lookup_perm hperm (h.once name hname)).symm
  case insert =>
    rintro before after e text' rfl hunknown hw
    have h' := (describes_insert_iff hunknown h.written hw).mpr h
    exact read_of_lookup h h' fun name hname =>
      Json.lookup_insert_of_ne (not_isNamed_of_isUnknown hunknown hname)
  case delete =>
    rintro before after e text' rfl hunknown hw
    have h' := (describes_insert_iff hunknown hw h.written).mp h
    exact read_of_lookup h h' fun name hname =>
      (Json.lookup_insert_of_ne (not_isNamed_of_isUnknown hunknown hname)).symm
  case drop =>
    rintro before after e text' rfl hdefault hw
    obtain ⟨hlegible, hothers⟩ := Json.legible_insert_iff.mp h.legible
    have halone : ofFields (fieldNames.map (Json.lookup [e])) = some default := by
      rw [← ofJson_object (List.forall_mem_singleton.mpr hlegible)
        fun _ _ => List.length_filter_le _ [e]]
      exact hdefault
    apply read_congr h.written hw
    rw [ofJson_object h.legible h.once, ofFields_lookup_insert halone h.once,
      ofJson_object hothers fun name hname => Json.atMostOnce_of_insert (h.once name hname)]
  case list =>
    intro text' hlength hnames hw
    have hfields : Json.fields? fieldNames (.array (entries.map (·.2))) =
        some (fieldNames.map (Json.lookup entries)) := by
      have hle : (entries.map (·.2)).length ≤ fieldNames.length := by rwa [List.length_map]
      rw [Json.map_lookup_of_names (by decide) hnames, Json.fields?, if_pos hle, List.length_map]
    apply read_congr h.written hw
    rw [ofJson_object h.legible h.once, ofJson, hfields]
    rfl

/-- Settings with a note that is not known and nests, and with a default. -/
def noted : List (JsonText × Json) :=
  [(.ofString "note", .array [.object [(⟨[0xD800]⟩, .null)], .array []]),
    (.ofString "max_distance", .number (.ofDouble default.maxDistance)),
    (.ofString "min_owners", .number (.ofNat 3))]

theorem noted_wellFormed : ∀ e ∈ noted, e.1.WellFormed ∧ e.2.WellFormed := by
  have hlone : JsonText.WellFormed ⟨[0xD800]⟩ := ⟨by decide, by decide +kernel⟩
  have hnote : (Json.array [.object [(⟨[0xD800]⟩, .null)], .array []]).WellFormed :=
    ⟨⟨hlone, trivial, trivial⟩, trivial, trivial⟩
  simp only [noted, List.forall_mem_cons, JsonText.ofString_wellFormed, hnote, true_and]
  exact ⟨JsonNumber.ofDouble_wellFormed _, JsonNumber.ofNat_wellFormed 3, nofun⟩

theorem written_of_subset_noted {entries : List (JsonText × Json)} (h : entries ⊆ noted) :
    (Json.object entries).Written (Json.object entries).render :=
  Json.written_render (Json.entriesWellFormed_iff.mpr fun e he => noted_wellFormed e (h he))

/-- The order does not count, and the note can go, as can the default. -/
theorem read_noted_without :
    read (Json.object noted.reverse).render = read (Json.object noted).render ∧
    read (Json.object (noted.eraseIdx 0)).render = read (Json.object noted).render ∧
    read (Json.object (noted.eraseIdx 1)).render = read (Json.object noted).render := by
  have hdescribes : Describes noted (Json.object noted).render :=
    ⟨written_of_subset_noted (List.Subset.refl noted), by unfold Json.Legible; decide +kernel,
      by unfold Json.AtMostOnce; decide +kernel⟩
  obtain ⟨-, hperm, -, hdelete, hdefault, -⟩ := read_known_fields_only hdescribes
  refine ⟨hperm _ _ (List.reverse_perm noted).symm
    (written_of_subset_noted fun e he => List.mem_reverse.mp he), ?_, ?_⟩
  · exact hdelete [] (noted.drop 1) _ _ rfl ⟨"note", by decide +kernel, by decide⟩
      (written_of_subset_noted (List.drop_subset 1 noted))
  · exact hdefault (noted.take 1) (noted.drop 2) _ _ rfl (isDefault_of_mem rfl _ List.mem_cons_self)
      (written_of_subset_noted (show noted.eraseIdx 1 ⊆ noted from List.eraseIdx_subset))

/-- A name with a surrogate that stands alone is no text, so that an object with such a name is not
read, although the field is not one of the known ones. -/
theorem surrogate_name_unreadable :
    (Json.object []).Written "\x7b\x7d" ∧ read "\x7b\x7d" = .ok default ∧
      (Json.object [(⟨[0xD800]⟩, .number (.ofNat 1))]).Written "\x7b\"\\ud800\":1\x7d" ∧
      (∀ name ∈ fieldNames, Json.lookup [(⟨[0xD800]⟩, .number (.ofNat 1))] name = none) ∧
      read "\x7b\"\\ud800\":1\x7d" = .error .unreadable := by
  have hempty : "\x7b\x7d" = (Json.object []).render := by decide +kernel
  have hlone : "\x7b\"\\ud800\":1\x7d" =
      (Json.object [(⟨[0xD800]⟩, .number (.ofNat 1))]).render := by decide +kernel
  rw [hempty, hlone]
  have hwritten : (Json.object [(⟨[0xD800]⟩, .number (.ofNat 1))]).Written
      (Json.object [(⟨[0xD800]⟩, .number (.ofNat 1))]).render :=
    Json.written_render ⟨⟨by decide, by decide +kernel⟩, JsonNumber.ofNat_wellFormed 1, trivial⟩
  have hdefault : (Json.parse (Json.object []).render).bind ofJson = some default := by
    decide +kernel
  refine ⟨Json.written_render trivial, ?_, hwritten, fun name _ => rfl,
    read_of_not_legible hwritten ?_⟩
  · rw [read, hdefault]
    exact validate_default
  · exact fun h => h _ List.mem_cons_self (by decide +kernel)

end RunConfig

end DensityClustering
