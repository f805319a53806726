import DensityClustering.Proofs.Config.Fields
import DensityClustering.Proofs.Json.Printing
import DensityClustering.Proofs.Json.Soundness
import DensityClustering.Proofs.Scalar.Comparison

/-!
The texts that are read as settings give the valid settings and no others. What is read has passed
the checks, and valid settings are read back from the text that is printed for them, as long as their
doubles are; settings that are not valid are refused for the first fault that they have.
-/

namespace DensityClustering

/-- The digits that are printed for a double are read as that double. -/
def JsonNumber.ReadsBack (x : Float) : Prop := (JsonNumber.ofDouble x).toDouble? = some x

namespace Json

/-! ### Objects from their fields -/

theorem wellFormed_ofFields {fields : List (String × Json)} (h : ∀ f ∈ fields, f.2.WellFormed) :
    (ofFields fields).WellFormed := by
  refine entriesWellFormed_iff.mpr fun e he => ?_
  obtain ⟨f, hf, rfl⟩ := List.mem_map.mp he
  exact ⟨JsonText.ofString_wellFormed f.1, h f hf⟩

/-- All fields of an object are read when no name is repeated. -/
theorem fields?_ofFields {names : List String} (hnodup : names.Nodup)
    {fields : List (String × Json)} (hnames : fields.map (·.1) = names) :
    fields? names (ofFields fields) = some (fields.map fun f => some f.2) := by
  let entries := fields.map fun f => (JsonText.ofString f.1, f.2)
  have htexts : entries.map (·.1.toString?) = names.map some := by
    simp only [entries, ← hnames, List.map_map, Function.comp_def, JsonText.toString?_ofString]
  have hlegible : Legible entries := by
    intro e he
    obtain ⟨f, -, rfl⟩ := List.mem_map.mp he
    rw [JsonText.toString?_ofString]
    exact Option.some_ne_none f.1
  have hlength : entries.length = names.length := by
    simp only [entries, ← hnames, List.length_map]
  calc fields? names (object entries)
      = some (names.map (lookup entries)) :=
        fields?_object hlegible fun name _ => atMostOnce_of_nodup hnodup htexts name
    _ = some ((entries.map (·.2)).map some) := by
        rw [map_lookup_of_names hnodup (by rw [hlength, List.take_length, htexts]), hlength,
          Nat.sub_self, List.replicate_zero, List.append_nil]
    _ = some (fields.map fun f => some f.2) := by
        simp only [entries, List.map_map, Function.comp_def]

theorem variant?_ofString (name : String) :
    variant? (string (.ofString name)) = some (name, none) := by
  rw [variant?, JsonText.toString?_ofString]
  rfl

theorem variant?_ofFields (name : String) (v : Json) :
    variant? (ofFields [(name, v)]) = some (name, some v) := by
  show (JsonText.ofString name).toString?.map _ = _
  rw [JsonText.toString?_ofString]
  rfl

end Json

open JsonNumber (largestWord ReadsBack)

theorem ClusterKind.ofJson_toJson (k : ClusterKind) : ofJson k.toJson = some k := by
  cases k <;> rw [ofJson, toJson, Json.variant?_ofString] <;> rfl

theorem ClusterKind.wellFormed_toJson (k : ClusterKind) : k.toJson.WellFormed := by
  cases k <;> exact JsonText.ofString_wellFormed _

namespace CoordDistance

/-- The doubles that tell how to measure. -/
def doubles : CoordDistance → List Float
  | euclidean => []
  | haversine radius => [radius]

theorem ofJson_toJson {d : CoordDistance} (h : ∀ x ∈ d.doubles, ReadsBack x) :
    ofJson d.toJson = some d := by
  cases d with
  | euclidean =>
    rw [ofJson, toJson, Json.variant?_ofString]
    rfl
  | haversine radius =>
    have hfields : Json.fields? ["radius"] (.ofFields [("radius", .number (.ofDouble radius))]) =
        some [some (.number (.ofDouble radius))] := Json.fields?_ofFields (by decide) rfl
    have hradius : (JsonNumber.ofDouble radius).toDouble? = some radius :=
      h radius List.mem_cons_self
    rw [ofJson, toJson, Json.variant?_ofFields]
    simp only [Option.bind_eq_bind, Option.bind_some, hfields, Json.required, Json.toDouble?,
      hradius, Option.map_some]

theorem wellFormed_toJson (d : CoordDistance) : d.toJson.WellFormed := by
  cases d with
  | euclidean => exact JsonText.ofString_wellFormed _
  | haversine radius =>
    have hradius : (Json.ofFields [("radius", .number (.ofDouble radius))]).WellFormed :=
      Json.wellFormed_ofFields (List.forall_mem_singleton.mpr (JsonNumber.ofDouble_wellFormed radius))
    exact Json.wellFormed_ofFields (List.forall_mem_singleton.mpr hradius)

end CoordDistance

namespace RunConfig

/-- What the rules for the settings say. -/
structure Valid (c : RunConfig) : Prop where
  distance_finite : c.maxDistance.isFinite = true
  distance_nonneg : 0 ≤ c.maxDistance
  owners_pos : 0 < c.minOwners
  threshold_pos : 0 < c.compressionThreshold
  radius_pos : ∀ r, c.coordDistance = .haversine r → r.isFinite = true ∧ 0 < r

/-- The integers are 64-bit words. -/
structure Fits (c : RunConfig) : Prop where
  owners_le : c.minOwners ≤ largestWord
  threshold_le : c.compressionThreshold ≤ largestWord

def doubles (c : RunConfig) : List Float := c.maxDistance :: c.coordDistance.doubles

theorem Valid.finite {c : RunConfig} (h : c.Valid) : ∀ x ∈ c.doubles, x.isFinite = true := by
  intro x hx
  obtain rfl | hx := List.mem_cons.mp hx
  · exact h.distance_finite
  · cases hd : c.coordDistance with
    | euclidean =>
      rw [hd] at hx
      cases hx
    | haversine radius =>
      rw [hd] at hx
      obtain rfl := List.mem_singleton.mp hx
      exact (h.radius_pos x hd).1

theorem validate_eq_ok {c c' : RunConfig} (h : c.validate = .ok c') : c' = c := by
  unfold validate at h
  split at h
  · cases h
  · exact (Except.ok.inj h).symm

theorem hasValidRadius_iff {c : RunConfig} : c.hasValidRadius = true ↔
    ∀ r, c.coordDistance = .haversine r → r.isFinite = true ∧ 0 < r := by
  unfold hasValidRadius
  cases c.coordDistance with
  | euclidean => simp
  | haversine radius => simp

/-- The check is a negated comparison; a number that is not below zero is at least zero. -/
theorem distance_passes_iff {x : Float} : ¬(!x.isFinite || decide (x < 0)) = true ↔
    x.isFinite = true ∧ 0 ≤ x := by
  simp only [Bool.or_eq_true, Bool.not_eq_true', decide_eq_true_iff, not_or, Bool.not_eq_false]
  constructor
  · intro ⟨hfinite, hlt⟩
    have hnumber := Comparison.isNaN_of_isFinite hfinite
    exact ⟨hfinite, Comparison.le_of_not_lt hnumber (by decide +kernel) hlt⟩
  · intro ⟨hfinite, hle⟩
    exact ⟨hfinite, fun hlt => Comparison.not_le_of_lt hlt hle⟩

theorem check_eq_none_iff {p : Prop} [Decidable p] {fault : Fault} {rest : Option Fault} :
    (if p then some fault else rest) = none ↔ ¬p ∧ rest = none := by
  by_cases h : p
  · simp only [h, if_true, reduceCtorEq, not_true, false_and]
  · simp only [h, if_false, not_false_iff, true_and]

/-- The settings pass all checks if they follow the rules. -/
theorem fault?_eq_none_iff {c : RunConfig} : c.fault? = none ↔ c.Valid := by
  simp only [fault?, check_eq_none_iff, distance_passes_iff, Bool.not_eq_true', Bool.not_eq_false,
    hasValidRadius_iff, and_true]
  constructor
  · intro ⟨⟨hfinite, hnonneg⟩, howners, hthreshold, hradius⟩
    exact ⟨hfinite, hnonneg, Nat.pos_of_ne_zero howners, Nat.pos_of_ne_zero hthreshold, hradius⟩
  · intro h
    exact ⟨⟨h.distance_finite, h.distance_nonneg⟩, Nat.ne_of_gt h.owners_pos,
      Nat.ne_of_gt h.threshold_pos, h.radius_pos⟩

theorem validate_eq_ok_iff {c : RunConfig} : c.validate = .ok c ↔ c.Valid := by
  rw [← fault?_eq_none_iff, validate]
  cases c.fault? <;> simp

theorem validate_error {c : RunConfig} {e : ReadError} (h : c.validate = .error e) :
    ∃ fault, c.fault? = some fault ∧ e = .invalid fault := by
  unfold validate at h
  split at h
  · next fault hfault => exact ⟨fault, hfault, (Except.error.inj h).symm⟩
  · cases h

theorem ofJson_toJson {c : RunConfig} (hfits : c.Fits) (h : ∀ x ∈ c.doubles, ReadsBack x) :
    ofJson c.toJson = some c := by
  have hfields : Json.fields? fieldNames c.toJson =
      some [some (.number (.ofDouble c.maxDistance)), some (.number (.ofNat c.minOwners)),
        some (.number (.ofNat c.compressionThreshold)), some c.kind.toJson,
        some c.coordDistance.toJson] := Json.fields?_ofFields (by decide) rfl
  have hdistance : (JsonNumber.ofDouble c.maxDistance).toDouble? = some c.maxDistance :=
    h c.maxDistance List.mem_cons_self
  have hmeasure := CoordDistance.ofJson_toJson fun x hx => h x (List.mem_cons_of_mem _ hx)
  rw [ofJson, hfields]
  simp only [Option.bind_eq_bind, Option.bind_some, ofFields,
    Json.orDefault, Json.toDouble?, Json.toWord?, hdistance, JsonNumber.toWord?_ofNat hfits.owners_le,
    JsonNumber.toWord?_ofNat hfits.threshold_le, ClusterKind.ofJson_toJson, hmeasure,
    Option.pure_def]

theorem wellFormed_toJson (c : RunConfig) : c.toJson.WellFormed := by
  apply Json.wellFormed_ofFields
  simp only [List.mem_cons, List.not_mem_nil, or_false, forall_eq_or_imp, forall_eq]
  exact ⟨JsonNumber.ofDouble_wellFormed _, JsonNumber.ofNat_wellFormed _,
    JsonNumber.ofNat_wellFormed _, ClusterKind.wellFormed_toJson _, CoordDistance.wellFormed_toJson _⟩

/-- What is printed for settings is read as those settings, and then checked. -/
theorem read_render_toJson {c : RunConfig} (hfits : c.Fits) (h : ∀ x ∈ c.doubles, ReadsBack x) :
    read c.toJson.render = c.validate := by
  rw [read, Json.parse_render (wellFormed_toJson c), Option.bind_some, ofJson_toJson hfits h]

theorem orDefault_toWord?_le {d n : Nat} (hd : d ≤ largestWord) {v : Option Json}
    (h : Json.orDefault Json.toWord? d v = some n) : n ≤ largestWord := by
  cases v with
  | none => exact Option.some.inj h ▸ hd
  | some v =>
    cases v with
    | number m =>
      change m.toWord? = some n at h
      unfold JsonNumber.toWord? at h
      split at h
      · cases h
      · split at h
        · next hle => exact Option.some.inj h ▸ hle
        · cases h
    | _ => cases h

theorem fits_of_ofJson {j : Json} {c : RunConfig} (h : ofJson j = some c) : c.Fits := by
  obtain ⟨fields, -, hfields⟩ := Option.bind_eq_some_iff.mp h
  unfold ofFields at hfields
  split at hfields
  · simp only [Option.bind_eq_bind, Option.bind_eq_some_iff, Option.pure_def] at hfields
    obtain ⟨distance, -, owners, howners, threshold, hthreshold, kind, -, measure, -, heq⟩ := hfields
    cases heq
    exact ⟨orDefault_toWord?_le (by decide) howners, orDefault_toWord?_le (by decide) hthreshold⟩
  · cases hfields

/-- Settings are read from the texts of the documents that give them, if they are valid. -/
theorem read_eq_ok_iff {text : String} {c : RunConfig} :
    read text = .ok c ↔ (∃ j : Json, j.Written text ∧ ofJson j = some c) ∧ c.Valid := by
  simp only [← Json.parse_eq_some_iff, ← Option.bind_eq_some_iff, ← validate_eq_ok_iff]
  unfold read
  split
  · next hnone => simp only [hnone, reduceCtorEq, false_and]
  · next c' hc' =>
    rw [hc', Option.some.injEq]
    constructor
    · intro h
      obtain rfl := validate_eq_ok h
      exact ⟨rfl, h⟩
    · rintro ⟨rfl, h⟩
      exact h

/-- Whatever text is read as settings gives valid ones. Of settings whose finite doubles are read
back, the text that is printed for them gives the settings themselves when they are valid, and when
they are not, but have no double that is not finite, it is refused for their first fault. -/
theorem read_exactly_valid :
    (∀ (text : String) (c : RunConfig), read text = .ok c →
      c.validate = .ok c ∧ c.Valid ∧ c.Fits) ∧
    ∀ c : RunConfig, c.Fits → (∀ x ∈ c.doubles, x.isFinite = true → ReadsBack x) →
      (c.validate = .ok c → read c.toJson.render = .ok c) ∧
      ∀ e, (∀ x ∈ c.doubles, x.isFinite = true) → c.validate = .error e →
        read c.toJson.render = .error e ∧ ∃ fault, c.fault? = some fault ∧ e = .invalid fault := by
  refine ⟨fun text c h => ?_, fun c hfits hback => ⟨fun h => ?_, fun e hfinite h => ?_⟩⟩
  · obtain ⟨⟨j, -, hj⟩, hvalid⟩ := read_eq_ok_iff.mp h
    exact ⟨validate_eq_ok_iff.mpr hvalid, hvalid, fits_of_ofJson hj⟩
  · have hfinite := (validate_eq_ok_iff.mp h).finite
    rw [read_render_toJson hfits fun x hx => hback x hx (hfinite x hx), h]
  · rw [read_render_toJson hfits fun x hx => hback x hx (hfinite x hx)]
    exact ⟨h, validate_error h⟩

/-- Words up to the largest and a negative zero come back, on a sphere as in the plane, and a
distance below zero is refused. -/
theorem read_farthest_sphere_and_negative :
    read (RunConfig.toJson ⟨-0.0, 18446744073709551615, 1, .preProcess, .haversine 6371008.8⟩).render =
      .ok ⟨-0.0, 18446744073709551615, 1, .preProcess, .haversine 6371008.8⟩ ∧
    read (RunConfig.toJson ⟨-1.5, 2, 200, .merging, .euclidean⟩).render =
      .error (.invalid .maxDistance) := by
  have hsphere := (read_exactly_valid.2
    ⟨-0.0, 18446744073709551615, 1, .preProcess, .haversine 6371008.8⟩
    ⟨by decide, by decide⟩ (by unfold ReadsBack; decide +kernel)).1 (by decide +kernel)
  have hnegative := (read_exactly_valid.2 ⟨-1.5, 2, 200, .merging, .euclidean⟩
    ⟨by decide, by decide⟩ (by unfold ReadsBack; decide +kernel)).2 (.invalid .maxDistance)
    (by decide +kernel) (by decide +kernel)
  exact ⟨hsphere, hnegative.1⟩

end RunConfig

end DensityClustering
