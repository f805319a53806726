import DensityClustering.Config.Basic
import DensityClustering.Json.Number
import DensityClustering.Json.Parser
import DensityClustering.Json.Printer

/-!
Settings as JSON documents. Of an object only the known fields are read, each at most once; a list
gives the fields in their order. Settings of a run take defaults for what is missing, all others
must be complete.
-/

namespace DensityClustering

namespace Json

def toDouble? : Json → Option Float
  | number n => n.toDouble?
  | _ => none

/-- The unsigned 64-bit integer that a number document stands for. -/
def toWord? : Json → Option Nat
  | number n => n.toWord?
  | _ => none

/-- The name and the content of a variant: a string has no content, an object has one entry. -/
def variant? : Json → Option (String × Option Json)
  | string t => t.toString?.map fun name => (name, none)
  | object [(t, v)] => t.toString?.map fun name => (name, some v)
  | _ => none

/-- A variant without content, which may also be written out as null. -/
def isUnit : Option Json → Bool
  | none => true
  | some null => true
  | _ => false

/-- The entries of an object by their names, all of which must be texts. -/
def named (entries : List (JsonText × Json)) : Option (List (String × Json)) :=
  entries.mapM fun (t, v) => t.toString?.map fun name => (name, v)

/-- The value of the field `name`, itself none when it is missing; no answer when it is repeated. -/
def field? (entries : List (String × Json)) (name : String) : Option (Option Json) :=
  match entries.filter fun e => e.1 == name with
  | [] => some none
  | [e] => some (some e.2)
  | _ => none

/-- The values of the named fields, in the order of the names. An object may miss some, a list may
end early. -/
def fields? (names : List String) : Json → Option (List (Option Json))
  | object entries => do
    let entries ← named entries
    names.mapM (field? entries)
  | array items =>
    if items.length ≤ names.length then
      some (items.map some ++ List.replicate (names.length - items.length) none)
    else none
  | _ => none

def orDefault {α : Type} (read : Json → Option α) (default : α) : Option Json → Option α
  | none => some default
  | some v => read v

def required {α : Type} (read : Json → Option α) (v : Option Json) : Option α := v.bind read

def ofFields (fields : List (String × Json)) : Json :=
  object (fields.map fun (name, v) => (.ofString name, v))

end Json

namespace CoordDistance

def ofJson (j : Json) : Option CoordDistance := do
  match ← j.variant? with
  | ("euclidean", content) => if Json.isUnit content then some euclidean else none
  | ("haversine", some content) =>
    match ← Json.fields? ["radius"] content with
    | [radius] => (Json.required Json.toDouble? radius).map haversine
    | _ => none
  | _ => none

def toJson : CoordDistance → Json
  | euclidean => .string (.ofString "euclidean")
  | haversine radius =>
    .ofFields [("haversine", .ofFields [("radius", .number (.ofDouble radius))])]

end CoordDistance

namespace ClusterKind

def ofJson (j : Json) : Option ClusterKind := do
  match ← j.variant? with
  | ("merging", content) => if Json.isUnit content then some merging else none
  | ("pre_process", content) => if Json.isUnit content then some preProcess else none
  | _ => none

def toJson : ClusterKind → Json
  | merging => .string (.ofString "merging")
  | preProcess => .string (.ofString "pre_process")

end ClusterKind

namespace NeighborConfig

def ofJson (j : Json) : Option NeighborConfig := do
  match ← j.fields? ["max_distance"] with
  | [maxDistance] => return ⟨← Json.required Json.toDouble? maxDistance⟩
  | _ => none

def toJson (c : NeighborConfig) : Json :=
  .ofFields [("max_distance", .number (.ofDouble c.maxDistance))]

end NeighborConfig

namespace ClusterConfig

def ofJson (j : Json) : Option ClusterConfig := do
  match ← j.fields? ["merge_size", "compression_threshold", "kind"] with
  | [mergeSize, threshold, kind] =>
    return ⟨← Json.required Json.toWord? mergeSize, ← Json.required Json.toWord? threshold,
      ← Json.required ClusterKind.ofJson kind⟩
  | _ => none

def toJson (c : ClusterConfig) : Json :=
  .ofFields [("merge_size", .number (.ofNat c.mergeSize)),
    ("compression_threshold", .number (.ofNat c.compressionThreshold)), ("kind", c.kind.toJson)]

end ClusterConfig

namespace RunConfig

def fieldNames : List String :=
  ["max_distance", "min_owners", "compression_threshold", "kind", "coord_distance"]

def ofFields : List (Option Json) → Option RunConfig
  | [maxDistance, minOwners, threshold, kind, distance] => do
    return ⟨← Json.orDefault Json.toDouble? default.maxDistance maxDistance,
      ← Json.orDefault Json.toWord? default.minOwners minOwners,
      ← Json.orDefault Json.toWord? default.compressionThreshold threshold,
      ← Json.orDefault ClusterKind.ofJson default.kind kind,
      ← Json.orDefault CoordDistance.ofJson default.coordDistance distance⟩
  | _ => none

def ofJson (j : Json) : Option RunConfig := do ofFields (← j.fields? fieldNames)

def toJson (c : RunConfig) : Json :=
  .ofFields [("max_distance", .number (.ofDouble c.maxDistance)),
    ("min_owners", .number (.ofNat c.minOwners)),
    ("compression_threshold", .number (.ofNat c.compressionThreshold)),
    ("kind", c.kind.toJson), ("coord_distance", c.coordDistance.toJson)]

inductive ReadError where
  | invalid (fault : Fault)
  /-- The text is no document, or its fields have the wrong types. -/
  | unreadable
  deriving DecidableEq, Repr

def ReadError.message : ReadError → String
  | invalid fault => "invalid configuration: " ++ fault.reason
  | unreadable => "cannot parse configuration"

def validate (c : RunConfig) : Except ReadError RunConfig :=
  match c.fault? with
  | some fault => .error (.invalid fault)
  | none => .ok c

def read (text : String) : Except ReadError RunConfig :=
  match (Json.parse text).bind ofJson with
  | none => .error .unreadable
  | some c => c.validate

end RunConfig

end DensityClustering
