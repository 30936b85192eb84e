import HologramLive.Json
import HologramLive.Lib.Lookup

namespace HologramLive
open Lib

/-- What a derived reader of a struct goes by: its fields in order, each with whether it has
a default, and whether it takes fields it does not know. -/
structure StructShape where
  fields : List (String × Bool)
  denyUnknownFields : Bool

namespace StructShape

def names (shape : StructShape) : List String := shape.fields.map Prod.fst

/-- The fields in the struct's order. They come from an object, where none may come twice, or
from an array, which may end early only before fields with defaults. -/
def read (shape : StructShape) : Json → Option (List (Option Json))
  | .object entries =>
    let keys := entries.map Prod.fst
    if shape.denyUnknownFields ∧ ¬keys.all (· ∈ shape.names) then none
    else if ¬(keys.filter (· ∈ shape.names)).Nodup then none
    else some (shape.names.map fun name => entries.lookup name)
  | .array items =>
    if shape.fields.length < items.length ∨ ¬(shape.fields.drop items.length).all Prod.snd then none
    else some (items.map some ++ (shape.fields.drop items.length).map fun _ => none)
  | _ => none

end StructShape

namespace Json

def asBool : Json → Option Bool
  | .bool value => some value
  | _ => none

/-- A number of so many bits. -/
def asUnsigned (bits : Nat) : Json → Option Nat
  | .number value => if value < 2 ^ bits then some value else none
  | _ => none

/-- A field that has to be there. -/
def required (read : Json → Option α) (field : Option Json) : Option α := field.bind read

/-- A field that stands for nothing when it is missing or null. -/
def optional (read : Json → Option α) : Option Json → Option (Option α)
  | none => some none
  | some .null => some none
  | some value => (read value).map some

/-- A field that has a default. -/
def defaulted (read : Json → Option α) (value : α) : Option Json → Option α
  | none => some value
  | some field => read field

def vector (read : Json → Option α) : Json → Option (List α)
  | .array items => items.mapM read
  | _ => none

def ofOption (write : α → Json) : Option α → Json
  | none => .null
  | some value => write value

/-- A struct's fields in order, less those that are skipped. -/
def written (fields : List (String × Option Json)) : List (String × Json) :=
  fields.filterMap fun field => field.2.map fun value => (field.1, value)

def ofFields (fields : List (String × Option Json)) : Json := .object (written fields)

section
variable {read : Json → Option α} {write : α → Json}

@[simp] theorem asUnsigned_number (h : value < 2 ^ bits) :
    asUnsigned bits (.number value) = some value := if_pos h

@[simp] theorem asStr_string (value : String) : asStr (.string value) = some value := rfl

@[simp] theorem required_some (value : Json) : required read (some value) = read value := rfl

theorem optional_some {document : Json} (h : document ≠ .null) :
    optional read (some document) = (read document).map some := by
  cases document with
  | null => exact absurd rfl h
  | _ => rfl

theorem optional_ofOption {value : Option α}
    (hread : ∀ found, value = some found → read (write found) = some found)
    (hnull : ∀ found, write found ≠ .null) :
    optional read (some (ofOption write value)) = some value := by
  cases value with
  | none => rfl
  | some found => rw [ofOption, optional_some (hnull found), hread found rfl, Option.map_some]

theorem optional_skipped {value : Option α}
    (hread : ∀ found, value = some found → read (write found) = some found)
    (hnull : ∀ found, write found ≠ .null) : optional read (value.map write) = some value := by
  cases value with
  | none => rfl
  | some found =>
    rw [Option.map_some, optional_some (hnull found), hread found rfl, Option.map_some]

theorem vector_written {values : List α}
    (hread : ∀ value ∈ values, read (write value) = some value) :
    vector read (.array (values.map write)) = some values := by
  rw [vector]
  induction values with
  | nil => rfl
  | cons value values ih =>
    have hrest := ih fun other hother => hread other (by simp [hother])
    simp [hread value (by simp), hrest]

end

end Json

theorem written_keys (fields : List (String × Option Json)) :
    ((Json.written fields).map Prod.fst).Sublist (fields.map Prod.fst) := by
  induction fields with
  | nil => exact List.nil_sublist _
  | cons field fields ih =>
    obtain ⟨name, value⟩ := field
    cases value with
    | none => exact ih.trans (List.sublist_cons_self ..)
    | some value => exact ih.cons_cons name

theorem lookup_written {fields : List (String × Option Json)} (hnodup : (fields.map Prod.fst).Nodup)
    (name : String) : (Json.written fields).lookup name = (fields.lookup name).join := by
  induction fields with
  | nil => rfl
  | cons field fields ih =>
    obtain ⟨key, value⟩ := field
    obtain ⟨hkey, hrest⟩ := List.nodup_cons.mp hnodup
    have hwritten := ih hrest
    by_cases hname : name = key
    · subst hname
      have habsent : fields.lookup name = none := by
        rw [List.lookup_eq_none_iff]
        intro other hother
        have hne : name ≠ other.1 := fun heq => hkey (List.mem_map.mpr ⟨other, hother, heq.symm⟩)
        simpa using hne
      cases value with
      | none =>
        rw [habsent] at hwritten
        simpa [Json.written] using hwritten
      | some value => simp [Json.written]
    · rw [Lookup.lookup_cons_ne hname, ← hwritten]
      cases value with
      | none => rfl
      | some value => exact Lookup.lookup_cons_ne hname value

/-- A struct's fields out of a document that may have others. -/
theorem StructShape.read_written {shape : StructShape} {fields : List (String × Option Json)}
    (hnodup : (fields.map Prod.fst).Nodup)
    (hknown : shape.denyUnknownFields = true → ∀ name ∈ fields.map Prod.fst, name ∈ shape.names) :
    shape.read (.ofFields fields) =
      some (shape.names.map fun name => (fields.lookup name).join) := by
  have hkeys := written_keys fields
  have hlookup := lookup_written hnodup
  rw [Json.ofFields, StructShape.read]
  generalize Json.written fields = entries at hkeys hlookup ⊢
  have hall : ¬(shape.denyUnknownFields = true ∧
      ¬(entries.map Prod.fst).all (· ∈ shape.names) = true) := by
    rintro ⟨hdeny, hunknown⟩
    refine hunknown ?_
    simpa only [List.all_eq_true, decide_eq_true_eq] using
      fun name hname => hknown hdeny name (hkeys.subset hname)
  have hfilter : ((entries.map Prod.fst).filter (· ∈ shape.names)).Nodup :=
    (hnodup.sublist hkeys).filter _
  have hfound : shape.names.map (fun name => entries.lookup name) =
      shape.names.map fun name => (fields.lookup name).join :=
    List.map_congr_left fun name _ => hlookup name
  rw [if_neg hall, if_neg (not_not.mpr hfilter), hfound]

/-- What is written with a struct's fields reads back as those fields. -/
theorem StructShape.read_ofFields {shape : StructShape} {fields : List (String × Option Json)}
    (hnames : fields.map Prod.fst = shape.names) (hnodup : shape.names.Nodup) :
    shape.read (.ofFields fields) = some (fields.map Prod.snd) := by
  rw [StructShape.read_written (hnames ▸ hnodup) fun _ name hname => hnames ▸ hname, ← hnames,
    List.map_map]
  refine congrArg some (List.map_congr_left fun field hfield => ?_)
  have hfound : fields.lookup field.1 = some field.2 :=
    Lookup.lookup_of_mem (hnames ▸ hnodup) hfield
  simp [hfound]

/-- `serde_json::from_slice` for a type with the given reader. `refusal` is the text for a
document the reader does not take. -/
def JsonCodec.read (codec : JsonCodec) (refusal : Bytes → String) (read : Json → Option α)
    (bytes : Bytes) : Except String α :=
  match codec.fromSlice bytes with
  | .error error => .error error
  | .ok document =>
    match read document with
    | none => .error (refusal bytes)
    | some value => .ok value

theorem JsonCodec.Keeps.read {codec : JsonCodec} {refusal : Bytes → String}
    {read : Json → Option α} {document : Json} (hkeeps : codec.Keeps document)
    (hread : read document = some value) :
    codec.read refusal read (codec.toVec document) = .ok value := by
  simp only [JsonCodec.read, show codec.fromSlice (codec.toVec document) = .ok document from hkeeps,
    hread]

end HologramLive
