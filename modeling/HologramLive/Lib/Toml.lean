import HologramLive.Lib.Table

/-! Documents of nested tables, and what becomes of a document when values are taken out
of it. -/

namespace HologramLive.Lib.Toml

/-- A TOML value. Floating-point numbers and times stand as they are written, and the
entries of a table in the order of the text. -/
inductive Value where
  | string (value : String)
  | integer (value : Int)
  | float (text : String)
  | boolean (value : Bool)
  | datetime (text : String)
  | array (items : List Value)
  | table (entries : List (String × Value))

abbrev Entries := List (String × Value)

namespace Value

def asTable : Value → Option Entries
  | .table entries => some entries
  | _ => none

def asStr : Value → Option String
  | .string value => some value
  | _ => none

def asInteger : Value → Option Int
  | .integer value => some value
  | _ => none

def asArray : Value → Option (List Value)
  | .array items => some items
  | _ => none

/-- What stands at a path. -/
def find : List String → Value → Option Value
  | [], value => some value
  | key :: rest, value => (value.asTable.bind (·.lookup key)).bind (find rest)

end Value

open Value

section Find
variable {entries inner : Entries} {key place : String} {path rest : List String} {value : Value}

@[simp] theorem find_nil (value : Value) : find [] value = some value := rfl

theorem find_cons (key : String) (rest : List String) (entries : Entries) :
    find (key :: rest) (.table entries) = (entries.lookup key).bind (find rest) := rfl

/-- Only tables have something inside. -/
theorem find_cons_none (h : value.asTable = none) : find (key :: rest) value = none := by
  rw [find, h]
  rfl

theorem find_erase (entries : Entries) (place key : String) (rest : List String) :
    find (key :: rest) (.table (Table.erase entries place)) =
      if key = place then none else find (key :: rest) (.table entries) := by
  rw [find_cons, find_cons, Table.lookup_erase]
  split <;> rfl

theorem find_insert (entries : Entries) (place key : String) (rest : List String) (value : Value) :
    find (key :: rest) (.table (Table.insert entries place value)) =
      if key = place then find rest value else find (key :: rest) (.table entries) := by
  rw [find_cons, find_cons, Table.lookup_insert]
  split <;> rfl

end Find

/-- The same value, or a table in the place of a table. -/
def Alike (after before : Option Value) : Prop :=
  after = before ∨
    ∃ entries entries', after = some (.table entries) ∧ before = some (.table entries')

section Alike
variable {after before : Option Value}

theorem Alike.refl (found : Option Value) : Alike found found := .inl rfl

theorem Alike.trans {middle : Option Value} (h : Alike after middle) (h' : Alike middle before) :
    Alike after before := by
  rcases h with rfl | ⟨entries, inner, rfl, rfl⟩
  · exact h'
  · rcases h' with rfl | ⟨_, entries', _, rfl⟩
    · exact .inr ⟨entries, inner, rfl, rfl⟩
    · exact .inr ⟨entries, entries', rfl, rfl⟩

theorem Alike.eq_none (h : Alike after none) : after = none := by
  rcases h with h | ⟨_, _, _, h⟩
  · exact h
  · cases h

theorem Alike.eq_some {value : Value} (h : Alike after (some value)) (hvalue : value.asTable = none) :
    after = some value := by
  rcases h with h | ⟨_, entries, _, h⟩
  · exact h
  · obtain rfl := Option.some.inj h
    cases hvalue

end Alike

end HologramLive.Lib.Toml
