import HologramLive.Browse.Render
import HologramLive.Lib.Lookup

namespace HologramLive.Browse
open Lib Lib.Urlencoded

/-! ## Search strings as they are written -/

/-- A byte in a search string: commas stand for themselves, and a space is `%20`. -/
def addressByte (byte : UInt8) : Bytes :=
  if byte = 0x2c then [0x2c] else if byte = 0x20 then percentByte 0x20 else formByte byte

theorem plainCommas_cons {byte : UInt8} (h : byte ≠ 0x25) (rest : Bytes) :
    plainCommas (byte :: rest) = byte :: plainCommas rest := by
  rw [plainCommas]
  intro more heq
  exact fun _ => h heq

/-- Where commas stand for themselves, one byte after the other. -/
def commaByte (byte : UInt8) : Bytes := if byte = 0x2c then [0x2c] else formByte byte

theorem percentByte_digits : ∀ byte : UInt8, byte ≠ 0x2c →
    hexUpper (byte >>> 4) ≠ 0x25 ∧ hexUpper (byte &&& 0x0f) ≠ 0x25 ∧
      (hexUpper (byte >>> 4) = 0x32 → hexUpper (byte &&& 0x0f) ≠ 0x43) :=
  forall_byte (by decide +kernel)

theorem plainCommas_percentByte {byte : UInt8} (h : byte ≠ 0x2c) (rest : Bytes) :
    plainCommas (percentByte byte ++ rest) = percentByte byte ++ plainCommas rest := by
  obtain ⟨hhigh, hlow, hcomma⟩ := percentByte_digits byte h
  have hfirst : plainCommas (percentByte byte ++ rest) =
      0x25 :: plainCommas (hexUpper (byte >>> 4) :: hexUpper (byte &&& 0x0f) :: rest) := by
    rw [percentByte, List.cons_append, List.cons_append, List.cons_append, List.nil_append,
      plainCommas]
    intro more _ hrest
    obtain ⟨htwo, hmore⟩ := List.cons.inj hrest
    exact hcomma htwo (List.cons.inj hmore).1
  rw [hfirst, plainCommas_cons hhigh, plainCommas_cons hlow]
  rfl

theorem plainCommas_formByte (byte : UInt8) (rest : Bytes) :
    plainCommas (formByte byte ++ rest) = commaByte byte ++ plainCommas rest := by
  unfold commaByte
  split
  · rename_i hcomma
    subst hcomma
    rfl
  · rename_i hcomma
    unfold formByte
    split
    · exact plainCommas_cons (by decide) rest
    · split
      · rename_i hplain
        exact plainCommas_cons (unreserved_plain byte hplain).1 rest
      · exact plainCommas_percentByte hcomma rest

theorem plainCommas_flatMap (bytes rest : Bytes) :
    plainCommas (bytes.flatMap formByte ++ rest) = bytes.flatMap commaByte ++ plainCommas rest := by
  induction bytes with
  | nil => rfl
  | cons byte more ih =>
    rw [List.flatMap_cons, List.append_assoc, plainCommas_formByte, ih, List.flatMap_cons,
      List.append_assoc]

theorem percentSpaces_commaByte : ∀ byte, percentSpaces (commaByte byte) = addressByte byte :=
  forall_byte (by decide +kernel)

theorem percentSpaces_append (front back : Bytes) :
    percentSpaces (front ++ back) = percentSpaces front ++ percentSpaces back := by
  simp [percentSpaces]

theorem percentSpaces_flatMap (bytes : Bytes) :
    percentSpaces (bytes.flatMap commaByte) = bytes.flatMap addressByte := by
  induction bytes with
  | nil => rfl
  | cons byte more ih =>
    rw [List.flatMap_cons, percentSpaces_append, percentSpaces_commaByte, ih, List.flatMap_cons]

theorem escape_addressByte : Escape addressByte where
  decoded := by
    intro byte rest
    unfold addressByte
    split
    · rename_i hcomma
      subst hcomma
      exact plain_decoded (by decide) (by decide) rest
    · split
      · rename_i hspace
        subst hspace
        exact percentByte_decoded 0x20 rest
      · exact escape_formByte.decoded byte rest
  separate := by
    intro byte escaped hescaped
    unfold addressByte at hescaped
    split at hescaped
    · rw [List.mem_singleton.mp hescaped]
      decide
    · split at hescaped
      · exact percentByte_separate 0x20 escaped hescaped
      · exact escape_formByte.separate byte escaped hescaped

/-- A name and its value, by the bytes that each byte is written as. -/
def written (escape : UInt8 → Bytes) (pair : String × String) : Bytes :=
  (Utf8.encode pair.1).flatMap escape ++ 0x3d :: (Utf8.encode pair.2).flatMap escape

theorem plainCommas_written (pair : String × String) (rest : Bytes) :
    plainCommas (written formByte pair ++ rest) = written commaByte pair ++ plainCommas rest := by
  rw [written, List.append_assoc, plainCommas_flatMap, List.cons_append,
    plainCommas_cons (by decide), plainCommas_flatMap, written, List.append_assoc, List.cons_append]

theorem plainCommas_serialize (pairs : List (String × String)) :
    plainCommas (serialize pairs) = [0x26].intercalate (pairs.map (written commaByte)) := by
  have hserialize : serialize pairs = [0x26].intercalate (pairs.map (written formByte)) := rfl
  rw [hserialize]
  induction pairs with
  | nil => rfl
  | cons pair rest ih =>
    cases rest with
    | nil =>
      have hone := plainCommas_written pair []
      simpa [plainCommas] using hone
    | cons next more =>
      simp only [List.map_cons, List.intercalate_cons_cons] at ih ⊢
      rw [List.append_assoc, plainCommas_written, List.singleton_append,
        plainCommas_cons (by decide), ih (by rfl), List.append_assoc, List.singleton_append]

theorem percentSpaces_written (pair : String × String) :
    percentSpaces (written commaByte pair) = written addressByte pair := by
  have hequals (rest : Bytes) : percentSpaces (0x3d :: rest) = 0x3d :: percentSpaces rest := rfl
  rw [written, percentSpaces_append, hequals, percentSpaces_flatMap, percentSpaces_flatMap, written]

theorem percentSpaces_join (pairs : List (String × String)) :
    percentSpaces ([0x26].intercalate (pairs.map (written commaByte))) =
      [0x26].intercalate (pairs.map (written addressByte)) := by
  induction pairs with
  | nil => rfl
  | cons pair rest ih =>
    cases rest with
    | nil => simpa using percentSpaces_written pair
    | cons next more =>
      simp only [List.map_cons, List.intercalate_cons_cons] at ih ⊢
      rw [percentSpaces_append, percentSpaces_append, percentSpaces_written, ih]
      rfl

/-- Commas and spaces are rewritten, and the names and values are read all the same. -/
theorem parse_rewritten (pairs : List (String × String)) :
    Urlencoded.parse (percentSpaces (plainCommas (serialize pairs))) = pairs := by
  rw [plainCommas_serialize, percentSpaces_join]
  exact parse_escaped escape_addressByte pairs

/-! ## States that are written and read -/

section States
variable {numbers : Numbers}

/-- Selections that are kept apart where they are joined with commas. -/
def Plain {π : Type} (state : State π) : Prop :=
  ∀ facet, ∀ value ∈ state.f facet, value ≠ "" ∧ ',' ∉ value.toList

theorem splitValues_plain (text : String) :
    ∀ value ∈ splitValues text, value ≠ "" ∧ ',' ∉ value.toList := by
  intro value hvalue
  obtain ⟨piece, hpiece, rfl⟩ := List.mem_map.mp hvalue
  obtain ⟨hne, hcomma⟩ := Pieces.mem_pieces hpiece
  refine ⟨fun hempty => hne ?_, by simpa using hcomma⟩
  simpa using congrArg String.toList hempty

theorem parseState_plain (search : Bytes) : Plain (parseState numbers search) :=
  fun _ => splitValues_plain _

theorem splitValues_joinValues {values : List String}
    (h : ∀ value ∈ values, value ≠ "" ∧ ',' ∉ value.toList) :
    splitValues (joinValues values) = values := by
  rw [splitValues, joinValues, String.toList_ofList, Pieces.pieces_join]
  · simp
  · intro part hpart
    obtain ⟨value, hvalue, rfl⟩ := List.mem_map.mp hpart
    obtain ⟨hne, hcomma⟩ := h value hvalue
    exact ⟨by simpa using hne, hcomma⟩

theorem sorts_lookup (sort : SortKey) (h : sort ≠ .trending) :
    sorts.lookup (sortName sort) = some sort := by
  cases sort <;> first | exact absurd rfl h | decide

theorem tabs_lookup (tab : Tab) (h : tab ≠ .main) : tabs.lookup (tabName tab) = some tab := by
  cases tab <;> first | exact absurd rfl h | decide

/-- The parameters of a search string, in the order they are written. -/
inductive Param where
  | q
  | sort
  | selection (facet : Facet)
  | tab
  | page

namespace Param

def all : List Param := [q, sort] ++ Facet.all.map selection ++ [tab, page]

def name : Param → String
  | q => "q"
  | sort => "sort"
  | selection facet => facet.param
  | tab => "tab"
  | page => "page"

def text (state : State numbers.Number) : Param → Option String
  | q => if state.q = "" then none else some state.q
  | sort => if state.sort = .trending then none else some (sortName state.sort)
  | selection facet => if (state.f facet).isEmpty then none else some (joinValues (state.f facet))
  | tab => if state.tab = .main then none else some (tabName state.tab)
  | page => if numbers.beyondOne state.page then some (numbers.print state.page) else none

theorem mem_all (param : Param) : param ∈ all := by
  cases param with
  | selection facet => simp [all, Facet.mem_all]
  | _ => simp [all]

end Param

theorem pairs_eq_filterMap (state : State numbers.Number) :
    pairs numbers state = Param.all.filterMap fun param =>
      (param.text state).map fun text => (param.name, text) := by
  have hfacets : (Facet.all.map Param.selection).filterMap (fun param =>
      (param.text state).map fun text => (param.name, text)) =
        Facet.all.filterMap fun facet => if (state.f facet).isEmpty then none
          else some (facet.param, joinValues (state.f facet)) := by
    rw [List.filterMap_map]
    congr 1
    funext facet
    simp only [Function.comp_apply, Param.text, Param.name]
    split <;> rfl
  have hone (param : Param) : [param].filterMap (fun param =>
      (param.text state).map fun text => (param.name, text)) =
        ((param.text state).map fun text => (param.name, text)).toList := by
    cases hparam : param.text state <;> simp [hparam]
  have hall : Param.all =
      [Param.q] ++ [Param.sort] ++ Facet.all.map Param.selection ++ [Param.tab] ++ [Param.page] := rfl
  rw [hall, List.filterMap_append, List.filterMap_append, List.filterMap_append,
    List.filterMap_append, hfacets, hone, hone, hone, hone, pairs]
  simp only [Param.text, Param.name]
  congr 1
  · congr 1
    · congr 1
      congr 1 <;> split <;> rfl
    · split <;> rfl
  · split <;> rfl

theorem lookup_pairs (state : State numbers.Number) (param : Param) :
    (pairs numbers state).lookup param.name = param.text state := by
  rw [pairs_eq_filterMap]
  exact Lookup.lookup_filterMap Param.name (Param.text state) (by decide) (Param.mem_all param)

theorem get_pairs (state : State numbers.Number) (param : Param) :
    get (pairs numbers state) param.name = (param.text state).getD "" := by
  rw [get, lookup_pairs]

/-! What is read of what was written, one parameter after the other. -/

theorem q_read (state : State numbers.Number) : get (pairs numbers state) "q" = state.q := by
  rw [show "q" = Param.q.name from rfl, get_pairs, Param.text]
  split
  · rename_i hempty
    exact hempty.symm
  · rfl

theorem sort_read (state : State numbers.Number) :
    (sorts.lookup (get (pairs numbers state) "sort")).getD .trending = state.sort := by
  rw [show "sort" = Param.sort.name from rfl, get_pairs, Param.text]
  split
  · rename_i htrending
    rw [htrending]
    decide
  · rename_i hother
    rw [Option.getD_some, sorts_lookup _ hother, Option.getD_some]

theorem tab_read (state : State numbers.Number) :
    (tabs.lookup (get (pairs numbers state) "tab")).getD .main = state.tab := by
  rw [show "tab" = Param.tab.name from rfl, get_pairs, Param.text]
  split
  · rename_i hmain
    rw [hmain]
    decide
  · rename_i hother
    rw [Option.getD_some, tabs_lookup _ hother, Option.getD_some]

theorem page_read (state : State numbers.Number) :
    (match (pairs numbers state).lookup "page" with
      | some text => numbers.parse text
      | none => numbers.one) = state.page := by
  rw [show "page" = Param.page.name from rfl, lookup_pairs, Param.text]
  by_cases hbeyond : numbers.beyondOne state.page = true
  · rw [if_pos hbeyond]
    exact numbers.parse_print state.page
  · rw [if_neg hbeyond]
    exact (numbers.one_of_not_beyond _ (by simpa using hbeyond)).symm

theorem selection_read (state : State numbers.Number) (facet : Facet) :
    splitValues (get (pairs numbers state) facet.param) =
      splitValues (joinValues (state.f facet)) := by
  rw [show facet.param = (Param.selection facet).name from rfl, get_pairs, Param.text]
  split
  · rename_i hempty
    rw [List.isEmpty_iff.mp hempty]
    rfl
  · rfl

theorem parse_stateToSearch (state : State numbers.Number) :
    Urlencoded.parse (if (stateToSearch numbers state).head? = some 0x3f
      then (stateToSearch numbers state).drop 1 else stateToSearch numbers state) =
        pairs numbers state := by
  rw [stateToSearch]
  split
  · rename_i hempty
    have hparse := parse_rewritten (pairs numbers state)
    rw [List.isEmpty_iff.mp hempty] at hparse
    simpa using hparse
  · simpa using parse_rewritten (pairs numbers state)

/-- A state is read as what it was but for its selections, which are joined and split. -/
theorem parseState_stateToSearch (state : State numbers.Number) :
    parseState numbers (stateToSearch numbers state) =
      { state with f := fun facet => splitValues (joinValues (state.f facet)) } := by
  unfold parseState
  rw [parse_stateToSearch]
  rw [State.mk.injEq]
  exact ⟨q_read state, sort_read state, page_read state, tab_read state,
    funext (selection_read state)⟩

theorem parseState_stateToSearch_iff (state : State numbers.Number) :
    parseState numbers (stateToSearch numbers state) = state ↔ Plain state := by
  constructor
  · intro hsame
    rw [← hsame]
    exact parseState_plain _
  · intro hplain
    rw [parseState_stateToSearch]
    congr
    funext facet
    exact splitValues_joinValues (hplain facet)

end States
end HologramLive.Browse
