import HologramLive.Browse.Address
import Mathlib.Data.Nat.Digits.Lemmas

/-! What a visitor does to the page, and the address that is kept of it. -/

namespace HologramLive.Browse
open Lib

section Visit
variable {ν : Type} [LinearOrder ν] [Zero ν] (engine : Engine) (sorter : Sorting.Sorter) (numbers : Numbers)

/-- A chip is clicked: `new Set(…)` with the value taken out or added. -/
def toggle (selected : List String) (value : String) : List String :=
  if value ∈ selected then selected.eraseDups.filter (· ≠ value) else selected.eraseDups ++ [value]

/-- What the visitor does. -/
inductive Action where
  | type (text : String)
  | click (facet : Facet) (value : String)
  | verifiedOnly
  | reset (facet : Facet)
  | clear
  | sort (sort : SortKey)
  | tab (tab : Tab)
  | page (number : Nat)

/-- What the page offers: the values that are listed, and the numbers of the pages. -/
def Offered (models : List (Model ν)) (state : State numbers.Number) : Action → Prop
  | .click facet value =>
    ∃ order, value ∈ (facetValues engine sorter models state order facet).map Prod.fst
  | .page number =>
    1 ≤ number ∧ number ≤ pagesOf (results engine sorter models state).length
  | _ => True

def act (state : State numbers.Number) : Action → State numbers.Number
  | .type text => { state with q := text, page := numbers.one }
  | .click facet value =>
    { select state facet (toggle (state.f facet) value) with page := numbers.one }
  | .verifiedOnly =>
    { select state .stateLabel (if state.f .stateLabel = ["Verified"] then [] else ["Verified"]) with
      page := numbers.one }
  | .reset facet => { select state facet [] with page := numbers.one }
  | .clear => { state with f := fun _ => [], q := "", page := numbers.one }
  | .sort sort => { state with sort, page := numbers.one }
  | .tab tab => { state with tab }
  | .page number => { state with page := numbers.ofNat number }

/-- The states of a visit, with what was done on the way. A visit starts at any search string,
as it does when the visitor goes back to one. -/
inductive Visit (models : List (Model ν)) : List Action → State numbers.Number → Prop where
  | start (search : Urlencoded.Bytes) : Visit models [] (parseState numbers search)
  | act {done : List Action} {state : State numbers.Number} (visit : Visit models done state)
      (action : Action) (offered : Offered engine sorter numbers models state action) :
      Visit models (done ++ [action]) (act numbers state action)

/-- A click on a value that is kept apart from others. -/
def Action.Plain : Action → Prop
  | .click _ value => value ≠ "" ∧ ',' ∉ value.toList
  | _ => True

variable {engine sorter numbers}

theorem select_plain {π : Type} {state : State π} {facet : Facet} {values : List String}
    (h : Plain state) (hvalues : ∀ value ∈ values, value ≠ "" ∧ ',' ∉ value.toList) :
    Plain (select state facet values) := by
  intro other value hvalue
  simp only [select] at hvalue
  split at hvalue
  · exact hvalues value hvalue
  · exact h other value hvalue

theorem mem_toggle {selected : List String} {value other : String}
    (h : other ∈ toggle selected value) : other ∈ selected ∨ other = value := by
  unfold toggle at h
  split at h
  · exact .inl (by simpa using (List.mem_filter.mp h).1)
  · rcases List.mem_append.mp h with hold | hnew
    · exact .inl (by simpa using hold)
    · exact .inr (List.mem_singleton.mp hnew)

theorem act_plain {state : State numbers.Number} {action : Action} (h : Plain state)
    (haction : action.Plain) : Plain (act numbers state action) := by
  cases action with
  | click facet value =>
    refine fun other chosen hchosen => select_plain h ?_ other chosen hchosen
    intro chosen hchosen
    rcases mem_toggle hchosen with hold | rfl
    · exact h facet chosen hold
    · exact haction
  | verifiedOnly =>
    refine fun other chosen hchosen => select_plain h ?_ other chosen hchosen
    intro chosen hchosen
    split at hchosen
    · cases hchosen
    · rw [List.mem_singleton.mp hchosen]
      decide
  | reset facet => exact fun other chosen => select_plain h (by simp) other chosen
  | clear => exact fun _ _ hchosen => nomatch hchosen
  | _ => exact fun other chosen => h other chosen

theorem Visit.plain {models : List (Model ν)} {done : List Action} {state : State numbers.Number}
    (h : Visit engine sorter numbers models done state) (hdone : ∀ action ∈ done, action.Plain) :
    Plain state := by
  induction h with
  | start search => exact parseState_plain search
  | act visit action offered ih =>
    exact act_plain (ih fun done hmem => hdone done (by simp [hmem])) (hdone action (by simp))

/-- The address of the page restores it, where no value that was clicked is empty or has a comma.
Of the state alone: it is restored where no value that is selected is or has. -/
theorem address_restores :
    (∀ (models : List (Model ν)) done (state : State numbers.Number),
      Visit engine sorter numbers models done state → (∀ action ∈ done, action.Plain) →
        parseState numbers (stateToSearch numbers state) = state) ∧
    (∀ state : State numbers.Number,
      parseState numbers (stateToSearch numbers state) = state ↔ Plain state) ∧
    ∀ search, stateToSearch numbers (parseState numbers (stateToSearch numbers
      (parseState numbers search))) = stateToSearch numbers (parseState numbers search) := by
  refine ⟨?_, parseState_stateToSearch_iff, ?_⟩
  · intro models done state hvisit hdone
    exact (parseState_stateToSearch_iff state).mpr (hvisit.plain hdone)
  · intro search
    rw [(parseState_stateToSearch_iff _).mpr (parseState_plain search)]

end Visit

/-- Pages counted in decimal. The number one is kept as zero. -/
def decimal : Numbers where
  Number := Nat
  one := 0
  ofNat number := number - 1
  beyondOne number := 0 < number
  parse text := Nat.ofDigits 10 (text.toList.reverse.map fun c => c.toNat - 48) - 1
  print number := String.ofList ((Nat.digits 10 (number + 1)).reverse.map Nat.digitChar)
  one_of_not_beyond := by simp
  parse_print := by
    intro number
    have hdigits : ((Nat.digits 10 (number + 1)).map Nat.digitChar).map (fun c => c.toNat - 48) =
        Nat.digits 10 (number + 1) := by
      rw [List.map_map]
      conv_rhs => rw [← List.map_id (Nat.digits 10 (number + 1))]
      apply List.map_congr_left
      intro digit hdigit
      have hlt : digit < 10 := Nat.digits_lt_base (by decide) hdigit
      interval_cases digit <;> decide
    simp only [String.toList_ofList, List.map_reverse, List.reverse_reverse, hdigits,
      Nat.ofDigits_digits, Nat.add_sub_cancel]

/-- A model under two licences, in one text. -/
def twoLicenses : Model Nat where
  id := "org/model"
  state := none
  fields facet := if facet = .license then .scalar "mit, gemma" true else .missing
  rank := some 1
  downloads := some 0
  likes := some 0
  params := none
  created := none

theorem address_lost : ∃ state, Visit .codePoints .insertion decimal [twoLicenses]
    [.click .license "mit, gemma"] state ∧
    results .codePoints .insertion [twoLicenses] state = [twoLicenses] ∧
    parseState decimal (stateToSearch decimal state) ≠ state := by
  have hstart : Visit Engine.codePoints .insertion decimal [twoLicenses] [] (parseState decimal []) :=
    .start []
  refine ⟨_, hstart.act (.click .license "mit, gemma") ?_, ?_, ?_⟩
  · exact ⟨fun _ => false, by decide⟩
  · have hmatches : matchesState Engine.codePoints twoLicenses
        (act decimal (parseState decimal []) (.click .license "mit, gemma")) none = true := by
      decide
    rw [results, List.filter_cons, if_pos hmatches]
    rfl
  · rw [Ne, parseState_stateToSearch_iff]
    intro hplain
    have hcomma := hplain .license "mit, gemma" (by decide)
    exact hcomma.2 (by decide)

end HologramLive.Browse
