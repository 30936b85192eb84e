import HologramLive.Lib.Calendar

/-! The times in the answers of the Ollama compatible interface. -/

namespace HologramLive.Gateway
open Lib.Calendar

/-- A 64-bit number, if the operation has a result that is one. -/
def u64 (value : Int) : Option Nat :=
  if 0 ≤ value ∧ value < 2 ^ 64 then some value.toNat else none

def i64 (value : Int) : Option Int :=
  if -2 ^ 63 ≤ value ∧ value < 2 ^ 63 then some value else none

def divide (left right : Nat) : Option Nat := if right = 0 then none else some (left / right)

def remainder (left right : Nat) : Option Nat := if right = 0 then none else some (left % right)

structure Timestamp where
  year : Int
  month : Nat
  day : Nat
  hour : Nat
  minute : Nat
  second : Nat

/-! The conversion, operation by operation. It has no result where one of them overflows or divides
by zero. -/

/-- `yoe` and `doy`, of the day of an era. -/
def yearAndDay (doe : Nat) : Option (Nat × Nat) := do
  let fourths ← divide doe 1460
  let centuries ← divide doe 36524
  let last ← divide doe 146096
  let shorter ← u64 (doe - fourths)
  let longer ← u64 (shorter + centuries)
  let whole ← u64 (longer - last)
  let yoe ← divide whole 365
  let yearDays ← u64 (365 * yoe)
  let leapDays ← divide yoe 4
  let most ← u64 (yearDays + leapDays)
  let centuryDays ← divide yoe 100
  let before ← u64 (most - centuryDays)
  let doy ← u64 (doe - before)
  some (yoe, doy)

def monthOf (mp : Nat) : Option Nat := if mp < 10 then u64 (mp + 3) else u64 (mp - 9)

def yearOf (year : Int) (month : Nat) : Option Int :=
  if month ≤ 2 then i64 (year + 1) else some year

/-- `month` and `day`, of the day of a year from March on. -/
def monthAndDay (doy : Nat) : Option (Nat × Nat) := do
  let fifths ← u64 (5 * doy)
  let shifted ← u64 (fifths + 2)
  let mp ← divide shifted 153
  let months ← u64 (153 * mp)
  let rounded ← u64 (months + 2)
  let before ← divide rounded 5
  let rest ← u64 (doy - before)
  let day ← u64 (rest + 1)
  let month ← monthOf mp
  some (month, day)

def civilFromDays (days : Int) : Option (Int × Nat × Nat) := do
  let z ← i64 (days + 719468)
  let era := z.ediv 146097
  let doe := (u64 (z.emod 146097)).getD 0
  let (yoe, doy) ← yearAndDay doe
  let eraYears ← i64 (era * 400)
  let year ← i64 ((i64 yoe).getD 0 + eraYears)
  let (month, day) ← monthAndDay doy
  let year ← yearOf year month
  some (year, month, day)

def civilFromMillis (millis : Nat) : Option Timestamp := do
  let seconds ← divide millis 1000
  let dayCount ← divide seconds 86400
  let days := (i64 dayCount).getD (2 ^ 63 - 1)
  let secsOfDay ← remainder seconds 86400
  let hour ← divide secsOfDay 3600
  let secsOfHour ← remainder secsOfDay 3600
  let minute ← divide secsOfHour 60
  let second ← remainder secsOfDay 60
  let (year, month, day) ← civilFromDays days
  some { year, month, day, hour, minute, second }

/-- Zeros up to a width, behind the sign. -/
def padded (width : Nat) (value : Int) : String :=
  let mark := if value < 0 then "-" else ""
  let digits := toString value.natAbs
  mark ++ String.ofList (List.replicate (width - mark.length - digits.length) '0') ++ digits

def Timestamp.format (stamp : Timestamp) : String :=
  s!"{padded 4 stamp.year}-{padded 2 stamp.month}-{padded 2 stamp.day}" ++
    s!"T{padded 2 stamp.hour}:{padded 2 stamp.minute}:{padded 2 stamp.second}Z"

def rfc3339FromMillis (millis : UInt64) : Option String :=
  (civilFromMillis millis.toNat).map Timestamp.format

theorem bind_some {α β : Type} {x : Option α} {f : α → Option β} {a : α} {b : β} (hx : x = some a)
    (hf : f a = some b) : (x >>= f) = some b := by
  rw [hx]
  exact hf

section Era
variable {doe leaps centuries last yoe : Nat} (hdoe : doe < 146097)
  (hleaps : 1460 * leaps ≤ doe ∧ doe < 1460 * leaps + 1460)
  (hcenturies : 36524 * centuries ≤ doe ∧ doe < 36524 * centuries + 36524)
  (hlast : 146096 * last ≤ doe ∧ doe < 146096 * last + 146096)
  (hyoe : 365 * yoe + leaps + last ≤ doe + centuries ∧
    doe + centuries < 365 * (yoe + 1) + leaps + last)
include hdoe hleaps hcenturies hlast hyoe

end Era

/-- A stamp of a day and a time of that day. -/
structure Timestamp.Of (stamp : Timestamp) (date : Date) (second : Nat) : Prop where
  year : stamp.year = date.year
  month : stamp.month = date.month
  day : stamp.day = date.day
  hour : stamp.hour < 24
  minute : stamp.minute < 60
  second_lt : stamp.second < 60
  time : stamp.hour * 3600 + stamp.minute * 60 + stamp.second = second

def epoch : Date := ⟨1970, 1, 1⟩

/-- What is printed of a time is the text of a day and a time of that day. -/
def Shows (millis : UInt64) (date : Date) : Prop :=
  ∃ stamp, civilFromMillis millis.toNat = some stamp ∧
    rfc3339FromMillis millis = some stamp.format ∧
      stamp.Of date (millis.toNat / 1000 % 86400)

theorem Timestamp.Of.unique {stamp : Timestamp} {date date' : Date} {second : Nat}
    (h : stamp.Of date second) (h' : stamp.Of date' second) : date = date' := by
  obtain ⟨year, month, day⟩ := date
  obtain ⟨year', month', day'⟩ := date'
  have hyear := Int.ofNat.inj (h.year.symm.trans h'.year)
  have hmonth := h.month.symm.trans h'.month
  have hday := h.day.symm.trans h'.day
  dsimp only at hyear hmonth hday
  rw [hyear, hmonth, hday]

example : rfc3339FromMillis 951782400000 = some "2000-02-29T00:00:00Z" := by decide

end HologramLive.Gateway
