import HologramLive.ModelHub.ZipArchive

namespace HologramLive.ModelHub.ZipWriter
open Lib LittleEndian

/-- The wide form of a value that its narrow field cannot hold. -/
def wide (value : Nat) : Bytes := if limit32 ≤ value then u64 value else []

def narrow (value : Nat) : Nat := if limit32 ≤ value then limit32 else value

/-- What the directory says of an entry. -/
def centralOf (entry : ZipEntry) : ZipFormat.Central :=
  ⟨entry.nameBytes, 0x0808, 0, entry.crc.toNat, entry.size, entry.size, entry.start⟩

/-- An entry that the format has fields for. -/
structure Fits (entry : ZipEntry) : Prop where
  name : entry.nameBytes.length ≤ 0xffff
  size : entry.size < 2 ^ 64
  start : entry.start < 2 ^ 64
  zip64 : entry.zip64 = decide (limit32 ≤ entry.size)

section
variable {entry : ZipEntry} {value : Nat} {rest : Bytes}

theorem wideValue_narrow (h : value < 2 ^ 64) :
    ZipFormat.wideValue (narrow value) (wide value ++ rest) = some (value, rest) := by
  unfold narrow wide
  split
  · have hread := read_write [(8, value)] rest
    have hmod : value % 256 ^ 8 = value := Nat.mod_eq_of_lt (lt_of_lt_of_eq h (by decide))
    simp only [write, List.flatMap_cons, List.flatMap_nil, List.append_nil, List.map_cons,
      List.map_nil, hmod] at hread
    simp only [ZipFormat.wideValue, u64, hread]
    rfl
  · rename_i hsmall
    have hne : value ≠ ZipFormat.limit32 := fun heq => hsmall (le_of_eq heq.symm)
    simp [ZipFormat.wideValue, hne]

theorem wide_length (value : Nat) : (wide value).length ≤ 8 := by
  unfold wide
  split <;> simp

/-- The extra field is the wide values in order, where there are any. -/
theorem centralExtra_eq (h : Fits entry) : centralExtra entry =
    if limit32 ≤ entry.size ∨ limit32 ≤ entry.start then
      write [(2, 0x0001),
        (2, (wide entry.size ++ wide entry.size ++ wide entry.start).length)] ++
        (wide entry.size ++ wide entry.size ++ wide entry.start)
    else [] := by
  have hzip64 : entry.zip64 = true ↔ limit32 ≤ entry.size := by rw [h.zip64, decide_eq_true_iff]
  unfold centralExtra
  by_cases hsize : limit32 ≤ entry.size <;> by_cases hstart : limit32 ≤ entry.start <;>
    simp [hzip64, hsize, hstart, wide, write, u16]

theorem extraField_write (id : Nat) (data : Bytes) (hid : id < 2 ^ 16)
    (hdata : data.length < 2 ^ 16) (fuel : Nat) :
    ZipFormat.extraField id (fuel + 1) (write [(2, id), (2, data.length)] ++ data) = some data := by
  have hread := read_write [(2, id), (2, data.length)] data
  have hidMod : id % 256 ^ 2 = id := Nat.mod_eq_of_lt (lt_of_lt_of_eq hid (by decide))
  have hdataMod : data.length % 256 ^ 2 = data.length :=
    Nat.mod_eq_of_lt (lt_of_lt_of_eq hdata (by decide))
  simp only [List.map_cons, List.map_nil, hidMod, hdataMod] at hread
  simp [ZipFormat.extraField, hread]

theorem wideValues (h : Fits entry) :
    (ZipFormat.extraField ZipFormat.wideId (centralExtra entry).length (centralExtra entry)).getD [] =
      wide entry.size ++ wide entry.size ++ wide entry.start := by
  rw [centralExtra_eq h]
  split
  · have hsize := wide_length entry.size
    have hstart := wide_length entry.start
    have hlength : (wide entry.size ++ wide entry.size ++ wide entry.start).length < 2 ^ 16 := by
      simp only [List.length_append]
      omega
    have hfuel : ∃ fuel, (write [(2, 0x0001),
        (2, (wide entry.size ++ wide entry.size ++ wide entry.start).length)] ++
        (wide entry.size ++ wide entry.size ++ wide entry.start)).length = fuel + 1 := by
      refine ⟨3 + (wide entry.size ++ wide entry.size ++ wide entry.start).length, ?_⟩
      rw [List.length_append, length_write]
      simp only [List.map_cons, List.map_nil, List.sum_cons, List.sum_nil]
      omega
    obtain ⟨fuel, hfuel⟩ := hfuel
    rw [hfuel]
    have hfield := extraField_write ZipFormat.wideId
      (wide entry.size ++ wide entry.size ++ wide entry.start) (by decide) hlength fuel
    rw [show ZipFormat.wideId = 0x0001 from rfl] at hfield ⊢
    rw [hfield, Option.getD_some]
  · rename_i hnone
    have hnot : ¬limit32 ≤ entry.size ∧ ¬limit32 ≤ entry.start := not_or.mp hnone
    simp [wide, hnot.1, hnot.2, ZipFormat.extraField]

theorem narrow_lt (value : Nat) : narrow value < 256 ^ 4 := by
  have hlimit : limit32 < 256 ^ 4 := by decide
  unfold narrow
  split <;> omega

theorem centralExtra_fits (entry : ZipEntry) : (centralExtra entry).length < 256 ^ 2 := by
  rw [centralExtra_length]
  cases entry.zip64 <;> by_cases hstart : limit32 ≤ entry.start <;> simp [hstart]

theorem centralHeader_eq (h : Fits entry) : centralHeader entry =
    write [(4, ZipFormat.centralSignature), (2, 45),
      (2, if entry.zip64 = true ∨ limit32 ≤ entry.start then 45 else 20), (2, 0x0808), (2, 0),
      (2, entry.time), (2, entry.date), (4, entry.crc.toNat), (4, narrow entry.size),
      (4, narrow entry.size), (2, entry.nameBytes.length), (2, (centralExtra entry).length), (2, 0),
      (2, 0), (2, 0), (4, 0), (4, narrow entry.start)] ++
      (entry.nameBytes ++ centralExtra entry) := by
  have hzip64 : (if entry.zip64 = true then limit32 else entry.size) = narrow entry.size := by
    simp [narrow, h.zip64]
  simp [centralHeader, hzip64, narrow, write, u16, u32, ZipFormat.centralSignature]

/-- A directory entry reads back as what it says. -/
theorem readCentral_header (h : Fits entry) :
    ZipFormat.readCentral (centralHeader entry ++ rest) = some (centralOf entry, rest) := by
  have hname : entry.nameBytes.length % 256 ^ 2 = entry.nameBytes.length :=
    Nat.mod_eq_of_lt (lt_of_le_of_lt h.name (by decide))
  have hextra : (centralExtra entry).length % 256 ^ 2 = (centralExtra entry).length :=
    Nat.mod_eq_of_lt (centralExtra_fits entry)
  have hcrc : entry.crc.toNat % 256 ^ 4 = entry.crc.toNat := Nat.mod_eq_of_lt entry.crc.isLt
  have hsize : narrow entry.size % 256 ^ 4 = narrow entry.size := Nat.mod_eq_of_lt (narrow_lt _)
  have hstart : narrow entry.start % 256 ^ 4 = narrow entry.start := Nat.mod_eq_of_lt (narrow_lt _)
  rw [centralHeader_eq h, List.append_assoc, List.append_assoc]
  generalize hfields : [(4, ZipFormat.centralSignature), (2, 45),
      (2, if entry.zip64 = true ∨ limit32 ≤ entry.start then 45 else 20), (2, 0x0808), (2, 0),
      (2, entry.time), (2, entry.date), (4, entry.crc.toNat), (4, narrow entry.size),
      (4, narrow entry.size), (2, entry.nameBytes.length), (2, (centralExtra entry).length), (2, 0),
      (2, 0), (2, 0), (4, 0), (4, narrow entry.start)] = fields
  have hread := read_write fields (entry.nameBytes ++ (centralExtra entry ++ rest))
  have hwidths : fields.map Prod.fst = ZipFormat.centralWidths := by
    rw [← hfields]
    rfl
  rw [hwidths] at hread
  rw [ZipFormat.readCentral, hread, ← hfields]
  simp only [List.map_cons, List.map_nil, hname, hextra, hcrc, hsize, hstart]
  have hguard : ¬(ZipFormat.centralSignature % 256 ^ 4 ≠ ZipFormat.centralSignature ∨
      (entry.nameBytes ++ (centralExtra entry ++ rest)).length <
        entry.nameBytes.length + (centralExtra entry).length + 0 % 256 ^ 2) := by
    rintro (hsignature | hshort)
    · exact hsignature (by decide)
    · simp only [List.length_append] at hshort
      omega
  have hextraBytes : ((entry.nameBytes ++ (centralExtra entry ++ rest)).drop
      entry.nameBytes.length).take (centralExtra entry).length = centralExtra entry := by
    rw [List.drop_left, List.take_left]
  have hrest : (entry.nameBytes ++ (centralExtra entry ++ rest)).drop
      (entry.nameBytes.length + (centralExtra entry).length + 0 % 256 ^ 2) = rest := by
    rw [Nat.zero_mod, Nat.add_zero, ← List.append_assoc]
    exact List.drop_left' (List.length_append ..)
  have hfirst := @wideValue_narrow entry.size (wide entry.size ++ wide entry.start) h.size
  have hsecond := @wideValue_narrow entry.size (wide entry.start) h.size
  have hthird := @wideValue_narrow entry.start [] h.start
  rw [List.append_nil] at hthird
  rw [if_neg hguard, hextraBytes, wideValues h, hrest, List.take_left, List.append_assoc, hfirst]
  simp only [Option.bind_eq_bind, Option.bind_some, hsecond, hthird]
  rfl

/-- The directory reads back entry by entry. -/
theorem readCentrals_directory {entries : List ZipEntry} (h : ∀ entry ∈ entries, Fits entry) :
    ZipFormat.readCentrals entries.length (directoryBytes entries) =
      some (entries.map centralOf) := by
  induction entries with
  | nil => rfl
  | cons entry entries ih =>
    obtain ⟨hentry, hentries⟩ := List.forall_mem_cons.mp h
    rw [List.length_cons, ZipFormat.readCentrals, directoryBytes, List.map_cons, List.flatten_cons,
      readCentral_header hentry]
    have hrest := ih hentries
    rw [directoryBytes] at hrest
    simp [hrest]

/-- What an end record is read as, where it holds what it can of the numbers. -/
theorem widen_min (limit value : Nat) : ZipFormat.widen limit (min value limit) value = value := by
  unfold ZipFormat.widen
  split
  · rfl
  · rename_i hne
    exact min_eq_left (by omega)

/-- Numbers an archive's end records have fields for. -/
structure EndFits (count size start : Nat) : Prop where
  count : count < 2 ^ 64
  size : size < 2 ^ 64
  start : start < 2 ^ 64

theorem mod_wide {value : Nat} (h : value < 2 ^ 64) : value % 256 ^ 8 = value :=
  Nat.mod_eq_of_lt (lt_of_lt_of_eq h (by decide))

theorem read_locator {position : Nat} (tail : Bytes) (h : position < 2 ^ 64) :
    LittleEndian.read ZipFormat.locatorWidths (locatorBytes position ++ tail) =
      some ([ZipFormat.locatorSignature, 0, position, 1], tail) := by
  have hread := read_write [(4, ZipFormat.locatorSignature), (4, 0), (8, position), (4, 1)] tail
  have hsignature : ZipFormat.locatorSignature % 256 ^ 4 = ZipFormat.locatorSignature := by decide
  simp only [List.map_cons, List.map_nil, mod_wide h, hsignature] at hread
  have hbytes : locatorBytes position =
      write [(4, ZipFormat.locatorSignature), (4, 0), (8, position), (4, 1)] := by
    simp [locatorBytes, write, u32, u64, ZipFormat.locatorSignature]
  rw [hbytes]
  exact hread

theorem read_wideEnd {count size start : Nat} (tail : Bytes) (h : EndFits count size start) :
    LittleEndian.read ZipFormat.wideEndWidths (wideEndBytes count size start ++ tail) =
      some ([ZipFormat.wideEndSignature, 44, 45, 45, 0, 0, count, count, size, start], tail) := by
  have hread := read_write [(4, ZipFormat.wideEndSignature), (8, 44), (2, 45), (2, 45), (4, 0), (4, 0),
    (8, count), (8, count), (8, size), (8, start)] tail
  have hsignature : ZipFormat.wideEndSignature % 256 ^ 4 = ZipFormat.wideEndSignature := by decide
  simp only [List.map_cons, List.map_nil, mod_wide h.count, mod_wide h.size, mod_wide h.start,
    hsignature] at hread
  have hbytes : wideEndBytes count size start =
      write [(4, ZipFormat.wideEndSignature), (8, 44), (2, 45), (2, 45), (4, 0), (4, 0),
        (8, count), (8, count), (8, size), (8, start)] := by
    simp [wideEndBytes, write, u16, u32, u64, ZipFormat.wideEndSignature]
  rw [hbytes]
  exact hread

theorem locatorBytes_length (position : Nat) : (locatorBytes position).length = 20 := by
  simp [locatorBytes]

theorem readWideEnd_ok {before tail : Bytes} {count size start : Nat} {found : ZipFormat.EndRecord}
    (hfits : EndFits count size start) (hbefore : before.length < 2 ^ 64) (htail : tail.length = 22) :
    ZipFormat.readWideEnd
        (before ++ (wideEndBytes count size start ++ (locatorBytes before.length ++ tail))) found =
      some ⟨ZipFormat.widen ZipFormat.limit16 found.count count,
        ZipFormat.widen ZipFormat.limit32 found.size size,
        ZipFormat.widen ZipFormat.limit32 found.start start⟩ := by
  have hlast : (before ++ wideEndBytes count size start ++
      (locatorBytes before.length ++ tail)).length - 42 =
        (before ++ wideEndBytes count size start).length := by
    simp only [List.length_append, locatorBytes_length, htail]
    omega
  have hdropLocator : (before ++ (wideEndBytes count size start ++
      (locatorBytes before.length ++ tail))).drop
        ((before ++ (wideEndBytes count size start ++
          (locatorBytes before.length ++ tail))).length - 42) =
      locatorBytes before.length ++ tail := by
    rw [← List.append_assoc, hlast, List.drop_left]
  have hdropWide : (before ++ (wideEndBytes count size start ++
      (locatorBytes before.length ++ tail))).drop before.length =
      wideEndBytes count size start ++ (locatorBytes before.length ++ tail) := List.drop_left
  have hlocator := read_locator tail hbefore
  have hend := read_wideEnd (locatorBytes before.length ++ tail) hfits
  rw [← hdropLocator] at hlocator
  rw [← hdropWide] at hend
  exact ZipFormat.readWideEnd_of hlocator hend

theorem endBytes_length (count size start : Nat) : (endBytes count size start).length = 22 := by
  simp [endBytes]

theorem read_endBytes (count size start : Nat) :
    LittleEndian.read ZipFormat.endWidths (endBytes count size start) =
      some ([ZipFormat.endSignature, 0, 0, min count 0xffff, min count 0xffff, min size limit32,
        min start limit32, 0], []) := by
  have hread := read_write [(4, ZipFormat.endSignature), (2, 0), (2, 0), (2, min count 0xffff),
    (2, min count 0xffff), (4, min size limit32), (4, min start limit32), (2, 0)] []
  have hsignature : ZipFormat.endSignature % 256 ^ 4 = ZipFormat.endSignature := by decide
  have hcount : min count 0xffff % 256 ^ 2 = min count 0xffff :=
    Nat.mod_eq_of_lt (lt_of_le_of_lt (min_le_right ..) (by decide))
  have hlimit (value : Nat) : min value limit32 % 256 ^ 4 = min value limit32 :=
    Nat.mod_eq_of_lt (lt_of_le_of_lt (min_le_right ..) (by decide))
  simp only [List.map_cons, List.map_nil, hsignature, hcount, hlimit, List.append_nil] at hread
  have hbytes : endBytes count size start =
      write [(4, ZipFormat.endSignature), (2, 0), (2, 0), (2, min count 0xffff),
        (2, min count 0xffff), (4, min size limit32), (4, min start limit32), (2, 0)] := by
    simp [endBytes, write, u16, u32, ZipFormat.endSignature]
  rw [hbytes]
  exact hread

/-- The end records give the true numbers, wide where they have to be. -/
theorem readEnd_trailer {members directory : Bytes} {count : Nat} {any64 : Bool}
    (hfits : EndFits count directory.length members.length)
    (hbefore : (members ++ directory).length < 2 ^ 64) :
    ZipFormat.readEnd (members ++ (directory ++
        ((if Needs64 count directory.length members.length any64 then
          wideEndBytes count directory.length members.length ++
            locatorBytes (members.length + directory.length) else []) ++
        endBytes count directory.length members.length))) =
      some ⟨count, directory.length, members.length⟩ := by
  generalize hlast : endBytes count directory.length members.length = last
  have hlength : last.length = 22 := by rw [← hlast, endBytes_length]
  have hread := read_endBytes count directory.length members.length
  rw [hlast] at hread
  have hdrop (before : Bytes) : (before ++ last).drop ((before ++ last).length - 22) = last := by
    rw [List.length_append, hlength, Nat.add_sub_cancel, List.drop_left]
  rw [← List.append_assoc, ← List.append_assoc]
  rw [ZipFormat.readEnd_of ((congrArg _ (hdrop _)).trans hread)]
  by_cases hlimits : min count 0xffff = ZipFormat.limit16 ∨
      min directory.length limit32 = ZipFormat.limit32 ∨
      min members.length limit32 = ZipFormat.limit32
  · have hneeds : Needs64 count directory.length members.length any64 := by
      rcases hlimits with hcount | hsize | hstart
      · exact .inl (min_eq_right_iff.mp hcount)
      · exact .inr (.inr (.inl (min_eq_right_iff.mp hsize)))
      · exact .inr (.inl (min_eq_right_iff.mp hstart))
    have hwide := @readWideEnd_ok (members ++ directory) last count directory.length members.length
      ⟨min count 0xffff, min directory.length limit32, min members.length limit32⟩ hfits hbefore hlength
    rw [if_pos hlimits, if_pos hneeds]
    rw [List.length_append] at hwide
    simp only [List.append_assoc] at hwide ⊢
    rw [hwide]
    have hcount := widen_min ZipFormat.limit16 count
    have hsize := widen_min ZipFormat.limit32 directory.length
    have hstart := widen_min ZipFormat.limit32 members.length
    exact congrArg some (by rw [ZipFormat.EndRecord.mk.injEq]; exact ⟨hcount, hsize, hstart⟩)
  · obtain ⟨hcount, hsize, hstart⟩ := not_or.mp hlimits |>.imp id not_or.mp
    rw [if_neg hlimits]
    have hcountSame : min count 0xffff = count := (min_choice count 0xffff).resolve_right hcount
    have hsizeSame : min directory.length limit32 = directory.length :=
      (min_choice directory.length limit32).resolve_right hsize
    have hstartSame : min members.length limit32 = members.length :=
      (min_choice members.length limit32).resolve_right hstart
    rw [hcountSame, hsizeSame, hstartSame]

end
end HologramLive.ModelHub.ZipWriter
