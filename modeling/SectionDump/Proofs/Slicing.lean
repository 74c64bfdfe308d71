import SectionDump.Proofs.Building
import SectionDump.Proofs.Reading

/-!
# Slicing

A section gives the bytes of a range that lies between its start and its end, the end
included as a place to take nothing from. Having an address is having the one byte there,
and the last address is the greatest that a section with bytes has. A range can be cut
anywhere before its end, and the two slices make up the whole one.
-/
namespace SectionDump.Section

variable {s : Section} {a m n whole : UInt64} {bytes : Bytes}

theorem exists_slice_iff : (∃ bytes, s.slice a n = some bytes) ↔ s.Within a n := by
  constructor
  · rintro ⟨bytes, h⟩
    exact (slice_eq_some_iff_within.1 h).1
  · intro h
    exact ⟨_, slice_eq_some_iff.2 ⟨h, rfl⟩⟩

/-- A range of one byte is within a section that has its address. -/
theorem within_one_iff : s.Within a 1 ↔ s.id.Covers a.toNat := by
  change s.start.toNat ≤ a.toNat ∧ a.toNat + 1 ≤ s.start.toNat + s.size.toNat ↔
    s.start.toNat ≤ a.toNat ∧ a.toNat < s.start.toNat + s.size.toNat
  omega

theorem contains_iff_slice_one : s.contains a = true ↔ ∃ bytes, s.slice a 1 = some bytes := by
  rw [contains_iff_covers, exists_slice_iff, within_one_iff]

theorem le_last_of_contains (h : s.contains a = true) : a ≤ s.last := by
  obtain ⟨-, hend⟩ := contains_iff.1 h
  rw [UInt64.le_iff_toNat_le, toNat_last_eq]
  omega

/-- A section that has bytes behind a place has an address for it. -/
theorem toNat_add_of_within (hwhole : whole.toNat = m.toNat + n.toNat) (hn : n ≠ 0)
    (h : s.Within a whole) : (a + m).toNat = a.toNat + m.toNat := by
  have hpos : 0 < n.toNat := UInt64.pos_iff_ne_zero.2 hn
  have hne : whole ≠ 0 := by
    rintro rfl
    rw [UInt64.toNat_zero] at hwhole
    omega
  have hend := add_le_of_holdsAll hne ((holdsAll_iff hne).2 h)
  rw [UInt64.size] at hend
  rw [UInt64.toNat_add, Nat.mod_eq_of_lt (by omega)]

theorem within_add (hwhole : whole.toNat = m.toNat + n.toNat)
    (hadd : (a + m).toNat = a.toNat + m.toNat) (h : s.Within a whole) :
    s.Within a m ∧ s.Within (a + m) n := by
  obtain ⟨hstart, hend⟩ := h
  refine ⟨⟨hstart, by omega⟩, ?_, ?_⟩
  · omega
  · omega

theorem BytesAt.split (hwhole : whole.toNat = m.toNat + n.toNat)
    (hstart : s.start.toNat ≤ a.toNat) (hadd : (a + m).toNat = a.toNat + m.toNat)
    (h : s.BytesAt a whole bytes) :
    s.BytesAt a m (bytes.take m.toNat) ∧ s.BytesAt (a + m) n (bytes.drop m.toNat) := by
  have hlength := h.length_eq
  refine ⟨⟨?_, fun i hi => ?_⟩, ⟨?_, fun i hi => ?_⟩⟩
  · rw [List.length_take]
    omega
  · rw [List.getElem?_take, if_pos hi]
    exact h.getElem?_eq i (by omega)
  · rw [List.length_drop]
    omega
  · rw [List.getElem?_drop, h.getElem?_eq _ (by omega), hadd]
    congr 1
    omega

/-- A slice is the slice up to a place and the one from there on, in that order. -/
theorem slice_split (hwhole : whole.toNat = m.toNat + n.toNat) (hn : n ≠ 0)
    (h : s.slice a whole = some bytes) :
    (a + m).toNat = a.toNat + m.toNat ∧ ∃ front back, s.slice a m = some front ∧
      s.slice (a + m) n = some back ∧ bytes = front ++ back := by
  obtain ⟨hwithin, hbytes⟩ := slice_eq_some_iff_within.1 h
  have hadd := toNat_add_of_within hwhole hn hwithin
  obtain ⟨hfront, hback⟩ := within_add hwhole hadd hwithin
  obtain ⟨hfirst, hsecond⟩ := hbytes.split hwhole hwithin.1 hadd
  refine ⟨hadd, bytes.take m.toNat, bytes.drop m.toNat, ?_, ?_, ?_⟩
  · exact slice_eq_some_iff_within.2 ⟨hfront, hfirst⟩
  · exact slice_eq_some_iff_within.2 ⟨hback, hsecond⟩
  · exact (List.take_append_drop m.toNat bytes).symm

/-- Of a section that a file holds, a range is sliced exactly where it is within the
section's, and the slice is that part of the file. The section has the addresses of which
it has a byte, and the last one, which never wraps, is the greatest of them. A slice can be
cut at every place before its end. -/
theorem slice_iff_of_ofFile {path : Path} {data : Bytes} {s : Section}
    (h : ofFile path data = .ok s) (a : UInt64) :
    data.length = s.size.toNat ∧
    (∀ n, (∃ bytes, s.slice a n = some bytes) ↔
      s.start.toNat ≤ a.toNat ∧ a.toNat + n.toNat ≤ s.start.toNat + s.size.toNat) ∧
    (∀ n bytes, s.slice a n = some bytes → bytes.length = n.toNat ∧
      ∀ i < n.toNat, bytes[i]? = data[a.toNat - s.start.toNat + i]?) ∧
    (s.contains a = true ↔
      s.start.toNat ≤ a.toNat ∧ a.toNat < s.start.toNat + s.size.toNat) ∧
    (s.contains a = true ↔ ∃ bytes, s.slice a 1 = some bytes) ∧
    s.last.toNat = s.start.toNat + (s.size.toNat - 1) ∧
    (s.size ≠ 0 → s.contains s.last = true ∧ ∀ b, s.contains b = true → b ≤ s.last) ∧
    ∀ m n whole bytes, whole.toNat = m.toNat + n.toNat → n ≠ 0 → s.slice a whole = some bytes →
      (a + m).toNat = a.toNat + m.toNat ∧ ∃ front back, s.slice a m = some front ∧
        s.slice (a + m) n = some back ∧ bytes = front ++ back := by
  obtain ⟨hfile, -⟩ := ofFile_eq_ok_iff.1 h
  obtain ⟨-, rfl⟩ := Prod.mk.inj hfile
  refine ⟨s.length_data, fun n => exists_slice_iff, ?_, contains_iff, contains_iff_slice_one,
    s.toNat_last_eq, ?_, fun m n whole bytes => slice_split⟩
  · intro n bytes hslice
    obtain ⟨-, hbytes⟩ := slice_eq_some_iff_within.1 hslice
    exact ⟨hbytes.length_eq, hbytes.getElem?_eq⟩
  · intro hsize
    exact ⟨contains_iff_covers.2 (covers_last hsize).1, fun b => le_last_of_contains⟩

/-! A section that ends with the address space: there is no third byte, although its
address would be zero again. -/

def topPath : Path := "top-fffffffffffffffe-2-0-r.bin".toList

theorem slice_iff_of_ofFile_top :
    ∃ s, ofFile topPath [7, 8] = .ok s ∧ s.last.toNat = UInt64.size - 1 ∧
      s.slice 0xfffffffffffffffe 2 = some [7, 8] ∧
      (¬∃ bytes, s.slice 0xfffffffffffffffe 3 = some bytes) ∧
      ∃ front back, s.slice 0xfffffffffffffffe 1 = some front ∧
        s.slice 0xffffffffffffffff 1 = some back ∧ [7, 8] = front ++ back := by
  have hread : ((ofFile topPath [7, 8]).toOption.map fun s =>
      (s.start, s.size, s.slice 0xfffffffffffffffe 2)) =
        some (0xfffffffffffffffe, 2, some [7, 8]) := by decide
  obtain ⟨s, hs, hparts⟩ := toOption_map_eq_some_iff.1 hread
  obtain ⟨hstart, hrest⟩ := Prod.mk.inj hparts
  obtain ⟨hsize, hslice⟩ := Prod.mk.inj hrest
  obtain ⟨-, hwithin, -, -, -, hlast, -, hsplit⟩ := slice_iff_of_ofFile hs 0xfffffffffffffffe
  refine ⟨s, hs, ?_, hslice, ?_, (hsplit 1 1 2 [7, 8] rfl (by decide) hslice).2⟩
  · rw [hlast, hstart, hsize]
    rfl
  · rw [hwithin, hstart, hsize]
    decide

end SectionDump.Section
