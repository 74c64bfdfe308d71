import Mathlib.Algebra.Order.Floor.Div
import SectionDump.Inspection
import SectionDump.Proofs.Numerals
import SectionDump.Proofs.Outcomes
import SectionDump.Proofs.Reading

/-!
# Hex dumps

The bytes of a read are shown in rows of sixteen, as few as it takes. The rows of a read
that succeeds all start at addresses of its section, so none of them starts over at zero.
Every byte is in one row and shown there with both its digits, so the bytes can be had
back from the lines.
-/
namespace SectionDump

namespace Numeral

/-! ## Addresses and bytes in digits -/

/-- The number in lower-case hexadecimal digits, with zeros in front of a short one until
there are so many digits. -/
structure PadsHex (count : Nat) (digits : Text) (n : Nat) : Prop where
  exists_values : ∃ values : List Nat, digits = values.map Nat.digitChar ∧ (∀ d ∈ values, d < 16) ∧
    positional 16 values = n
  le_length : count ≤ digits.length
  head?_ne : count < digits.length → digits.head? ≠ some '0'

theorem positional_replicate_zero (base k : Nat) (ds : List Nat) :
    positional base (List.replicate k 0 ++ ds) = positional base ds := by
  induction k with
  | zero => rfl
  | succ k ih =>
    rw [List.replicate_succ, List.cons_append, ← ih]
    simp [positional]

theorem padsHex_leftpad {count : Nat} (hcount : 0 < count) (w : UInt64) :
    PadsHex count ((hex w).leftpad count '0') w.toNat := by
  have hwrites := writes_hex w
  constructor
  case exists_values =>
    obtain ⟨values, hvalues, hlt, hw⟩ := hwrites.exists_values
    refine ⟨List.replicate (count - (hex w).length) 0 ++ values, ?_, ?_, ?_⟩
    · rw [List.map_append, List.map_replicate, ← hvalues]
      rfl
    · intro d hd
      rcases List.mem_append.1 hd with hd | hd
      · rw [List.eq_of_mem_replicate hd]
        decide
      · exact hlt d hd
    · rw [positional_replicate_zero, hw]
  case le_length =>
    rw [List.length_leftpad]
    exact Nat.le_max_left _ _
  case head?_ne =>
    intro hlong
    rw [List.length_leftpad] at hlong
    have hnone : count - (hex w).length = 0 := by omega
    rw [List.leftpad, hnone]
    exact hwrites.head?_ne (by omega)

theorem PadsHex.digit?_ne {count n : Nat} {digits : Text} (h : PadsHex count digits n) {c : Char}
    (hc : c ∈ digits) : digit? c ≠ none := by
  obtain ⟨values, rfl, hlt, -⟩ := h.exists_values
  obtain ⟨d, hd, rfl⟩ := List.mem_map.1 hc
  rw [digit?_digitChar ⟨d, hlt d hd⟩]
  exact Option.some_ne_none d

/-- The byte that two hexadecimal digits stand for. -/
def byte? : Text → Option UInt8
  | [high, low] => (digitOf? 16 high).bind fun h => (digitOf? 16 low).map fun l => .ofNat (16 * h + l)
  | _ => none

theorem hexByte_eq (b : UInt8) :
    hexByte b = [Nat.digitChar (b.toNat / 16), Nat.digitChar (b.toNat % 16)] := by
  have hlt := b.toNat_lt
  by_cases h : b.toNat < 16
  · rw [hexByte, Nat.toDigits_of_lt_base h, Nat.div_eq_of_lt h, Nat.mod_eq_of_lt h]
    rfl
  · rw [hexByte, Nat.toDigits_of_base_le (by decide) (by omega),
      Nat.toDigits_of_lt_base (show b.toNat / 16 < 16 by omega)]
    rfl

theorem byte?_hexByte (b : UInt8) : byte? (hexByte b) = some b := by
  have hlt := b.toNat_lt
  have hhigh : digitOf? 16 (Nat.digitChar (b.toNat / 16)) = some (b.toNat / 16) :=
    digitOf?_digitChar (by decide) (by omega)
  have hlow : digitOf? 16 (Nat.digitChar (b.toNat % 16)) = some (b.toNat % 16) :=
    digitOf?_digitChar (by decide) (by omega)
  rw [hexByte_eq, byte?, hhigh, Option.bind_some, hlow, Option.map_some, Nat.div_add_mod,
    UInt8.ofNat_toNat]

theorem digit?_of_mem_hexByte {b : UInt8} {c : Char} (hc : c ∈ hexByte b) : digit? c ≠ none := by
  have hlt := b.toNat_lt
  have hdigit : ∀ d < 16, digit? (Nat.digitChar d) ≠ none := by decide
  rw [hexByte_eq, List.mem_cons, List.mem_singleton] at hc
  rcases hc with rfl | rfl
  · exact hdigit _ (by omega)
  · exact hdigit _ (by omega)

end Numeral

namespace Inspection

open Numeral (PadsHex)

/-! ## Rows of bytes -/

theorem rows_of_ne_nil {bytes : Bytes} (h : bytes ≠ []) :
    rows bytes = bytes.take rowLength :: rows (bytes.drop rowLength) := by
  cases bytes with
  | nil => exact absurd rfl h
  | cons b rest => rw [rows]

/-- As few rows as it takes. -/
theorem length_rows (bytes : Bytes) : (rows bytes).length = bytes.length ⌈/⌉ 16 := by
  rw [Nat.ceilDiv_eq_add_pred_div]
  induction bytes using rows.induct with
  | case1 =>
    rw [rows]
    rfl
  | case2 b rest ih =>
    rw [rows, List.length_cons, ih, List.length_drop, List.length_cons, rowLength]
    omega

/-- No byte is lost in the last row. -/
theorem flatten_rows (bytes : Bytes) : (rows bytes).flatten = bytes := by
  induction bytes using rows.induct with
  | case1 =>
    rw [rows]
    rfl
  | case2 b rest ih => rw [rows, List.flatten_cons, ih, List.take_append_drop]

theorem getElem?_rows {bytes : Bytes} {k : Nat} (h : rowLength * k < bytes.length) :
    (rows bytes)[k]? = some ((bytes.drop (rowLength * k)).take rowLength) := by
  have hne : bytes ≠ [] := List.ne_nil_of_length_pos (by omega)
  rw [rows_of_ne_nil hne]
  induction k generalizing bytes with
  | zero => rfl
  | succ k ih =>
    rw [Nat.mul_succ] at h
    have hrest : rowLength * k < (bytes.drop rowLength).length := by
      rw [List.length_drop]
      omega
    have hrest_ne : bytes.drop rowLength ≠ [] := List.ne_nil_of_length_pos (by omega)
    rw [List.getElem?_cons_succ, rows_of_ne_nil hrest_ne, ih hrest hrest_ne, List.drop_drop,
      Nat.mul_succ, Nat.add_comm]

theorem row_of_rows {bytes row : Bytes} {k : Nat} (h : (rows bytes)[k]? = some row) :
    16 * k < bytes.length ∧ row.length = min 16 (bytes.length - 16 * k) := by
  obtain ⟨hk, -⟩ := List.getElem?_eq_some_iff.1 h
  rw [length_rows, Nat.ceilDiv_eq_add_pred_div] at hk
  have hlt : rowLength * k < bytes.length := by
    rw [rowLength]
    omega
  rw [getElem?_rows hlt] at h
  rw [← Option.some.inj h, List.length_take, List.length_drop]
  exact ⟨hlt, rfl⟩

/-! ## Lines -/

/-- The bytes that a line shows behind its address, two digits each and a blank between
them. -/
def rowBytes? (line : Text) : Option Bytes :=
  (Text.cut? (· == ' ') line).bind fun (_, shown) => (shown.splitOn ' ').mapM Numeral.byte?

/-- The bytes that lines show, in order. -/
def bytesOf? (lines : List Text) : Option Bytes := (lines.mapM rowBytes?).map List.flatten

/-- A line that shows an address and the bytes from there on. -/
structure ShowsRow (address : Nat) (row : Bytes) (line : Text) : Prop where
  address : ∃ digits shown, line = '0' :: 'x' :: digits ++ ':' :: ' ' :: shown ∧
    PadsHex 8 digits address
  bytes : rowBytes? line = some row
  newline_not_mem : '\n' ∉ line

/-- The bytes of a row as a line shows them. -/
def shown (row : Bytes) : Text := " ".toList.intercalate (row.map Numeral.hexByte)

theorem mem_intercalate {c sep : Char} {pieces : List Text}
    (h : c ∈ List.intercalate [sep] pieces) : c = sep ∨ ∃ piece ∈ pieces, c ∈ piece := by
  induction pieces with
  | nil => simp at h
  | cons piece rest ih =>
    cases rest with
    | nil => exact .inr ⟨piece, List.mem_singleton_self _, by simpa using h⟩
    | cons next rest =>
      rw [List.intercalate_cons_cons, List.mem_append, List.mem_append, List.mem_singleton] at h
      rcases h with (h | h) | h
      · exact .inr ⟨piece, List.mem_cons_self, h⟩
      · exact .inl h
      · rcases ih h with h | ⟨other, hother, h⟩
        · exact .inl h
        · exact .inr ⟨other, List.mem_cons_of_mem _ hother, h⟩

/-- Digits are no blanks, so a row is taken apart where it was put together. -/
theorem mapM_byte?_shown {row : Bytes} (h : row ≠ []) :
    ((shown row).splitOn ' ').mapM Numeral.byte? = some row := by
  have hblank : ∀ piece ∈ row.map Numeral.hexByte, ' ' ∉ piece := by
    intro piece hpiece hm
    obtain ⟨b, -, rfl⟩ := List.mem_map.1 hpiece
    exact Numeral.digit?_of_mem_hexByte hm (by decide)
  have hsplit : (shown row).splitOn ' ' = row.map Numeral.hexByte :=
    List.splitOn_intercalate ' ' hblank (by simpa using h)
  rw [hsplit]
  clear h hblank hsplit
  induction row with
  | nil => rfl
  | cons b rest ih =>
    rw [List.map_cons, List.mapM_cons, Numeral.byte?_hexByte, ih]
    rfl

theorem newline_not_mem_shown (row : Bytes) : '\n' ∉ shown row := by
  intro hm
  rcases mem_intercalate hm with h | ⟨piece, hpiece, hm⟩
  · exact absurd h (by decide)
  · obtain ⟨b, -, rfl⟩ := List.mem_map.1 hpiece
    exact Numeral.digit?_of_mem_hexByte hm (by decide)

theorem showsRow_of_padsHex {address : Nat} {digits : Text} {row : Bytes}
    (hdigits : PadsHex 8 digits address) (hrow : row ≠ []) :
    ShowsRow address row ('0' :: 'x' :: digits ++ ':' :: ' ' :: shown row) := by
  refine ⟨⟨digits, shown row, rfl, hdigits⟩, ?_, ?_⟩
  · have hblank : ' ' ∉ '0' :: 'x' :: digits ++ [':'] := by
      have hnot : ' ' ∉ digits := fun hm => hdigits.digit?_ne hm (by decide)
      simp [hnot]
    have hcut : Text.cut? (· == ' ') ('0' :: 'x' :: digits ++ ':' :: ' ' :: shown row) =
        some ('0' :: 'x' :: digits ++ [':'], shown row) :=
      Text.cut?_at_eq_some_iff.2 ⟨by simp, hblank⟩
    rw [rowBytes?, hcut]
    exact mapM_byte?_shown hrow
  · have hnot : '\n' ∉ digits := fun hm => hdigits.digit?_ne hm (by decide)
    simp [hnot, newline_not_mem_shown]

theorem showsRow_rowLine (a : UInt64) {row : Bytes} (h : row ≠ []) :
    ShowsRow a.toNat row (rowLine a row) := by
  have hline := showsRow_of_padsHex (Numeral.padsHex_leftpad (show 0 < 8 by decide) a) h
  rw [rowLine, Numeral.paddedHex, List.append_assoc]
  exact hline

/-! ## Dumps -/

theorem length_hexDump (a : UInt64) (bytes : Bytes) :
    (hexDump a bytes).length = bytes.length ⌈/⌉ 16 := by
  rw [hexDump, List.length_map, List.length_zipIdx, length_rows]

theorem getElem?_hexDump (a : UInt64) (bytes : Bytes) (k : Nat) :
    (hexDump a bytes)[k]? =
      (rows bytes)[k]?.map (rowLine (a + .ofNat (rowLength * k))) := by
  rw [hexDump, List.getElem?_map, List.getElem?_zipIdx, Option.map_map, Nat.zero_add]
  rfl

theorem ne_nil_of_row {bytes row : Bytes} {k : Nat} (h : (rows bytes)[k]? = some row) :
    row ≠ [] := by
  obtain ⟨hk, hlength⟩ := row_of_rows h
  rintro rfl
  rw [List.length_nil] at hlength
  omega

/-- The line of a row, whose address does not wrap where the bytes end in time. -/
theorem showsRow_of_hexDump {a : UInt64} {bytes : Bytes}
    (hfit : a.toNat + bytes.length ≤ UInt64.size) {k : Nat} {line : Text}
    (h : (hexDump a bytes)[k]? = some line) :
    a.toNat + 16 * k < UInt64.size ∧
      ∃ row, (rows bytes)[k]? = some row ∧ ShowsRow (a.toNat + 16 * k) row line := by
  rw [getElem?_hexDump] at h
  obtain ⟨row, hrow, rfl⟩ := Option.map_eq_some_iff.1 h
  obtain ⟨hk, -⟩ := row_of_rows hrow
  have hlt : a.toNat + 16 * k < UInt64.size := by omega
  have haddress : (a + .ofNat (rowLength * k)).toNat = a.toNat + 16 * k := by
    rw [UInt64.size] at hlt
    rw [UInt64.toNat_add, UInt64.toNat_ofNat', rowLength, Nat.add_mod_mod, Nat.mod_eq_of_lt hlt]
  refine ⟨hlt, row, hrow, ?_⟩
  rw [← haddress]
  exact showsRow_rowLine _ (ne_nil_of_row hrow)

theorem mapM_rowBytes? {l : List Bytes} (h : ∀ row ∈ l, row ≠ []) (address : Nat → UInt64)
    (i : Nat) :
    ((l.zipIdx i).map fun (row, j) => rowLine (address j) row).mapM rowBytes? = some l := by
  induction l generalizing i with
  | nil => rfl
  | cons row rest ih =>
    rw [List.forall_mem_cons] at h
    rw [List.zipIdx_cons, List.map_cons, List.mapM_cons, (showsRow_rowLine _ h.1).bytes, ih h.2]
    rfl

/-- The bytes can be had back from the lines. -/
theorem bytesOf?_hexDump (a : UInt64) (bytes : Bytes) :
    bytesOf? (hexDump a bytes) = some bytes := by
  have hne : ∀ row ∈ rows bytes, row ≠ [] := by
    intro row hrow
    obtain ⟨k, hk⟩ := List.mem_iff_getElem?.1 hrow
    exact ne_nil_of_row hk
  rw [bytesOf?, hexDump, mapM_rowBytes? hne (fun j => a + .ofNat (rowLength * j)), Option.map_some,
    flatten_rows]

/-- The lines show as many bytes as given from the address on: sixteen in each line but
the last one, which shows what is left. -/
structure HexDumps (a n : UInt64) (bytes : Bytes) (lines : List Text) : Prop where
  length_eq : lines.length = n.toNat ⌈/⌉ 16
  /-- The address of a line does not wrap. -/
  address_lt : ∀ k < lines.length, a.toNat + 16 * k < UInt64.size
  line : ∀ k line, lines[k]? = some line → ∃ row, ShowsRow (a.toNat + 16 * k) row line ∧
    (k + 1 < lines.length → row.length = 16) ∧
    (k + 1 = lines.length → row.length = n.toNat - 16 * k ∧ 0 < row.length ∧ row.length ≤ 16)
  bytes_eq : bytesOf? lines = some bytes

/-- What a read that succeeds prints is a dump of its bytes, at the end of the address
space as everywhere else. A read of no bytes prints nothing. -/
theorem hexDumps_of_read (image : Image) (r : ReadRequest) {bytes : Bytes}
    (h : image.read r.address r.size = .ok bytes) :
    HexDumps r.address r.size bytes (readLines image r) := by
  have hlength := image.length_of_read h
  have hfit : r.address.toNat + bytes.length ≤ UInt64.size := hlength ▸ image.add_le_of_read h
  have hlines : readLines image r = hexDump r.address bytes := by rw [readLines, h]
  have hcount : (hexDump r.address bytes).length = r.size.toNat ⌈/⌉ 16 := by
    rw [length_hexDump, hlength]
  rw [hlines]
  constructor
  case length_eq => exact hcount
  case address_lt =>
    intro k hk
    exact (showsRow_of_hexDump hfit (List.getElem?_eq_getElem hk)).1
  case line =>
    intro k line hline
    obtain ⟨-, row, hrow, hshows⟩ := showsRow_of_hexDump hfit hline
    obtain ⟨hk, hrowLength⟩ := row_of_rows hrow
    rw [hlength] at hk hrowLength
    rw [hcount, Nat.ceilDiv_eq_add_pred_div]
    exact ⟨row, hshows, by omega, by omega⟩
  case bytes_eq => exact bytesOf?_hexDump r.address bytes

/-! Seventeen bytes that end with the address space: the second line is for the last
address of all. -/

def topBytes : Bytes := [0, 1, 2, 3, 4, 5, 6, 7, 8, 9, 10, 11, 12, 13, 14, 15, 255]

def topFiles : List (Path × Bytes) := [("top-ffffffffffffffef-17-0-r.bin".toList, topBytes)]

def topRequest : ReadRequest := ⟨0xffffffffffffffef, 17⟩

theorem hexDumps_of_read_top :
    ∃ image, Image.build topFiles none = .ok image ∧
      image.read topRequest.address topRequest.size = .ok topBytes ∧
      HexDumps topRequest.address topRequest.size topBytes (readLines image topRequest) ∧
      readLines image topRequest =
        ["0xffffffffffffffef: 00 01 02 03 04 05 06 07 08 09 0a 0b 0c 0d 0e 0f".toList,
          "0xffffffffffffffff: ff".toList] := by
  have hboth : ((Image.build topFiles none).toOption.map fun image =>
      (image.read topRequest.address topRequest.size, readLines image topRequest)) =
        some (.ok topBytes,
          ["0xffffffffffffffef: 00 01 02 03 04 05 06 07 08 09 0a 0b 0c 0d 0e 0f".toList,
            "0xffffffffffffffff: ff".toList]) := by decide +kernel
  obtain ⟨image, himage, hparts⟩ := toOption_map_eq_some_iff.1 hboth
  obtain ⟨hread, hlines⟩ := Prod.mk.inj hparts
  exact ⟨image, himage, hread, hexDumps_of_read image topRequest hread, hlines⟩

end Inspection
end SectionDump
