import SectionDump.Inspection
import SectionDump.Proofs.Numerals

/-!
# Describing

The line for a section tells its name, its first and its last address, how many bytes it
has, where they were in the dumped file, and its flags. No number is written with zeros in
front, and the addresses do not wrap.
-/
namespace SectionDump.Inspection

open Numeral (Writes writes_hex writes_decimal)

/-- What a line says of a section. The last address of an empty one is its first. -/
inductive Describes (s : Section) : Text → Prop where
  | line {first last size offset : Text} (hfirst : Writes 16 first s.id.start.toNat)
      (hlast : Writes 16 last (s.id.start.toNat + (s.id.size.toNat - 1)))
      (hsize : Writes 10 size s.id.size.toNat) (hoffset : Writes 10 offset s.id.offset.toNat) :
      Describes s (s.id.name ++ " [0x".toList ++ first ++ ", 0x".toList ++ last ++
        "] size ".toList ++ size ++ " offset ".toList ++ offset ++ " flags ".toList ++ s.id.flags)

theorem describes_describe (s : Section) : Describes s (describe s) := by
  have hlast : Writes 16 (Numeral.hex s.last) (s.id.start.toNat + (s.id.size.toNat - 1)) := by
    have hwrites := writes_hex s.last
    rwa [s.toNat_last_eq] at hwrites
  have hline := Describes.line (writes_hex s.id.start) hlast (writes_decimal s.id.size)
    (writes_decimal s.id.offset)
  -- The marks of the addresses stand in the words there and in the numerals here.
  simpa [describe, Numeral.markedHex, Section.name, Section.start, Section.size] using hline

end SectionDump.Inspection
