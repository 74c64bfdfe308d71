import SectionDump.Text

/-!
# Numerals

Positional numerals for 64-bit words. Reading is strict: digits only, at least
one, any number of leading zeros, and a value below `2 ^ 64`. Nothing wraps and
no sign, separator or blank is skipped.
-/
namespace SectionDump.Numeral

/-- The value of a digit, where letters of either case continue after nine. -/
def digit? (c : Char) : Option Nat :=
  if '0' ≤ c ∧ c ≤ '9' then some (c.toNat - 48)
  else if 'a' ≤ c ∧ c ≤ 'z' then some (c.toNat - 87)
  else if 'A' ≤ c ∧ c ≤ 'Z' then some (c.toNat - 55)
  else none

/-- A digit of the given base. -/
def digitOf? (base : Nat) (c : Char) : Option Nat := (digit? c).filter (· < base)

/-- Most significant digit first. -/
def positional (base : Nat) (digits : List Nat) : Nat :=
  digits.foldl (fun value d => value * base + d) 0

@[simp] theorem positional_nil (base : Nat) : positional base [] = 0 := rfl

theorem positional_concat (base : Nat) (ds : List Nat) (d : Nat) :
    positional base (ds ++ [d]) = positional base ds * base + d := by simp [positional]

/-- The natural number that one or more digits stand for. -/
def natural? (base : Nat) : Text → Option Nat
  | [] => none
  | s => (s.mapM (digitOf? base)).map (positional base)

@[simp] theorem natural?_nil (base : Nat) : natural? base [] = none := rfl

/-- Numbers that do not fit into a word are refused, not reduced. -/
def word? (n : Nat) : Option UInt64 := if n < UInt64.size then some (UInt64.ofNat n) else none

theorem word?_eq_some_iff {n : Nat} {w : UInt64} : word? n = some w ↔ n = w.toNat := by
  unfold word?
  constructor
  · intro h
    split at h
    · rename_i hn
      simp only [Option.some.injEq] at h
      rw [← h, UInt64.toNat_ofNat_of_lt' hn]
    · simp at h
  · rintro rfl
    simp [UInt64.toNat_lt_size w]

def decimal? (s : Text) : Option UInt64 := (natural? 10 s).bind word?

/-- Drops one leading `0x` or `0X`. -/
def dropHexMark : Text → Text
  | '0' :: 'x' :: r => r
  | '0' :: 'X' :: r => r
  | s => s

/-- A hexadecimal word, with or without its mark. -/
def hex? (s : Text) : Option UInt64 := (natural? 16 (dropHexMark s)).bind word?

/-- A decimal word that may carry one plus sign. -/
def count? : Text → Option UInt64
  | '+' :: r => decimal? r
  | s => decimal? s

/-- Decimal digits without leading zeros. -/
def ofNat (n : Nat) : Text := Nat.toDigits 10 n

def decimal (w : UInt64) : Text := ofNat w.toNat

/-- Lower-case hexadecimal digits without leading zeros. -/
def hex (w : UInt64) : Text := Nat.toDigits 16 w.toNat

def markedHex (w : UInt64) : Text := '0' :: 'x' :: hex w

/-- A marked numeral with zeros in front up to the given number of digits. -/
def paddedHex (digits : Nat) (w : UInt64) : Text := '0' :: 'x' :: (hex w).leftpad digits '0'

/-- The two digits of a byte. -/
def hexByte (b : UInt8) : Text := (Nat.toDigits 16 b.toNat).leftpad 2 '0'

@[simp] theorem dropHexMark_markedHex (w : UInt64) : dropHexMark (markedHex w) = hex w := rfl

end SectionDump.Numeral
