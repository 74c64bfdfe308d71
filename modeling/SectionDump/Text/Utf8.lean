import SectionDump.Text

/-!
# UTF-8

File names and metadata files are bytes. A byte sequence is read as units, each
a character or an ill-formed run, where a run ends at the first byte that no
character can continue with. Strict and lenient reading differ only in what they
make of an ill-formed run.
-/
namespace SectionDump

abbrev Bytes := List UInt8

namespace Utf8

def tail (n : Nat) : UInt8 := UInt8.ofNat (0x80 + n % 0x40)

def encodeChar (c : Char) : Bytes :=
  let n := c.toNat
  if n < 0x80 then [UInt8.ofNat n]
  else if n < 0x800 then [UInt8.ofNat (0xC0 + n / 0x40), tail n]
  else if n < 0x10000 then [UInt8.ofNat (0xE0 + n / 0x1000), tail (n / 0x40), tail n]
  else [UInt8.ofNat (0xF0 + n / 0x40000), tail (n / 0x1000), tail (n / 0x40), tail n]

def encode (s : Text) : Bytes := s.flatMap encodeChar

@[simp] theorem encode_nil : encode [] = [] := rfl
@[simp] theorem encode_cons (c : Char) (s : Text) : encode (c :: s) = encodeChar c ++ encode s := rfl
theorem encode_append (s t : Text) : encode (s ++ t) = encode s ++ encode t := by
  simp [encode]

/-- A character of which some bytes have been read. The next byte has to lie
between the two bounds; `owed` more follow it. -/
structure Unfinished where
  value : Nat
  owed : Nat
  low : Nat
  high : Nat
  deriving DecidableEq, Repr

/-- What the first byte of a character says about the rest. -/
inductive Lead where
  | char (c : Char)
  | more (p : Unfinished)
  | illFormed
  deriving DecidableEq, Repr

/-- The bounds on the second byte exclude overlong forms, surrogates and numbers
above the last code point. -/
def Lead.ofByte (byte : UInt8) : Lead :=
  let b := byte.toNat
  if b < 0x80 then .char (Char.ofNat b)
  else if b < 0xC2 then .illFormed
  else if b < 0xE0 then .more ⟨b - 0xC0, 0, 0x80, 0xBF⟩
  else if b < 0xF0 then
    .more ⟨b - 0xE0, 1, if b = 0xE0 then 0xA0 else 0x80, if b = 0xED then 0x9F else 0xBF⟩
  else if b < 0xF5 then
    .more ⟨b - 0xF0, 2, if b = 0xF0 then 0x90 else 0x80, if b = 0xF4 then 0x8F else 0xBF⟩
  else .illFormed

/-- The units of a byte sequence, `none` for an ill-formed run. The byte that
ends a run starts the next unit. -/
def unitsFrom : Option Unfinished → Bytes → List (Option Char)
  | none, [] => []
  | some _, [] => [none]
  | none, b :: rest => match Lead.ofByte b with
    | .char c => some c :: unitsFrom none rest
    | .more p => unitsFrom (some p) rest
    | .illFormed => none :: unitsFrom none rest
  | some p, b :: rest =>
    if p.low ≤ b.toNat ∧ b.toNat ≤ p.high then
      let value := p.value * 0x40 + (b.toNat - 0x80)
      match p.owed with
      | 0 => some (Char.ofNat value) :: unitsFrom none rest
      | owed + 1 => unitsFrom (some ⟨value, owed, 0x80, 0xBF⟩) rest
    else match Lead.ofByte b with
      | .char c => none :: some c :: unitsFrom none rest
      | .more q => none :: unitsFrom (some q) rest
      | .illFormed => none :: none :: unitsFrom none rest

def units (bytes : Bytes) : List (Option Char) := unitsFrom none bytes

@[simp] theorem units_nil : units [] = [] := rfl

/-- The text of well-formed bytes. -/
def decode? (bytes : Bytes) : Option Text := (units bytes).mapM id

@[simp] theorem decode?_nil : decode? [] = some [] := rfl

/-- The text of any bytes, with the replacement character for each ill-formed run. -/
def decodeLossy (bytes : Bytes) : Text := (units bytes).map (·.getD '\uFFFD')

end Utf8
end SectionDump
