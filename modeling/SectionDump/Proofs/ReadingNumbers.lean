import Mathlib.Algebra.BigOperators.Fin
import Mathlib.Tactic.Ring
import SectionDump.Proofs.Slicing

/-!
# Reading numbers

A number is read from as many bytes as it is wide, and fails where these cannot be
read. Its value is the sum of the bytes by their places, from either end, so a number
that is read at once is put together from its halves. The halves can be read where the
whole cannot: when one section ends between them.
-/
namespace SectionDump

namespace ByteOrder

/-! ## Values of bytes -/

/-- What the byte at a place of so many counts for. -/
def weight : ByteOrder → Nat → Nat → Nat
  | .little, _, i => 256 ^ i
  | .big, count, i => 256 ^ (count - 1 - i)

/-- The bytes, each by the weight of its place. -/
def sum (order : ByteOrder) (bytes : Bytes) : Nat :=
  ∑ i : Fin bytes.length, bytes[i].toNat * order.weight bytes.length i

theorem value_little_cons (b : UInt8) (bytes : Bytes) :
    value .little (b :: bytes) = b.toNat + 256 * value .little bytes := rfl

theorem value_big_eq (bytes : Bytes) : value .big bytes = value .little bytes.reverse := by
  rw [value, value, List.foldr_reverse]
  congr 1
  funext front b
  exact Nat.add_comm _ _

theorem value_little_append (x y : Bytes) :
    value .little (x ++ y) = value .little x + 256 ^ x.length * value .little y := by
  induction x with
  | nil => simp [value]
  | cons b r ih =>
    rw [List.cons_append, value_little_cons, ih, value_little_cons, List.length_cons]
    ring

theorem value_big_append (x y : Bytes) :
    value .big (x ++ y) = 256 ^ y.length * value .big x + value .big y := by
  rw [value_big_eq, List.reverse_append, value_little_append, List.length_reverse,
    ← value_big_eq, ← value_big_eq, Nat.add_comm]

theorem value_little_lt (bytes : Bytes) : value .little bytes < 256 ^ bytes.length := by
  induction bytes with
  | nil => simp [value]
  | cons b r ih =>
    have hb := b.toNat_lt
    rw [value_little_cons, List.length_cons, pow_succ]
    omega

theorem value_lt (order : ByteOrder) (bytes : Bytes) :
    order.value bytes < 256 ^ bytes.length := by
  cases order with
  | little => exact value_little_lt bytes
  | big =>
    have hlt := value_little_lt bytes.reverse
    rwa [List.length_reverse, ← value_big_eq] at hlt

theorem value_big_cons (b : UInt8) (bytes : Bytes) :
    value .big (b :: bytes) = 256 ^ bytes.length * b.toNat + value .big bytes := by
  have happend := value_big_append [b] bytes
  rwa [List.singleton_append, show value .big [b] = b.toNat from Nat.zero_add _] at happend

theorem sum_cons (order : ByteOrder) (b : UInt8) (bytes : Bytes) :
    order.sum (b :: bytes) = b.toNat * order.weight (bytes.length + 1) 0 +
      ∑ i : Fin bytes.length, bytes[i].toNat * order.weight (bytes.length + 1) (i + 1) :=
  Fin.sum_univ_succ _

/-- Folding bytes from either end adds them up by their weights. -/
theorem value_eq_sum (order : ByteOrder) (bytes : Bytes) :
    order.value bytes = order.sum bytes := by
  induction bytes with
  | nil => cases order <;> rfl
  | cons b r ih =>
    rw [sum_cons]
    rw [sum] at ih
    cases order with
    | little =>
      have hweight : ∀ i, weight .little (r.length + 1) (i + 1) = 256 * weight .little r.length i :=
        fun i => Nat.pow_succ'
      simp only [value_little_cons, ih, hweight, Finset.mul_sum, Nat.mul_left_comm 256]
      rw [show b.toNat * weight .little (r.length + 1) 0 = b.toNat from Nat.mul_one _]
    | big =>
      have hweight : ∀ i, weight .big (r.length + 1) (i + 1) = weight .big r.length i := by
        intro i
        rw [weight, weight, show r.length + 1 - 1 - (i + 1) = r.length - 1 - i by omega]
      have hfirst : weight .big (r.length + 1) 0 = 256 ^ r.length := rfl
      simp only [value_big_cons, ih, hweight, hfirst, Nat.mul_comm (256 ^ r.length)]

end ByteOrder

namespace Image

/-! ## Numbers of one width -/

/-- The outcome is the number that as many bytes at the address stand for, and fails as
reading these bytes does. -/
structure ReadsNumber {W : Type} (image : Image) (a n : UInt64) (order : ByteOrder)
    (toNat : W → Nat) (outcome : Except QueryFault W) : Prop where
  error_iff : ∀ fault, outcome = .error fault ↔ image.read a n = .error fault
  ok_iff : ∀ w, outcome = .ok w ↔
    ∃ bytes, image.read a n = .ok bytes ∧ bytes.length = n.toNat ∧ toNat w = order.sum bytes

/-- The width has room for every value of so many bytes. -/
theorem readsNumber_map {W : Type} {toNat : W → Nat} {ofNat : Nat → W} {n : UInt64}
    (hround : ∀ w, ofNat (toNat w) = w) (hroom : ∀ v < 256 ^ n.toNat, toNat (ofNat v) = v)
    (image : Image) (a : UInt64) (order : ByteOrder) :
    image.ReadsNumber a n order toNat
      ((image.read a n).map fun bytes => ofNat (order.value bytes)) := by
  cases hread : image.read a n with
  | error fault => exact ⟨by simp [Except.map, hread], by simp [Except.map, hread]⟩
  | ok bytes =>
    have hlength := image.length_of_read hread
    have hvalue : toNat (ofNat (order.value bytes)) = order.sum bytes := by
      rw [hroom _ (hlength ▸ order.value_lt bytes), order.value_eq_sum]
    refine ⟨by simp [Except.map, hread], fun w => ?_⟩
    constructor
    · intro h
      cases h
      exact ⟨bytes, hread, hlength, hvalue⟩
    · rintro ⟨own, hown, -, hw⟩
      rw [hread] at hown
      cases hown
      rw [Except.map, ← hround w, hw, ← order.value_eq_sum]

theorem readsNumber_uInt16 (image : Image) (a : UInt64) (order : ByteOrder) :
    image.ReadsNumber a 2 order UInt16.toNat (image.readUInt16 a order) :=
  readsNumber_map (fun _ => UInt16.ofNat_toNat)
    (fun v (hv : v < 256 ^ (2 : UInt64).toNat) => UInt16.toNat_ofNat_of_lt' hv) image a order

theorem readsNumber_uInt32 (image : Image) (a : UInt64) (order : ByteOrder) :
    image.ReadsNumber a 4 order UInt32.toNat (image.readUInt32 a order) :=
  readsNumber_map (fun _ => UInt32.ofNat_toNat)
    (fun v (hv : v < 256 ^ (4 : UInt64).toNat) => UInt32.toNat_ofNat_of_lt' hv) image a order

theorem readsNumber_uInt64 (image : Image) (a : UInt64) (order : ByteOrder) :
    image.ReadsNumber a 8 order UInt64.toNat (image.readUInt64 a order) :=
  readsNumber_map (fun _ => UInt64.ofNat_toNat)
    (fun v (hv : v < 256 ^ (8 : UInt64).toNat) => UInt64.toNat_ofNat_of_lt' hv) image a order

end Image

/-! ## Halves of a range -/

/-- One width is half of another. -/
structure IsHalf (half whole : UInt64) : Prop where
  ne_zero : half ≠ 0
  twice : whole.toNat = half.toNat + half.toNat

theorem IsHalf.whole_ne_zero {half whole : UInt64} (h : IsHalf half whole) : whole ≠ 0 := by
  rintro rfl
  have hpos : 0 < half.toNat := UInt64.pos_iff_ne_zero.2 h.ne_zero
  have htwice := h.twice
  rw [UInt64.toNat_zero] at htwice
  omega

namespace Section

variable {s : Section} {a half whole : UInt64}

/-- A section that holds a whole range holds the second half behind the first one, and
addresses have not begun again at zero there. -/
theorem toNat_add_of_holdsAll (hhalf : IsHalf half whole) (h : s.HoldsAll a whole) :
    (a + half).toNat = a.toNat + half.toNat :=
  toNat_add_of_within hhalf.twice hhalf.ne_zero ((holdsAll_iff hhalf.whole_ne_zero).1 h)

/-- No section is as long as the address space, so one that holds both halves does not
hold the second one from zero on. -/
theorem toNat_add_of_halves (hhalf : half ≠ 0) (hfront : s.HoldsAll a half)
    (hback : s.HoldsAll (a + half) half) : (a + half).toNat = a.toNat + half.toNat := by
  have hend := add_le_of_holdsAll hhalf hfront
  have hsize := s.size.toNat_lt
  obtain ⟨-, hfront⟩ := (holdsAll_iff hhalf).1 hfront
  obtain ⟨hback, -⟩ := (holdsAll_iff hhalf).1 hback
  rw [UInt64.size] at hend
  rw [UInt64.toNat_add] at hback ⊢
  omega

theorem holdsAll_halves_iff (hhalf : IsHalf half whole)
    (hadd : (a + half).toNat = a.toNat + half.toNat) :
    s.HoldsAll a whole ↔ s.HoldsAll a half ∧ s.HoldsAll (a + half) half := by
  have htwice := hhalf.twice
  constructor
  · intro h
    constructor
    · intro i hi
      exact h i (by omega)
    · intro i hi
      rw [hadd, Nat.add_assoc]
      exact h (half.toNat + i) (by omega)
  · rintro ⟨hfront, hback⟩ i hi
    by_cases hlt : i < half.toNat
    · exact hfront i hlt
    · have hcovers := hback (i - half.toNat) (by omega)
      rwa [hadd, show a.toNat + half.toNat + (i - half.toNat) = a.toNat + i by omega] at hcovers

end Section

namespace Image

section Halves

variable {a half whole : UInt64}

/-- A range that can be read can be read half by half. -/
theorem read_halves (image : Image) (hhalf : IsHalf half whole) {bytes : Bytes}
    (h : image.read a whole = .ok bytes) :
    image.read a half = .ok (bytes.take half.toNat) ∧
      image.read (a + half) half = .ok (bytes.drop half.toNat) ∧
      (a + half).toNat = a.toNat + half.toNat := by
  obtain ⟨s, hs, hall, hbytes⟩ := (image.read_eq_ok_iff hhalf.whole_ne_zero).1 h
  have hadd := Section.toNat_add_of_holdsAll hhalf hall
  have hstart := ((Section.holdsAll_iff hhalf.whole_ne_zero).1 hall).1
  obtain ⟨hfront, hback⟩ := (Section.holdsAll_halves_iff hhalf hadd).1 hall
  obtain ⟨hfirst, hsecond⟩ := hbytes.split hhalf.twice hstart hadd
  exact ⟨(image.read_eq_ok_iff hhalf.ne_zero).2 ⟨s, hs, hfront, hfirst⟩,
    (image.read_eq_ok_iff hhalf.ne_zero).2 ⟨s, hs, hback, hsecond⟩, hadd⟩

/-- Bytes that can be read are of the section that the first of them is in. -/
theorem exists_find_of_read (image : Image) (hhalf : half ≠ 0) {bytes : Bytes}
    (h : image.read a half = .ok bytes) :
    ∃ s ∈ image.sections.toList, image.find a = .ok s ∧ s.HoldsAll a half := by
  obtain ⟨s, hs, hall, -⟩ := (image.read_eq_ok_iff hhalf).1 h
  exact ⟨s, hs, image.find_eq_ok_iff.2 ⟨hs, Section.covers_of_holdsAll hhalf hall⟩, hall⟩

/-- Where both halves can be read, the whole cannot exactly when they are in different
sections. -/
theorem read_halves_error_iff (image : Image) (hhalf : IsHalf half whole) {front back : Bytes}
    (hfront : image.read a half = .ok front) (hback : image.read (a + half) half = .ok back) :
    ∃ s t, image.find a = .ok s ∧ image.find (a + half) = .ok t ∧
      ((∃ fault, image.read a whole = .error fault) ↔ s ≠ t) := by
  obtain ⟨s, hs, hfinds, hsall⟩ := image.exists_find_of_read hhalf.ne_zero hfront
  obtain ⟨t, -, hfindt, htall⟩ := image.exists_find_of_read hhalf.ne_zero hback
  refine ⟨s, t, hfinds, hfindt, ?_⟩
  constructor
  · rintro ⟨fault, hfault⟩ rfl
    have hadd := Section.toNat_add_of_halves hhalf.ne_zero hsall htall
    have hall := (Section.holdsAll_halves_iff hhalf hadd).2 ⟨hsall, htall⟩
    obtain ⟨bytes, hread⟩ := (image.exists_read_iff hhalf.whole_ne_zero).2 ⟨s, hs, hall⟩
    rw [hfault] at hread
    cases hread
  · intro hst
    -- The section of the whole would be that of both halves.
    cases hread : image.read a whole with
    | error fault => exact ⟨fault, rfl⟩
    | ok bytes =>
      obtain ⟨u, hu, hfindu, hall⟩ := image.exists_find_of_read hhalf.whole_ne_zero hread
      have hadd := Section.toNat_add_of_holdsAll hhalf hall
      have huback := ((Section.holdsAll_halves_iff hhalf hadd).1 hall).2
      have hfindu' : image.find (a + half) = .ok u :=
        image.find_eq_ok_iff.2 ⟨hu, Section.covers_of_holdsAll hhalf.ne_zero huback⟩
      rw [hfinds] at hfindu
      rw [hfindt] at hfindu'
      cases hfindu
      cases hfindu'
      exact absurd rfl hst

end Halves

/-! ## Halves of numbers -/

theorem ReadsNumber.exists_of_read {W : Type} {image : Image} {a n : UInt64}
    {order : ByteOrder} {toNat : W → Nat} {outcome : Except QueryFault W}
    (h : image.ReadsNumber a n order toNat outcome) {bytes : Bytes}
    (hread : image.read a n = .ok bytes) : ∃ w, outcome = .ok w ∧ toNat w = order.sum bytes := by
  cases hw : outcome with
  | error fault =>
    rw [(h.error_iff fault).1 hw] at hread
    cases hread
  | ok w =>
    obtain ⟨own, hown, -, hvalue⟩ := (h.ok_iff w).1 hw
    rw [hread] at hown
    cases hown
    exact ⟨w, rfl, hvalue⟩

/-- The wide outcomes are put together from the narrow ones, the first half being the low
one or the high one. -/
structure Joins {W V : Type} (image : Image) (a half : UInt64)
    (wide : ByteOrder → Except QueryFault W) (narrow : UInt64 → ByteOrder → Except QueryFault V)
    (toNat : W → Nat) (toNatHalf : V → Nat) : Prop where
  little : ∀ w, wide .little = .ok w → ∃ low high, narrow a .little = .ok low ∧
    narrow (a + half) .little = .ok high ∧
      toNat w = toNatHalf low + 2 ^ (8 * half.toNat) * toNatHalf high
  big : ∀ w, wide .big = .ok w → ∃ high low, narrow a .big = .ok high ∧
    narrow (a + half) .big = .ok low ∧
      toNat w = 2 ^ (8 * half.toNat) * toNatHalf high + toNatHalf low
  /-- The second half does not begin again at zero. -/
  toNat_add : ∀ order w, wide order = .ok w → (a + half).toNat = a.toNat + half.toNat
  error_iff : ∀ order first second, narrow a order = .ok first →
    narrow (a + half) order = .ok second → ∃ s t, image.find a = .ok s ∧
      image.find (a + half) = .ok t ∧ ((∃ fault, wide order = .error fault) ↔ s ≠ t)

section Joining

variable {W V : Type} {image : Image} {a half whole : UInt64}
  {wide : ByteOrder → Except QueryFault W} {narrow : UInt64 → ByteOrder → Except QueryFault V}
  {toNat : W → Nat} {toNatHalf : V → Nat}

/-- A wide outcome has its bytes from two narrow ones. -/
theorem exists_halves (hhalf : IsHalf half whole)
    (hwide : ∀ order, image.ReadsNumber a whole order toNat (wide order))
    (hnarrow : ∀ b order, image.ReadsNumber b half order toNatHalf (narrow b order))
    {order : ByteOrder} {w : W} (hw : wide order = .ok w) :
    ∃ front back first second, front.length = half.toNat ∧ back.length = half.toNat ∧
      toNat w = order.value (front ++ back) ∧
      (narrow a order = .ok first ∧ toNatHalf first = order.value front) ∧
      (narrow (a + half) order = .ok second ∧ toNatHalf second = order.value back) ∧
      (a + half).toNat = a.toNat + half.toNat := by
  obtain ⟨bytes, hread, -, hvalue⟩ := ((hwide order).ok_iff w).1 hw
  obtain ⟨hfront, hback, hadd⟩ := image.read_halves hhalf hread
  obtain ⟨first, hfirst, hfirstValue⟩ := (hnarrow a order).exists_of_read hfront
  obtain ⟨second, hsecond, hsecondValue⟩ := (hnarrow (a + half) order).exists_of_read hback
  rw [← ByteOrder.value_eq_sum] at hvalue hfirstValue hsecondValue
  refine ⟨_, _, first, second, image.length_of_read hfront, image.length_of_read hback, ?_,
    ⟨hfirst, hfirstValue⟩, ⟨hsecond, hsecondValue⟩, hadd⟩
  rw [hvalue, List.take_append_drop]

theorem joins_of_isHalf (hhalf : IsHalf half whole)
    (hwide : ∀ order, image.ReadsNumber a whole order toNat (wide order))
    (hnarrow : ∀ b order, image.ReadsNumber b half order toNatHalf (narrow b order)) :
    image.Joins a half wide narrow toNat toNatHalf := by
  have hradix : 2 ^ (8 * half.toNat) = 256 ^ half.toNat := Nat.pow_mul 2 8 _
  constructor
  case little =>
    intro w hw
    obtain ⟨front, back, low, high, hfront, -, hvalue, ⟨hlow, hlowValue⟩, ⟨hhigh, hhighValue⟩, -⟩ :=
      exists_halves hhalf hwide hnarrow hw
    refine ⟨low, high, hlow, hhigh, ?_⟩
    rw [hvalue, ByteOrder.value_little_append, hfront, hradix, hlowValue, hhighValue]
  case big =>
    intro w hw
    obtain ⟨front, back, high, low, -, hback, hvalue, ⟨hhigh, hhighValue⟩, ⟨hlow, hlowValue⟩, -⟩ :=
      exists_halves hhalf hwide hnarrow hw
    refine ⟨high, low, hhigh, hlow, ?_⟩
    rw [hvalue, ByteOrder.value_big_append, hback, hradix, hlowValue, hhighValue]
  case toNat_add =>
    intro order w hw
    obtain ⟨-, -, -, -, -, -, -, -, -, hadd⟩ := exists_halves hhalf hwide hnarrow hw
    exact hadd
  case error_iff =>
    intro order first second hfirst hsecond
    obtain ⟨front, hfront, -⟩ := ((hnarrow a order).ok_iff first).1 hfirst
    obtain ⟨back, hback, -⟩ := ((hnarrow (a + half) order).ok_iff second).1 hsecond
    simp only [(hwide order).error_iff]
    exact image.read_halves_error_iff hhalf hfront hback

end Joining

/-- Numbers of two, four and eight bytes are read as the bytes are and are what these add
up to. Each wider number is put together from its halves where it can be read, and where
both halves can be read it cannot exactly when they are in different sections. -/
theorem numbers_agree (image : Image) (a : UInt64) :
    (∀ order, image.ReadsNumber a 2 order UInt16.toNat (image.readUInt16 a order)) ∧
    (∀ order, image.ReadsNumber a 4 order UInt32.toNat (image.readUInt32 a order)) ∧
    (∀ order, image.ReadsNumber a 8 order UInt64.toNat (image.readUInt64 a order)) ∧
    image.Joins a 4 (image.readUInt64 a) image.readUInt32 UInt64.toNat UInt32.toNat ∧
    image.Joins a 2 (image.readUInt32 a) image.readUInt16 UInt32.toNat UInt16.toNat := by
  have hfour : IsHalf 4 8 := ⟨by decide, rfl⟩
  have htwo : IsHalf 2 4 := ⟨by decide, rfl⟩
  exact ⟨image.readsNumber_uInt16 a, image.readsNumber_uInt32 a, image.readsNumber_uInt64 a,
    joins_of_isHalf hfour (image.readsNumber_uInt64 a) image.readsNumber_uInt32,
    joins_of_isHalf htwo (image.readsNumber_uInt32 a) image.readsNumber_uInt16⟩

/-- Two sections without a gap between them: the halves are read and the whole is not. -/
example : ((build [("b-1004-4-0-r.bin".toList, [5, 6, 7, 8]), ("a-1000-4-0-r.bin".toList,
      [1, 2, 3, 4])] none).toOption.map fun image => (image.readUInt32 0x1000 .little,
        image.readUInt32 0x1004 .big, image.readUInt64 0x1000 .little)) =
    some (.ok 0x04030201, .ok 0x05060708, .error (.outOfBounds 0x1000 8 0x1003)) := by
  decide +kernel

end Image
end SectionDump
