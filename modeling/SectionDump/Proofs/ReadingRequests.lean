import SectionDump.CommandLine
import SectionDump.Proofs.Outcomes
import SectionDump.Proofs.ReadingNumerals

/-!
# Reading requests

A request for bytes is the numeral of an address and that of a length, with a colon between.
The two follow different rules: only the address may be marked as hexadecimal, and only the
length may carry a sign. A text is cut at its first colon, so more colons are of the length.
It is refused for having no colon, else for its address, else for its length, and for nothing
else.
-/
namespace SectionDump.CommandLine

open Numeral (HexNumeral CountNumeral)

/-- The text is the numeral of the address and that of the size, with its first colon
between. -/
inductive Asks : Text → ReadRequest → Prop where
  | intro {a n : Text} {request : ReadRequest} : ':' ∉ a →
      HexNumeral a request.address.toNat → CountNumeral n request.size.toNat →
        Asks (a ++ ':' :: n) request

/-- What the text is refused for. A bad address comes before a bad length. -/
inductive Misasks : Text → ValueFault → Prop where
  | colon {text : Text} : ':' ∉ text → Misasks text (.missingColon text)
  | address {a n : Text} : ':' ∉ a → (∀ w : UInt64, ¬HexNumeral a w.toNat) →
      Misasks (a ++ ':' :: n) (.invalidAddress a)
  | length {a n : Text} {w : UInt64} : ':' ∉ a → HexNumeral a w.toNat →
      (∀ w : UInt64, ¬CountNumeral n w.toNat) → Misasks (a ++ ':' :: n) (.invalidLength n)

theorem readRequest_append {a : Text} (h : ':' ∉ a) (n : Text) :
    readRequest (a ++ ':' :: n) = (address a).bind fun w =>
      (Numeral.count? n).elim (.error (.invalidLength n)) fun size => .ok ⟨w, size⟩ := by
  have hcut : Text.cut? (· == ':') (a ++ ':' :: n) = some (a, n) :=
    Text.cut?_at_eq_some_iff.2 ⟨rfl, h⟩
  simp only [readRequest, hcut]
  cases Numeral.count? n with
  | none => rfl
  | some size => rfl

theorem address_of_hexNumeral {a : Text} {w : UInt64} (h : HexNumeral a w.toNat) :
    address a = .ok w := by
  rw [address, (Numeral.readsWords_hex.eq_some_iff a w).2 h]

theorem readRequest_of_asks {text : Text} {request : ReadRequest} (h : Asks text request) :
    readRequest text = .ok request := by
  cases h with
  | intro hcolon ha hn =>
    rw [readRequest_append hcolon, address_of_hexNumeral ha,
      (Numeral.readsWords_count.eq_some_iff _ _).2 hn]
    rfl

theorem readRequest_of_misasks {text : Text} {fault : ValueFault} (h : Misasks text fault) :
    readRequest text = .error fault := by
  cases h with
  | colon hcolon => rw [readRequest, Text.cut?_at_eq_none_iff.2 hcolon]
  | address hcolon ha =>
    rw [readRequest_append hcolon, address, Numeral.readsWords_hex.eq_none ha]
    rfl
  | length hcolon ha hn =>
    rw [readRequest_append hcolon, address_of_hexNumeral ha, Numeral.readsWords_count.eq_none hn]
    rfl

theorem asks_or_misasks (text : Text) :
    (∃ request, Asks text request) ∨ ∃ fault, Misasks text fault := by
  cases hcut : Text.cut? (· == ':') text with
  | none => exact .inr ⟨_, .colon (Text.cut?_at_eq_none_iff.1 hcut)⟩
  | some parts =>
    obtain ⟨a, n⟩ := parts
    obtain ⟨rfl, hcolon⟩ := Text.cut?_at_eq_some_iff.1 hcut
    by_cases ha : ∃ w : UInt64, HexNumeral a w.toNat
    · obtain ⟨w, hw⟩ := ha
      by_cases hn : ∃ size : UInt64, CountNumeral n size.toNat
      · obtain ⟨size, hsize⟩ := hn
        exact .inl ⟨⟨w, size⟩, .intro hcolon hw hsize⟩
      · exact .inr ⟨_, .length hcolon hw (not_exists.1 hn)⟩
    · exact .inr ⟨_, .address hcolon (not_exists.1 ha)⟩

theorem readRequest_eq_ok_iff {text : Text} {request : ReadRequest} :
    readRequest text = .ok request ↔ Asks text request :=
  ok_iff_of_cases (fun _ => readRequest_of_asks) (fun _ => readRequest_of_misasks)
    (asks_or_misasks text)

theorem readRequest_eq_error_iff {text : Text} {fault : ValueFault} :
    readRequest text = .error fault ↔ Misasks text fault :=
  error_iff_of_cases (fun _ => readRequest_of_asks) (fun _ => readRequest_of_misasks)
    (asks_or_misasks text)

theorem colon_not_mem_of_hex? {a : Text} {w : UInt64} (h : Numeral.hex? a = some w) : ':' ∉ a :=
  fun hmem => Numeral.digit?_of_hex? h hmem (by decide)

theorem asks_of_written {a : Text} {w : UInt64} (n : UInt64)
    (h : Text.lower a = Numeral.hex w ∨ Text.lower a = Numeral.markedHex w) :
    Asks (a ++ ':' :: Numeral.decimal n) ⟨w, n⟩ := by
  have hread : Numeral.hex? a = some w := by
    rw [← Numeral.hex?_lower]
    rcases h with h | h
    · rw [h, Numeral.hex?_hex]
    · rw [h, Numeral.hex?_markedHex]
  have hcount : CountNumeral (Numeral.decimal n) n.toNat :=
    (Numeral.readsWords_count.eq_some_iff _ _).1 (Numeral.count?_decimal n)
  exact .intro (colon_not_mem_of_hex? hread) ((Numeral.readsWords_hex.eq_some_iff _ _).1 hread)
    hcount

/-- A text is read as a request exactly when it is one, and refused for what is wrong with it
first. An address in hexadecimal, marked or not and in letters of either case, and a length in
decimal are read back. -/
theorem readRequest_iff_asks :
    (∀ text request, readRequest text = .ok request ↔ Asks text request) ∧
      (∀ text fault, readRequest text = .error fault ↔ Misasks text fault) ∧
      ∀ a w n, Text.lower a = Numeral.hex w ∨ Text.lower a = Numeral.markedHex w →
        readRequest (a ++ ':' :: Numeral.decimal n) = .ok ⟨w, n⟩ := by
  refine ⟨fun _ _ => readRequest_eq_ok_iff, fun _ _ => readRequest_eq_error_iff, ?_⟩
  intro a w n h
  exact readRequest_of_asks (asks_of_written n h)

/-! Colons behind the first one are of the length, and a sign is not of the address. -/

theorem readRequest_iff_asks_mixed :
    Asks "0XdeadBEEF:+0016".toList ⟨0xdeadbeef, 16⟩ ∧
      Misasks "1:2:3".toList (.invalidLength "2:3".toList) ∧
      Misasks "+1:x".toList (.invalidAddress "+1".toList) ∧
      Text.lower "0XdeadBEEF".toList = Numeral.markedHex 0xdeadbeef ∧
      readRequest "0XdeadBEEF:18446744073709551615".toList =
        .ok ⟨0xdeadbeef, 18446744073709551615⟩ := by
  obtain ⟨hok, herror, hwritten⟩ := readRequest_iff_asks
  have hasks : readRequest "0XdeadBEEF:+0016".toList = .ok ⟨0xdeadbeef, 16⟩ := by decide +kernel
  have hlength : readRequest "1:2:3".toList = .error (.invalidLength "2:3".toList) := by
    decide +kernel
  have haddress : readRequest "+1:x".toList = .error (.invalidAddress "+1".toList) := by
    decide +kernel
  have hlower : Text.lower "0XdeadBEEF".toList = Numeral.markedHex 0xdeadbeef := by decide +kernel
  exact ⟨(hok _ _).1 hasks, (herror _ _).1 hlength, (herror _ _).1 haddress, hlower,
    hwritten _ _ 18446744073709551615 (.inr hlower)⟩

end SectionDump.CommandLine
