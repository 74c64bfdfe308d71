import SectionDump.Proofs.Querying
import SectionDump.Proofs.ReadingNumbers
import SectionDump.Proofs.Trimming

/-!
# Reading words

A word is read where the metadata names a machine in a known spelling, in letters of
any case and with any blanks around it. The machine of every spelling has an order of
bytes and a size of words that can be read, so nothing else keeps a machine from being
known. That it is not known is told before anything about the address, and is not told
of a known one.
-/
namespace SectionDump

namespace Target

/-- Trimmed and in lower case, the name is one of the spellings. -/
def Listed (name : Text) : Prop :=
  String.ofList (Text.lower (Text.trim name)) ∈ spellings.map Prod.fst

/-- The name is a spelling of the target, in letters of any case and between blanks. -/
inductive SpelledBy (t : Target) : Text → Prop
  | intro {front core back : Text} {spelling : String} (hmem : (spelling, t) ∈ spellings)
      (hcore : Text.lower core = spelling.toList) (hfront : ∀ c ∈ front, Text.isWhite c = true)
      (hback : ∀ c ∈ back, Text.isWhite c = true) : SpelledBy t (front ++ core ++ back)

/-- No spelling stands for two targets. -/
theorem lookup_spellings : ∀ row ∈ spellings, spellings.lookup row.1 = some row.2 := by decide

theorem lookup_spellings_iff {spelling : String} {t : Target} :
    spellings.lookup spelling = some t ↔ (spelling, t) ∈ spellings := by
  constructor
  · intro h
    obtain ⟨before, after, hrows, -⟩ := List.lookup_eq_some_iff.1 h
    rw [hrows]
    exact List.mem_append_right _ List.mem_cons_self
  · exact lookup_spellings (spelling, t)

theorem trim_spelling : ∀ row ∈ spellings, Text.trim row.1.toList = row.1.toList := by decide

theorem ofName?_eq_some_iff {name : Text} {t : Target} :
    ofName? name = some t ↔ t.SpelledBy name := by
  rw [ofName?, lookup_spellings_iff]
  constructor
  · intro h
    obtain ⟨front, back, hname, hfront, hback⟩ := Text.exists_append_of_trim name
    rw [hname]
    exact ⟨h, String.toList_ofList.symm, hfront, hback⟩
  · rintro @⟨front, core, back, spelling, hmem, hcore, hfront, hback⟩
    have hlower : Text.lower (Text.trim (front ++ core ++ back)) = spelling.toList := by
      rw [Text.trim_append_white hback, Text.trim_white_append hfront, ← Text.trim_lower, hcore,
        trim_spelling _ hmem]
    rwa [hlower, String.ofList_toList]

theorem listed_iff {name : Text} : Listed name ↔ ∃ t : Target, t.SpelledBy name := by
  simp only [← ofName?_eq_some_iff, ofName?, lookup_spellings_iff, Listed, List.mem_map,
    Prod.exists, exists_and_right, exists_eq_right]

end Target

/-! ## Sizes of words -/

namespace Architecture

/-- The machine, when it is a known one. -/
def machine? (arch : Architecture) : Option Machine := arch.target.map Target.machine

end Architecture

/-- How many bytes the words of a machine have. The table is asked for an unknown machine
as well. -/
abbrev WordSizes := Option Machine → Option Nat

namespace WordSizes

/-- The words of every machine have four or eight bytes, and those of an unknown machine
have no size. -/
structure Documented (sizes : WordSizes) : Prop where
  known : ∀ m, sizes (some m) = some 4 ∨ sizes (some m) = some 8
  unknown : sizes none = none

/-- The sizes by which an image reads words. -/
def recorded : WordSizes := Option.map fun m => m.wordSize.bytes

theorem documented_recorded : Documented recorded := by
  refine ⟨fun m => ?_, rfl⟩
  rw [recorded, Option.map_some]
  cases m.wordSize with
  | bits32 => exact .inl rfl
  | bits64 => exact .inr rfl

end WordSizes

namespace Architecture

/-- Whatever is asked of the architecture of a name is told of the listed names and of no
others, and the size of its words can be read. -/
structure ToldOf (sizes : WordSizes) (name : Text) : Prop where
  isKnown_iff : (ofName name).isKnown = true ↔ Target.Listed name
  machine?_iff : (ofName name).machine?.isSome = true ↔ Target.Listed name
  order?_iff : (ofName name).order?.isSome = true ↔ Target.Listed name
  wordSize?_iff : (ofName name).wordSize?.isSome = true ↔ Target.Listed name
  size_iff : (sizes (ofName name).machine?).isSome = true ↔ Target.Listed name
  size_eq : ∀ n, sizes (ofName name).machine? = some n → n = 4 ∨ n = 8

theorem isKnown_ofName_iff {name : Text} :
    (ofName name).isKnown = true ↔ Target.Listed name := by
  rw [isKnown, Option.isSome_iff_exists, Target.listed_iff]
  simp only [← Target.ofName?_eq_some_iff]
  rfl

theorem isSome_size_iff {sizes : WordSizes} (hsizes : sizes.Documented) (m : Option Machine) :
    (sizes m).isSome = true ↔ m.isSome = true := by
  cases m with
  | none => simp [hsizes.unknown]
  | some m => rcases hsizes.known m with h | h <;> simp [h]

/-- What comes with the target comes with a listed name. -/
theorem isSome_map_target_iff {α : Type} (f : Target → α) {name : Text} :
    ((ofName name).target.map f).isSome = true ↔ Target.Listed name := by
  rw [Option.isSome_map, ← isKnown, isKnown_ofName_iff]

theorem toldOf_name {sizes : WordSizes} (hsizes : sizes.Documented) (name : Text) :
    ToldOf sizes name := by
  have hmachine : (ofName name).machine?.isSome = true ↔ Target.Listed name :=
    isSome_map_target_iff Target.machine
  constructor
  case isKnown_iff => exact isKnown_ofName_iff
  case machine?_iff => exact hmachine
  case order?_iff => exact isSome_map_target_iff Target.order
  case wordSize?_iff => exact isSome_map_target_iff Target.wordSize
  case size_iff => exact (isSome_size_iff hsizes _).trans hmachine
  case size_eq =>
    intro n hn
    cases hm : (ofName name).machine? with
    | none =>
      rw [hm, hsizes.unknown] at hn
      cases hn
    | some m =>
      rw [hm] at hn
      rcases hsizes.known m with h | h
      · exact .inl (Option.some.inj (hn.symm.trans h))
      · exact .inr (Option.some.inj (hn.symm.trans h))

end Architecture

/-! ## Words -/

namespace Image

/-- A word whose size is told by a table. There has to be an architecture, it has to have
an order of bytes, and the table has to tell a size that can be read. -/
def readWordBy (sizes : WordSizes) (image : Image) (a : UInt64) : Except QueryFault UInt64 :=
  match image.arch with
  | none => .error .unknownArchitecture
  | some arch => match arch.order? with
    | none => .error .unknownArchitecture
    | some order => match sizes arch.machine? with
      | some 8 => image.readUInt64 a order
      | some 4 => (image.readUInt32 a order).map UInt32.toUInt64
      | some 2 => (image.readUInt16 a order).map UInt16.toUInt64
      | _ => .error .unknownArchitecture

/-- The outcome is that of the number which has the size and the order of the target's
words, read from as many bytes at the address. -/
structure ReadsWord (sizes : WordSizes) (image : Image) (t : Target) (a : UInt64)
    (outcome : Except QueryFault UInt64) : Prop where
  narrow : sizes (some t.machine) = some 4 →
    outcome = (image.readUInt32 a t.order).map UInt32.toUInt64
  wide : sizes (some t.machine) = some 8 → outcome = image.readUInt64 a t.order
  reads : ∀ n, sizes (some t.machine) = some n →
    image.ReadsNumber a (.ofNat n) t.order UInt64.toNat outcome
  ne_unknownArchitecture : outcome ≠ .error .unknownArchitecture

theorem read_ne_unknownArchitecture (image : Image) (a n : UInt64) :
    image.read a n ≠ .error .unknownArchitecture := by
  intro h
  rw [read] at h
  split at h
  · cases h
  · split at h
    · rename_i fault hfind
      rw [image.fault_of_find hfind] at h
      cases h
    · split at h <;> cases h

theorem ReadsNumber.ne_unknownArchitecture {W : Type} {image : Image} {a n : UInt64}
    {order : ByteOrder} {toNat : W → Nat} {outcome : Except QueryFault W}
    (h : image.ReadsNumber a n order toNat outcome) : outcome ≠ .error .unknownArchitecture :=
  fun hunknown => image.read_ne_unknownArchitecture a n ((h.error_iff _).1 hunknown)

theorem ReadsNumber.widen {V W : Type} {image : Image} {a n : UInt64} {order : ByteOrder}
    {toNat : V → Nat} {toNatWide : W → Nat} {f : V → W} {outcome : Except QueryFault V}
    (hf : ∀ v, toNatWide (f v) = toNat v) (hinj : ∀ w w', toNatWide w = toNatWide w' → w = w')
    (h : image.ReadsNumber a n order toNat outcome) :
    image.ReadsNumber a n order toNatWide (outcome.map f) := by
  constructor
  case error_iff =>
    intro fault
    rw [← h.error_iff]
    cases outcome <;> simp [Except.map]
  case ok_iff =>
    intro w
    rw [map_eq_ok_iff]
    constructor
    · rintro ⟨v, hv, rfl⟩
      rw [hf]
      exact (h.ok_iff v).1 hv
    · rintro ⟨bytes, hread, -, hw⟩
      obtain ⟨v, hv, hvalue⟩ := h.exists_of_read hread
      exact ⟨v, hv, hinj _ _ (by rw [hf, hvalue, hw])⟩

variable {sizes : WordSizes} {image : Image}

theorem readWordBy_of_target_eq_none (h : image.target? = none) (a : UInt64) :
    image.readWordBy sizes a = .error .unknownArchitecture := by
  rw [target?, Option.bind_eq_none_iff] at h
  rw [readWordBy]
  cases harch : image.arch with
  | none => rfl
  | some arch => simp only [Architecture.order?, h arch harch, Option.map_none]

/-- A known target passes all three tests. -/
theorem readsWord_of_target (hsizes : sizes.Documented) {t : Target} (h : image.target? = some t)
    (a : UInt64) : image.ReadsWord sizes t a (image.readWordBy sizes a) := by
  obtain ⟨arch, harch, ht⟩ := Option.bind_eq_some_iff.1 h
  have horder : arch.order? = some t.order := by rw [Architecture.order?, ht, Option.map_some]
  have hmachine : arch.machine? = some t.machine := by
    rw [Architecture.machine?, ht, Option.map_some]
  rw [readWordBy, harch]
  simp only [horder, hmachine]
  rcases hsizes.known t.machine with hsize | hsize
  case inl =>
    have hreads : image.ReadsNumber a 4 t.order UInt64.toNat
        ((image.readUInt32 a t.order).map UInt32.toUInt64) :=
      (image.readsNumber_uInt32 a t.order).widen (fun _ => rfl) fun _ _ => UInt64.toNat_inj.1
    simp only [hsize]
    refine ⟨fun _ => rfl, by simp [hsize], ?_, hreads.ne_unknownArchitecture⟩
    intro n hn
    cases hsize.symm.trans hn
    exact hreads
  case inr =>
    have hreads := image.readsNumber_uInt64 a t.order
    simp only [hsize]
    refine ⟨by simp [hsize], fun _ => rfl, ?_, hreads.ne_unknownArchitecture⟩
    intro n hn
    cases hsize.symm.trans hn
    exact hreads

/-- By the recorded sizes a word is what it is for the image itself. -/
theorem readWordBy_recorded (image : Image) (a : UInt64) :
    image.readWordBy .recorded a = image.readWord a := by
  cases htarget : image.target? with
  | none => rw [readWordBy_of_target_eq_none htarget, readWord_of_target_eq_none image htarget]
  | some t =>
    have hreads := readsWord_of_target WordSizes.documented_recorded htarget a
    have hsize : WordSizes.recorded (some t.machine) = some t.wordSize.bytes := rfl
    rw [readWord, htarget]
    cases hword : t.wordSize with
    | bits32 => simpa only [hword] using hreads.narrow (by rw [hsize, hword]; rfl)
    | bits64 => simpa only [hword] using hreads.wide (by rw [hsize, hword]; rfl)

theorem target?_of_build {files : List (Path × Bytes)} {metadata : Option Metadata}
    (h : build files metadata = .ok image) :
    image.target? = (metadata.bind Metadata.arch).bind Target.ofName? := by
  rw [target?, arch_of_build h]
  cases metadata with
  | none => rfl
  | some m => cases harch : m.arch <;> simp [harch, Architecture.ofName]

/-- No machine is known exactly where the metadata has no name or an unlisted one, and that
comes before all that can be said of the address. Any other name is a spelling of a target,
whose words are read at every address. What a name tells of a machine it tells all at once. -/
theorem readWordBy_of_build (hsizes : sizes.Documented) {files : List (Path × Bytes)}
    {metadata : Option Metadata} (h : build files metadata = .ok image) :
    (∀ a, image.readWordBy sizes a = .error .unknownArchitecture ↔
      ∀ name, metadata.bind Metadata.arch = some name → ¬Target.Listed name) ∧
    (∀ name t, metadata.bind Metadata.arch = some name → t.SpelledBy name →
      ∀ a, image.ReadsWord sizes t a (image.readWordBy sizes a)) ∧
    (∀ name, (Target.Listed name ↔ ∃ t : Target, t.SpelledBy name) ∧
      Architecture.ToldOf sizes name) ∧
    ∀ a, image.readWordBy .recorded a = image.readWord a := by
  have hknown : ∀ name t, metadata.bind Metadata.arch = some name → t.SpelledBy name →
      image.target? = some t := by
    intro name t hname ht
    rw [target?_of_build h, hname]
    exact Target.ofName?_eq_some_iff.2 ht
  refine ⟨fun a => ?_, ?_, ?_, image.readWordBy_recorded⟩
  · constructor
    · intro hunknown name hname hlisted
      obtain ⟨t, ht⟩ := Target.listed_iff.1 hlisted
      exact (readsWord_of_target hsizes (hknown name t hname ht) a).ne_unknownArchitecture hunknown
    · intro hunlisted
      apply readWordBy_of_target_eq_none
      rw [target?_of_build h, Option.bind_eq_none_iff]
      intro name hname
      cases ht : Target.ofName? name with
      | none => rfl
      | some t =>
        have hlisted := Target.listed_iff.2 ⟨t, Target.ofName?_eq_some_iff.1 ht⟩
        exact absurd hlisted (hunlisted name hname)
  · intro name t hname ht a
    exact readsWord_of_target hsizes (hknown name t hname ht) a
  · exact fun name => ⟨Target.listed_iff, Architecture.toldOf_name hsizes name⟩

/-! A name in letters of both cases, between blanks of which not all are ASCII. -/

def mixedMetadata : Metadata :=
  { Metadata.empty with arch := some (['\u00a0'] ++ "PpC64LE".toList ++ ['\u3000', ' ']) }

def nineFiles : List (Path × Bytes) := [("w-1000-9-0-r.bin".toList, [1, 2, 3, 4, 5, 6, 7, 8, 9])]

theorem readWordBy_of_build_mixed :
    WordSizes.recorded.Documented ∧ ∃ image, build nineFiles (some mixedMetadata) = .ok image ∧
      (∀ a, image.ReadsWord .recorded ⟨.powerPc64, .little⟩ a (image.readWordBy .recorded a)) ∧
      [0xfff, 0x1001, 0x1002].map (image.readWordBy .recorded) =
        [.error (.notFound 0xfff), .ok 0x0908070605040302,
          .error (.outOfBounds 0x1002 8 0x1008)] := by
  have hwords : ((build nineFiles (some mixedMetadata)).toOption.map fun image =>
      [0xfff, 0x1001, 0x1002].map (image.readWordBy .recorded)) =
        some [.error (.notFound 0xfff), .ok 0x0908070605040302,
          .error (.outOfBounds 0x1002 8 0x1008)] := by decide +kernel
  obtain ⟨image, himage, hvalues⟩ := toOption_map_eq_some_iff.1 hwords
  obtain ⟨-, hknown, -⟩ := readWordBy_of_build WordSizes.documented_recorded himage
  have hspelled : Target.SpelledBy ⟨.powerPc64, .little⟩
      (['\u00a0'] ++ "PpC64LE".toList ++ ['\u3000', ' ']) :=
    @Target.SpelledBy.intro _ _ _ _ "ppc64le" (by decide) (by decide)
      (List.all_eq_true.1 (by decide)) (List.all_eq_true.1 (by decide))
  exact ⟨WordSizes.documented_recorded, image, himage, hknown _ _ rfl hspelled, hvalues⟩

end Image
end SectionDump
