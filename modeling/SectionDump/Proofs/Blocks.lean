import SectionDump.Proofs.ReadingLines

/-!
# Blocks of groups

A metadata text falls into blocks, each the entries of one group under their
header. A block reads the same wherever it stands, and adds to its own group only.
So blocks of different groups can change places, as long as those of the same group
keep their order.
-/
namespace SectionDump.Metadata

/-! ## Lines of one group -/

/-- Lines under a heading add to the group of that name only, as long as no header
follows. -/
theorem part_of_readLines {name : Text} {number : Nat} {rows : List Text} {m : Metadata}
    (h : readLines (some name) number rows = .ok m) (hrows : NoHeader rows) {g : Group}
    (hg : Group.ofName? name ≠ some g) : part g m = empty := by
  induction rows generalizing number m with
  | nil =>
    cases h
    exact part_empty g
  | cons raw rest ih =>
    obtain ⟨hraw, hrest⟩ := List.forall_mem_cons.1 hrows
    obtain ⟨next, share, n, hstep, hn, rfl⟩ := readLines_cons_eq_ok_iff.1 h
    rw [part_append]
    cases hstep with
    | blank _ => rw [part_empty, ih hn hrest, empty_append]
    | header hheader => exact absurd hheader (hraw _)
    | entry _ hheading hfits =>
      cases hheading
      rw [part_of_fits hfits hg, ih hn hrest, empty_append]

/-! ## Blocks -/

/-- A header and the lines below it, of which none is a header. -/
structure Block where
  header : Text
  name : Text
  body : List Text
  spelled : Line.Spelled header (.header name)
  plain : NoHeader body

namespace Block

def rows (b : Block) : List Text := b.header :: b.body

def group (b : Block) : Option Group := Group.ofName? b.name

theorem headed (b : Block) : Headed b.rows := headed_of_header b.spelled b.body

theorem part_of_rows {b : Block} {number : Nat} {m : Metadata}
    (h : readLines none number b.rows = .ok m) {g : Group} (hg : b.group ≠ some g) :
    part g m = empty := by
  rw [rows, readLines_of_share (readLine_of_step (.header b.spelled))] at h
  obtain ⟨n, hn, rfl⟩ := map_eq_ok_iff.1 h
  rw [empty_append]
  exact part_of_readLines hn b.plain hg

/-- The lines of blocks one after another. -/
def joined (blocks : List Block) : List Text := blocks.flatMap rows

/-- What a block adds, and nothing for one that does not read. -/
def share (b : Block) : Metadata :=
  match readLines none 1 b.rows with
  | .ok m => m
  | .error _ => empty

/-- What blocks add together. -/
def total (blocks : List Block) : Metadata := blocks.foldr (fun b m => b.share ++ m) empty

@[simp] theorem joined_cons (b : Block) (blocks : List Block) :
    joined (b :: blocks) = b.rows ++ joined blocks := rfl
@[simp] theorem total_cons (b : Block) (blocks : List Block) :
    total (b :: blocks) = b.share ++ total blocks := rfl

theorem share_of_rows {b : Block} {m : Metadata} (h : readLines none 1 b.rows = .ok m) :
    b.share = m := by
  rw [share, h]

theorem headed_joined (blocks : List Block) {post : List Text} (h : Headed post) :
    Headed (joined blocks ++ post) := by
  induction blocks with
  | nil => exact h
  | cons b rest ih =>
    rw [joined_cons, List.append_assoc]
    exact b.headed.append ih

/-- Blocks read together when each of them reads. -/
theorem readLines_joined_iff (blocks : List Block) {post : List Text} {m : Metadata}
    (hpost : Headed post) : readLines none 1 (joined blocks ++ post) = .ok m ↔
      (∀ b ∈ blocks, ∃ n, readLines none 1 b.rows = .ok n) ∧
        ∃ n, readLines none 1 post = .ok n ∧ m = total blocks ++ n := by
  induction blocks generalizing m with
  | nil => simp [joined, total]
  | cons b rest ih =>
    rw [joined_cons, List.append_assoc, readLines_append_eq_ok_iff (headed_joined rest hpost),
      List.forall_mem_cons, total_cons]
    constructor
    · rintro ⟨mb, mr, hb, hrest, rfl⟩
      obtain ⟨hall, n, hn, rfl⟩ := ih.1 hrest
      exact ⟨⟨⟨mb, hb⟩, hall⟩, n, hn, by rw [share_of_rows hb, append_assoc]⟩
    · rintro ⟨⟨⟨mb, hb⟩, hall⟩, n, hn, rfl⟩
      have hrest := ih.2 ⟨hall, n, hn, rfl⟩
      exact ⟨mb, total rest ++ n, hb, hrest, by rw [share_of_rows hb, append_assoc]⟩

/-- Only the blocks of a group count for its part. -/
theorem part_total (g : Group) {blocks : List Block}
    (h : ∀ b ∈ blocks, ∃ n, readLines none 1 b.rows = .ok n) :
    part g (total blocks) = part g (total (blocks.filter fun b => b.group = some g)) := by
  induction blocks with
  | nil => rfl
  | cons b rest ih =>
    rw [List.forall_mem_cons] at h
    rw [total_cons, part_append, ih h.2]
    by_cases hg : b.group = some g
    · rw [List.filter_cons_of_pos (by simpa using hg), total_cons, part_append]
    · obtain ⟨mb, hb⟩ := h.1
      rw [List.filter_cons_of_neg (by simpa using hg), share_of_rows hb, part_of_rows hb hg,
        empty_append]

/-! ## Blocks in another order -/

/-- Blocks in another order, those of each group among themselves in the same one. -/
structure Rearranged (blocks others : List Block) : Prop where
  perm : others.Perm blocks
  inOrder : ∀ g : Group, (others.filter fun b => b.group = some g) =
    blocks.filter fun b => b.group = some g

/-- Two blocks of different groups may change places. -/
theorem Rearranged.swap {b c : Block} (h : b.group ≠ c.group) (xs ys : List Block) :
    Rearranged (xs ++ b :: c :: ys) (xs ++ c :: b :: ys) := by
  refine ⟨(List.Perm.swap b c ys).append_left xs, fun g => ?_⟩
  rw [List.filter_append, List.filter_append]
  congr 1
  by_cases hb : b.group = some g
  · have hc : c.group ≠ some g := fun hc => h (hb.trans hc.symm)
    simp [hb, hc]
  · by_cases hc : c.group = some g <;> simp [hb, hc]

theorem total_of_rearranged {blocks others : List Block} (h : Rearranged blocks others)
    (hread : ∀ b ∈ blocks, ∃ n, readLines none 1 b.rows = .ok n) :
    total others = total blocks := by
  have hothers : ∀ b ∈ others, ∃ n, readLines none 1 b.rows = .ok n :=
    fun b hb => hread b (h.perm.mem_iff.1 hb)
  apply eq_of_part
  intro g
  rw [part_total g hothers, part_total g hread, h.inOrder g]

theorem parse_of_rearranged {text moved : Text} {pre post : List Text} {blocks others : List Block}
    {m : Metadata} (hpost : Headed post) (h : Rearranged blocks others)
    (htext : lines text = pre ++ (joined blocks ++ post))
    (hmoved : lines moved = pre ++ (joined others ++ post)) (hread : parse text = .ok m) :
    parse moved = .ok m := by
  rw [parse, htext, readLines_append_eq_ok_iff (headed_joined blocks hpost)] at hread
  obtain ⟨mp, mr, hmp, hmr, rfl⟩ := hread
  obtain ⟨hall, n, hn, rfl⟩ := (readLines_joined_iff blocks hpost).1 hmr
  have hothers : ∀ b ∈ others, ∃ n, readLines none 1 b.rows = .ok n :=
    fun b hb => hall b (h.perm.mem_iff.1 hb)
  rw [parse, hmoved, readLines_append_eq_ok_iff (headed_joined others hpost)]
  refine ⟨mp, _, hmp, (readLines_joined_iff others hpost).2 ⟨hothers, n, hn, rfl⟩, ?_⟩
  rw [total_of_rearranged h hall]

end Block

/-! ## Joined texts -/

/-- A text reads on after another one that ends its last line: the first fault of the
two is the fault of both, and their shares are put together. Among blocks the order
counts within each group only. -/
theorem parse_append_and_rearranged :
    (∀ a b, EndsLine a →
      (∀ fault, parse a = .error fault → parse (a ++ b) = .error fault) ∧
      (∀ ma, parse a = .ok ma → Headed (lines b) →
        (∀ mb, parse b = .ok mb → parse (a ++ b) = .ok (ma ++ mb)) ∧
        ∀ fault, parse b = .error fault →
          parse (a ++ b) = .error (movedDown (a.count '\n') fault))) ∧
    ∀ text moved pre post blocks others m, Headed post → Block.Rearranged blocks others →
      lines text = pre ++ (Block.joined blocks ++ post) →
      lines moved = pre ++ (Block.joined others ++ post) →
      parse text = .ok m → parse moved = .ok m := by
  refine ⟨fun a b ha => ⟨fun fault hfault => ?_, fun ma hma hb => ?_⟩, ?_⟩
  · rw [parse_append_eq ha, hfault]
    rfl
  · rw [parse_append_of_headed ha hb, hma]
    constructor
    · intro mb hmb
      rw [hmb]
      rfl
    · intro fault hfault
      rw [hfault]
      rfl
  · intro text moved pre post blocks others m hpost h htext hmoved hread
    exact Block.parse_of_rearranged hpost h htext hmoved hread

theorem noHeader_of_entry {raw key value : Text} (h : Line.read raw = .ok (.entry key value)) :
    NoHeader [raw] := by
  intro r hr other hother
  obtain rfl := List.mem_singleton.1 hr
  exact absurd (hother.unique (Line.read_eq_ok_iff.1 h)) (by simp)

def sampleFunctions : Block where
  header := "[functions]".toList
  name := "functions".toList
  body := ["0=7".toList]
  spelled := Line.read_eq_ok_iff.1 rfl
  plain := noHeader_of_entry (rfl : Line.read _ = .ok (.entry ['0'] ['7']))

def sampleRelocations : Block where
  header := "[relocations]".toList
  name := "relocations".toList
  body := ["0=8".toList]
  spelled := Line.read_eq_ok_iff.1 rfl
  plain := noHeader_of_entry (rfl : Line.read _ = .ok (.entry ['0'] ['8']))

/-- A fault in either half, and two blocks of which the last one does not end its line. -/
theorem parse_append_and_rearranged_sample :
    parse ("[aux]\narch:\n".toList ++ "[aux".toList) = .error ⟨"aux".toList, 2, .emptyArch⟩ ∧
      parse ("[aux]\narch = x86\n".toList ++ "[relocations]\n0 = 20g8".toList) =
        .error ⟨"relocations".toList, 4, .invalidAddress "20g8".toList⟩ ∧
      parse "[relocations]\n0=8\n[functions]\n0=7".toList = .ok ⟨none, [], [], [8], [7]⟩ := by
  have hheader : Line.read "[relocations]".toList = .ok (.header "relocations".toList) := rfl
  have hheaded : Headed (lines "[relocations]\n0 = 20g8".toList) :=
    headed_of_header (Line.read_eq_ok_iff.1 hheader) _
  have hgroups : sampleFunctions.group ≠ sampleRelocations.group := by decide
  refine ⟨?_, ?_, ?_⟩
  · exact (parse_append_and_rearranged.1 _ _ (.inr rfl)).1 _ rfl
  · exact ((parse_append_and_rearranged.1 _ _ (.inr rfl)).2
      ⟨some "x86".toList, [], [], [], []⟩ rfl hheaded).2
      ⟨"relocations".toList, 2, .invalidAddress "20g8".toList⟩ rfl
  · exact parse_append_and_rearranged.2
      "[functions]\n0=7\n[relocations]\n0=8".toList _ [] [] _ _ _ (headed_of_blank (by simp))
      (Block.Rearranged.swap hgroups [] []) rfl rfl rfl

end SectionDump.Metadata
