import SectionDump.Proofs.FileNames

/-!
# Markers

Whether a file holds a section and which part of its name says so are both told by the
last marker in the name. A name with any marker behind a part that is not empty has a
last one, and what comes before that is the longest such part. So what follows the last
marker never matters, as long as it holds no marker itself. A name without any marker is
cut at its last dot instead, and read whole where there is none.
-/
namespace SectionDump

/-- A split leaves the longest first part of all that leave a rest which passes the test. -/
theorem Text.length_le_of_splitLast? {q : Text → Bool} {s p t p' t' : Text}
    (h : Text.splitLast? q s = some (p, t)) (hs : s = p' ++ t') (hne : t' ≠ [])
    (hq : q t' = true) : p'.length ≤ p.length := by
  obtain ⟨rfl, -, -, hend⟩ := Text.splitLast?_eq_some_iff.1 h
  rcases List.append_eq_append_iff.1 hs with ⟨u, rfl, rfl⟩ | ⟨u, rfl, -⟩
  · cases u with
    | nil => simp
    | cons c u =>
      have hfalse := Text.splitLast?_eq_none_iff.1 hend u t' rfl hne
      rw [hq] at hfalse
      cases hfalse
  · simp

namespace Identity

/-- The marker follows the part, and behind it the name ends or goes on with a dot. -/
def MarkedAfter (base p : Text) : Prop :=
  ∃ r, base = p ++ marker ++ r ∧ (r = [] ∨ r.head? = some '.')

/-- The longest part of a name, not empty, that a marker follows. -/
structure LongestMarked (base p : Text) : Prop where
  ne_nil : p ≠ []
  marked : MarkedAfter base p
  longest : ∀ p', p' ≠ [] → MarkedAfter base p' → p'.length ≤ p.length

/-- What may follow the last marker of a name: nothing, or further extensions none of
which is the marker. -/
structure Ending (r : Text) : Prop where
  slash_not_mem : '/' ∉ r
  dotted : r = [] ∨ r.head? = some '.'
  unmarked : ∀ p, ¬MarkedAfter r p

theorem atMarker_append_iff {r : Text} :
    atMarker (marker ++ r) = true ↔ (r = [] ∨ r.head? = some '.') := by
  cases r <;> simp [atMarker, marker]

theorem atMarker_iff {t : Text} :
    atMarker t = true ↔ ∃ r, t = marker ++ r ∧ (r = [] ∨ r.head? = some '.') := by
  constructor
  · intro h
    obtain ⟨r, rfl⟩ : marker <+: t := List.isPrefixOf_iff_prefix.1 (Bool.and_eq_true_iff.1 h).1
    exact ⟨r, rfl, atMarker_append_iff.1 h⟩
  · rintro ⟨r, rfl, hr⟩
    exact atMarker_append_iff.2 hr

theorem marker_append_ne_nil (r : Text) : marker ++ r ≠ [] := by simp [marker]

theorem markedAfter_iff {base p : Text} :
    MarkedAfter base p ↔ ∃ t, base = p ++ t ∧ t ≠ [] ∧ atMarker t = true := by
  constructor
  · rintro ⟨r, rfl, hr⟩
    exact ⟨marker ++ r, List.append_assoc _ _ _, marker_append_ne_nil r, atMarker_iff.2 ⟨r, rfl, hr⟩⟩
  · rintro ⟨t, rfl, -, ht⟩
    obtain ⟨r, rfl, hr⟩ := atMarker_iff.1 ht
    exact ⟨r, (List.append_assoc _ _ _).symm, hr⟩

theorem splitLast?_atMarker_eq_none_iff {base : Text} :
    Text.splitLast? atMarker base = none ↔ ∀ p, ¬MarkedAfter base p := by
  rw [Text.splitLast?_eq_none_iff]
  constructor
  · intro h p hp
    obtain ⟨t, ht, hne, hmark⟩ := markedAfter_iff.1 hp
    rw [h p t ht hne] at hmark
    cases hmark
  · intro h p t ht hne
    rw [← Bool.not_eq_true]
    intro hmark
    exact h p (markedAfter_iff.2 ⟨t, ht, hne, hmark⟩)

theorem markedAfter_of_splitLast? {base p t : Text}
    (h : Text.splitLast? atMarker base = some (p, t)) : MarkedAfter base p := by
  obtain ⟨hbase, hne, hmark, -⟩ := Text.splitLast?_eq_some_iff.1 h
  exact markedAfter_iff.2 ⟨t, hbase, hne, hmark⟩

theorem length_le_of_markedAfter {base p t p' : Text}
    (h : Text.splitLast? atMarker base = some (p, t)) (hp : MarkedAfter base p') :
    p'.length ≤ p.length := by
  obtain ⟨t', hbase, hne, hmark⟩ := markedAfter_iff.1 hp
  exact Text.length_le_of_splitLast? h hbase hne hmark

theorem exists_splitLast?_of_markedAfter {base p : Text} (h : MarkedAfter base p) :
    ∃ q t, Text.splitLast? atMarker base = some (q, t) ∧ p.length ≤ q.length := by
  cases hsplit : Text.splitLast? atMarker base with
  | none => exact absurd h (splitLast?_atMarker_eq_none_iff.1 hsplit p)
  | some qt => exact ⟨qt.1, qt.2, rfl, length_le_of_markedAfter hsplit h⟩

theorem isDumpName_iff_splitLast? {path : Path} :
    isDumpName path = true ↔
      ∃ p t, Text.splitLast? atMarker (Path.baseName path) = some (p, t) ∧ p ≠ [] := by
  rw [isDumpName]
  cases Text.splitLast? atMarker (Path.baseName path) with
  | none => simp
  | some pt =>
    obtain ⟨p, t⟩ := pt
    simp

/-- Any marker behind a part that is not empty makes a name that of a section file. -/
theorem isDumpName_iff_markedAfter {path : Path} :
    isDumpName path = true ↔ ∃ p, p ≠ [] ∧ MarkedAfter (Path.baseName path) p := by
  rw [isDumpName_iff_splitLast?]
  constructor
  · rintro ⟨p, t, hsplit, hne⟩
    exact ⟨p, hne, markedAfter_of_splitLast? hsplit⟩
  · rintro ⟨p, hne, hp⟩
    obtain ⟨q, t, hsplit, hle⟩ := exists_splitLast?_of_markedAfter hp
    refine ⟨q, t, hsplit, ?_⟩
    rintro rfl
    exact hne (List.eq_nil_of_length_eq_zero (Nat.le_zero.1 hle))

/-- The part of a name that holds the components, in terms of the name alone. -/
inductive Stems (base : Text) : Text → Prop where
  | marked {s : Text} (h : MarkedAfter base s)
      (hlongest : ∀ p, MarkedAfter base p → p.length ≤ s.length) : Stems base s
  | extended {s extension : Text} (hunmarked : ∀ p, ¬MarkedAfter base p)
      (hbase : base = s ++ '.' :: extension) (hlast : '.' ∉ extension) : Stems base s
  | whole (hunmarked : ∀ p, ¬MarkedAfter base p) (hdot : '.' ∉ base) : Stems base base

theorem stems_stem (base : Text) : Stems base (stem base) := by
  rw [stem]
  cases hmark : Text.splitLast? atMarker base with
  | some parts =>
    exact .marked (markedAfter_of_splitLast? hmark) fun p hp => length_le_of_markedAfter hmark hp
  | none =>
    have hunmarked := splitLast?_atMarker_eq_none_iff.1 hmark
    cases hdot : Text.splitLast? (fun t => t.head? = some '.') base with
    | some parts =>
      obtain ⟨p, t⟩ := parts
      obtain ⟨hbase, hne, hhead, hend⟩ := Text.splitLast?_eq_some_iff.1 hdot
      obtain ⟨c, extension, rfl⟩ := List.exists_cons_of_ne_nil hne
      obtain rfl : c = '.' := by simpa using hhead
      exact .extended hunmarked hbase (Text.splitLast?_dot_eq_none_iff.1 hend)
    | none => exact .whole hunmarked (Text.splitLast?_dot_eq_none_iff.1 hdot)

theorem stem_of_stems {base s : Text} (h : Stems base s) : stem base = s := by
  rw [stem]
  cases h with
  | marked hs hlongest =>
    obtain ⟨q, t, hsplit, hle⟩ := exists_splitLast?_of_markedAfter hs
    have hq := markedAfter_of_splitLast? hsplit
    rw [hsplit]
    -- Both are first parts of the name, and as long as each other.
    obtain ⟨u, hu, -⟩ := markedAfter_iff.1 hs
    obtain ⟨v, hv, -⟩ := markedAfter_iff.1 hq
    exact (List.append_inj (hv.symm.trans hu) (Nat.le_antisymm (hlongest q hq) hle)).1
  | extended hunmarked hbase hlast =>
    rw [splitLast?_atMarker_eq_none_iff.2 hunmarked, hbase, Text.splitLast?_dot_append _ hlast]
  | whole hunmarked hdot =>
    rw [splitLast?_atMarker_eq_none_iff.2 hunmarked, Text.splitLast?_dot_eq_none_iff.2 hdot]

/-- A name is cut at its last marker, else at its last dot, else not at all. -/
theorem stem_eq_iff_stems {base s : Text} : stem base = s ↔ Stems base s :=
  ⟨fun h => h ▸ stems_stem base, stem_of_stems⟩

theorem longestMarked_stem {path : Path} (h : isDumpName path = true) :
    LongestMarked (Path.baseName path) (stem (Path.baseName path)) := by
  obtain ⟨p, hne, hp⟩ := isDumpName_iff_markedAfter.1 h
  have hstems := stems_stem (Path.baseName path)
  generalize stem (Path.baseName path) = s at hstems ⊢
  cases hstems with
  | marked hs hlongest =>
    refine ⟨?_, hs, fun p' _ hp' => hlongest p' hp'⟩
    rintro rfl
    exact hne (List.eq_nil_of_length_eq_zero (Nat.le_zero.1 (hlongest p hp)))
  | extended hunmarked => exact absurd hp (hunmarked p)
  | whole hunmarked => exact absurd hp (hunmarked p)

/-- The letters of a marker start no other one. -/
theorem splitLast?_marker_tail {r : Text} (h : Ending r) :
    Text.splitLast? atMarker (marker ++ r).tail = none := by
  have hend := splitLast?_atMarker_eq_none_iff.2 h.unmarked
  have hb : atMarker ('b' :: 'i' :: 'n' :: r) = false := rfl
  have hi : atMarker ('i' :: 'n' :: r) = false := rfl
  have hn : atMarker ('n' :: r) = false := rfl
  change Text.splitLast? atMarker ('b' :: 'i' :: 'n' :: r) = none
  simp [Text.splitLast?, hend, hb, hi, hn]

theorem proper_append_ending {p r : Text} (hp : '/' ∉ p) (h : Ending r) :
    Path.Proper (p ++ marker ++ r) := by
  have hlen : 4 ≤ (p ++ marker ++ r).length := by
    simp only [List.length_append]
    have hmarker : marker.length = 4 := rfl
    omega
  refine ⟨?_, ?_, ?_, ?_⟩
  · simp [hp, h.slash_not_mem, marker]
  · intro e
    simp [e] at hlen
  · intro e
    simp [e, Path.hereName] at hlen
  · intro e
    simp [e, Path.parentName] at hlen

theorem splitLast?_append_ending {p r : Text} (h : Ending r) :
    Text.splitLast? atMarker (p ++ marker ++ r) = some (p, marker ++ r) := by
  rw [List.append_assoc]
  exact Text.splitLast?_append p (atMarker_iff.2 ⟨r, rfl, h.dotted⟩) (marker_append_ne_nil r)
    (splitLast?_marker_tail h)

theorem ending_nil : Ending [] := by
  refine ⟨List.not_mem_nil, .inl rfl, ?_⟩
  rintro p ⟨r, hr, -⟩
  simp [marker] at hr

theorem baseName_append_ending {p r : Text} (hp : '/' ∉ p) (h : Ending r) :
    Path.baseName (p ++ marker ++ r) = p ++ marker ++ r :=
  Path.baseName_of_fileName? (Path.fileName?_of_proper (proper_append_ending hp h))

theorem isDumpName_append_ending {p r : Text} (hne : p ≠ []) (hp : '/' ∉ p) (h : Ending r) :
    isDumpName (p ++ marker ++ r) = true := by
  rw [isDumpName_iff_splitLast?, baseName_append_ending hp h]
  exact ⟨p, marker ++ r, splitLast?_append_ending h, hne⟩

/-- What follows the last marker does not matter. -/
theorem parse_append_ending {p r : Text} (hp : '/' ∉ p) (h : Ending r) :
    parse (p ++ marker ++ r) = parse (p ++ marker) := by
  rw [parse_append_marker hp, parse, baseName_append_ending hp h, stem, splitLast?_append_ending h]

/-- Slashes are all that can keep a written file name from being that of a section file. -/
theorem isDumpName_fileName {id : Identity} (hname : '/' ∉ id.name) (hflags : '/' ∉ id.flags) :
    isDumpName id.fileName = true := by
  have h := isDumpName_append_ending id.writtenStem_ne_nil
    (slash_not_mem_writtenStem hname hflags) ending_nil
  rwa [List.append_nil] at h

/-- A name is that of a section file exactly when a marker follows a part of it that is
not empty. Reading such a name reads the longest part of that kind. So an ending behind
the marker changes neither the one nor the other, and a file name that is written for
texts without slashes is that of a section file. -/
theorem isDumpName_iff_marked :
    (∀ path, isDumpName path = true ↔ ∃ p, p ≠ [] ∧ MarkedAfter (Path.baseName path) p) ∧
    (∀ path, isDumpName path = true →
      ∃ p, LongestMarked (Path.baseName path) p ∧ parse path = ofStem p) ∧
    (∀ p r, p ≠ [] → '/' ∉ p → Ending r →
      isDumpName (p ++ marker ++ r) = true ∧ parse (p ++ marker ++ r) = parse (p ++ marker)) ∧
    ∀ id : Identity, '/' ∉ id.name → '/' ∉ id.flags → isDumpName id.fileName = true := by
  refine ⟨fun path => isDumpName_iff_markedAfter, ?_, ?_, ?_⟩
  · intro path h
    exact ⟨stem (Path.baseName path), longestMarked_stem h, rfl⟩
  · intro p r hne hp hr
    exact ⟨isDumpName_append_ending hne hp hr, parse_append_ending hp hr⟩
  · intro id hname hflags
    exact isDumpName_fileName hname hflags

end Identity
end SectionDump
