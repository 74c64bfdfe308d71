import SectionDump.CommandLine

/-!
# Settings

What the program meets besides its arguments and the files: the directives of the
environment on what to report, the rule that tells which directives can be used, and
the pages on its own use. It decides none of these, so all that is shown of a run is
shown for every setting.
-/
namespace SectionDump

/-- Why directives are refused, with what led to it. -/
structure Refusal where
  message : Text
  causes : List Text
  deriving DecidableEq, Repr

def Refusal.chain (r : Refusal) : List Text := r.message :: r.causes

structure Setting where
  /-- The directives of the environment, where it has any that are text. -/
  directives : Option Text
  /-- Why directives cannot be used, if they cannot. -/
  refusal? : Text → Option Refusal
  /-- Shown where help is asked for. -/
  helpPage : Text
  /-- Shown for a fault in the arguments. -/
  usagePage : UsageFault → Text

namespace Setting

/-- Directives of the environment that can be used come before the level of the command
line. All others count as none. -/
def levelRefusal? (s : Setting) (level : Text) : Option Refusal :=
  match s.directives.map s.refusal? with
  | some none => none
  | _ => s.refusal? level

/-- The environment has directives that can be used, or else the level can be. -/
def Takes (s : Setting) (level : Text) : Prop :=
  (∃ d, s.directives = some d ∧ s.refusal? d = none) ∨ s.refusal? level = none

theorem levelRefusal?_eq_none_iff {s : Setting} {level : Text} :
    s.levelRefusal? level = none ↔ s.Takes level := by
  rw [levelRefusal?]
  split
  · rename_i h
    exact iff_of_true rfl (.inl (Option.map_eq_some_iff.1 h))
  · rename_i h
    constructor
    · exact .inr
    · rintro (⟨d, hd, hused⟩ | hlevel)
      · exact absurd (Option.map_eq_some_iff.2 ⟨d, hd, hused⟩) h
      · exact hlevel

end Setting

/-! ## Plain directives

A directive names a target, and may name a level for it. What else a reader of
directives may know, such as the spans that events happen in, is refused here. -/

namespace Directive

/-- From nothing to everything. -/
def levels : List Text := ["off", "error", "warn", "info", "debug", "trace"].map String.toList

/-- A level is told by its word, in any case of letters, or by its place among them. -/
def isLevel (word : Text) : Bool :=
  levels.contains (Text.lower word) || ((List.range levels.length).map Numeral.ofNat).contains word

def isTarget (name : Text) : Bool :=
  !name.isEmpty && name.all fun c => c.isAlphanum || c == '_' || c == '-' || c == ':'

/-- A level by itself looks like a target, so nothing is left to ask of it. -/
def isPlain (directive : Text) : Bool :=
  match Text.cut? (· == '=') directive with
  | some (target, level) => isTarget target && (level.isEmpty || isLevel level)
  | none => isTarget directive

/-- Directives stand between commas. No text at all is none of them. -/
def refusal? (text : Text) : Option Refusal :=
  if text = [] ∨ (text.splitOn ',').all isPlain then none
  else some ⟨"invalid filter directive".toList, []⟩

theorem refusal?_of_mem_levels : ∀ level ∈ levels, refusal? level = none := by decide

end Directive

/-- The setting of plain directives, without pages. -/
def Setting.plain (directives : Option Text) : Setting where
  directives
  refusal? := Directive.refusal?
  helpPage := []
  usagePage _ := []

/-- A level by its word can be used, whatever the environment says. -/
theorem Setting.takes_of_mem_levels {directives : Option Text} {level : Text}
    (h : level ∈ Directive.levels) : (plain directives).Takes level :=
  .inr (Directive.refusal?_of_mem_levels level h)

end SectionDump
