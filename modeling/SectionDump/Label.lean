import SectionDump.Text

/-!
# Labels

Names of addresses. The image defines some of them for others to enter; at the
others it leaves for code that lives elsewhere.
-/
namespace SectionDump

/-- A named address. -/
structure Symbol where
  address : UInt64
  name : Text
  deriving DecidableEq, Repr

inductive LabelKind where
  | entry
  | exit
  deriving DecidableEq, Repr

def LabelKind.word : LabelKind → Text
  | .entry => "Entry".toList
  | .exit => "Exit".toList

structure Label where
  name : Text
  kind : LabelKind
  deriving DecidableEq, Repr

end SectionDump
