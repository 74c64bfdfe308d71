import SectionDump.Text

/-!
# Architectures

The dumping tool writes the architecture as free text. The table knows the usual
spellings of twenty targets; any other text is kept as it is and has no target.
-/
namespace SectionDump

inductive ByteOrder where
  | little
  | big
  deriving DecidableEq, Repr

inductive WordSize where
  | bits32
  | bits64
  deriving DecidableEq, Repr

def WordSize.bytes : WordSize → Nat
  | .bits32 => 4
  | .bits64 => 8

inductive Machine where
  | x86_64
  | i386
  | aarch64
  | arm
  | mips
  | mips64
  | powerPc
  | powerPc64
  | riscv32
  | riscv64
  | s390x
  | sparc
  | sparc64
  | loongArch64
  | m68k
  deriving DecidableEq, Repr

namespace Machine

def wordSize : Machine → WordSize
  | .i386 | .arm | .mips | .powerPc | .riscv32 | .sparc | .m68k => .bits32
  | .x86_64 | .aarch64 | .mips64 | .powerPc64 | .riscv64 | .s390x | .sparc64 | .loongArch64 =>
    .bits64

def label : Machine → Text
  | .x86_64 => "X86_64".toList
  | .i386 => "I386".toList
  | .aarch64 => "Aarch64".toList
  | .arm => "Arm".toList
  | .mips => "Mips".toList
  | .mips64 => "Mips64".toList
  | .powerPc => "PowerPc".toList
  | .powerPc64 => "PowerPc64".toList
  | .riscv32 => "Riscv32".toList
  | .riscv64 => "Riscv64".toList
  | .s390x => "S390x".toList
  | .sparc => "Sparc".toList
  | .sparc64 => "Sparc64".toList
  | .loongArch64 => "LoongArch64".toList
  | .m68k => "M68k".toList

end Machine

/-- A machine together with the order of the bytes in its words. -/
structure Target where
  machine : Machine
  order : ByteOrder
  deriving DecidableEq, Repr

namespace Target

/-- The spellings that are known, in lower case. -/
def spellings : List (String × Target) := [
  ("x86_64", ⟨.x86_64, .little⟩), ("x86-64", ⟨.x86_64, .little⟩), ("amd64", ⟨.x86_64, .little⟩),
  ("i386:x86-64", ⟨.x86_64, .little⟩),
  ("i386", ⟨.i386, .little⟩), ("i486", ⟨.i386, .little⟩), ("i586", ⟨.i386, .little⟩),
  ("i686", ⟨.i386, .little⟩), ("x86", ⟨.i386, .little⟩), ("ia32", ⟨.i386, .little⟩),
  ("aarch64", ⟨.aarch64, .little⟩), ("arm64", ⟨.aarch64, .little⟩),
  ("aarch64_be", ⟨.aarch64, .big⟩),
  ("arm", ⟨.arm, .little⟩), ("armv7", ⟨.arm, .little⟩), ("armel", ⟨.arm, .little⟩),
  ("armhf", ⟨.arm, .little⟩), ("armeb", ⟨.arm, .big⟩),
  ("mips", ⟨.mips, .big⟩), ("mipsel", ⟨.mips, .little⟩),
  ("mips64", ⟨.mips64, .big⟩), ("mips64el", ⟨.mips64, .little⟩),
  ("powerpc", ⟨.powerPc, .big⟩), ("ppc", ⟨.powerPc, .big⟩),
  ("powerpc64", ⟨.powerPc64, .big⟩), ("ppc64", ⟨.powerPc64, .big⟩),
  ("powerpc64le", ⟨.powerPc64, .little⟩), ("ppc64le", ⟨.powerPc64, .little⟩),
  ("riscv32", ⟨.riscv32, .little⟩), ("riscv64", ⟨.riscv64, .little⟩),
  ("s390x", ⟨.s390x, .big⟩),
  ("sparc", ⟨.sparc, .big⟩), ("sparc64", ⟨.sparc64, .big⟩), ("sparcv9", ⟨.sparc64, .big⟩),
  ("loongarch64", ⟨.loongArch64, .little⟩),
  ("m68k", ⟨.m68k, .big⟩)]

/-- Neither blanks around a spelling nor the case of its letters matter. -/
def ofName? (name : Text) : Option Target :=
  spellings.lookup (String.ofList (Text.lower (Text.trim name)))

def wordSize (t : Target) : WordSize := t.machine.wordSize

end Target

/-- The architecture of a dumped file. -/
structure Architecture where
  /-- As written, blanks and case included. -/
  name : Text
  /-- Machine and byte order are known together or not at all, since every spelling tells
  both. `machineLabel` and `order?` give them one by one. -/
  target : Option Target
  deriving DecidableEq, Repr

namespace Architecture

def ofName (name : Text) : Architecture := ⟨name, Target.ofName? name⟩

def isKnown (a : Architecture) : Bool := a.target.isSome

def order? (a : Architecture) : Option ByteOrder := a.target.map Target.order

def wordSize? (a : Architecture) : Option WordSize := a.target.map Target.wordSize

/-- The machine's label, or a word for an unknown one. -/
def machineLabel (a : Architecture) : Text :=
  match a.target with
  | some t => t.machine.label
  | none => "Unknown".toList

end Architecture
end SectionDump
