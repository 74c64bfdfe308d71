import SectionDump.Event
import SectionDump.Fault
import SectionDump.Image

/-!
# Queries

An address is looked up by bisection: of all sections only the last one that
starts at or below it can hold it. A read is answered from one section or not at
all, even where the next section goes on without a gap.
-/
namespace SectionDump

/-- Halves the stretch from `lo` to `hi` until nothing of it is left. The test
holds below the stretch and fails above it. -/
def bisect {α : Type} (test : α → Bool) (xs : Array α) : Nat → Nat → Nat → Nat
  | 0, lo, _ => lo
  | steps + 1, lo, hi =>
    if lo < hi then
      let mid := lo + (hi - lo) / 2
      if xs[mid]?.any test then bisect test xs steps (mid + 1) hi else bisect test xs steps lo mid
    else lo

/-- The place before which a test holds and from which on it fails, for an array
on which it changes once. Each step shortens the stretch, so its length is enough
of them. -/
def partitionPoint {α : Type} (test : α → Bool) (xs : Array α) : Nat :=
  bisect test xs xs.size 0 xs.size

/-- The number that bytes stand for. -/
def ByteOrder.value : ByteOrder → Bytes → Nat
  | .little, bytes => bytes.foldr (fun b rest => b.toNat + 256 * rest) 0
  | .big, bytes => bytes.foldl (fun front b => 256 * front + b.toNat) 0

namespace Image

/-- The only section that can hold an address. -/
def candidate? (image : Image) (address : UInt64) : Option Section :=
  match partitionPoint (fun s => s.start ≤ address) image.sections with
  | 0 => none
  | n + 1 => image.sections[n]?

/-- The section that holds an address. -/
def find (image : Image) (address : UInt64) : Except QueryFault Section :=
  match image.candidate? address with
  | some s => if s.contains address then .ok s else .error (.notFound address)
  | none => .error (.notFound address)

def contains (image : Image) (address : UInt64) : Bool :=
  match image.find address with
  | .ok _ => true
  | .error _ => false

/-- As many bytes as asked for, from an address on. Reading none works at every
address. -/
def read (image : Image) (address size : UInt64) : Except QueryFault Bytes :=
  if size = 0 then .ok []
  else match image.find address with
    | .error fault => .error fault
    | .ok s => match s.slice address size with
      | some bytes => .ok bytes
      | none => .error (.outOfBounds address size s.last)

def readUInt16 (image : Image) (address : UInt64) (order : ByteOrder) : Except QueryFault UInt16 :=
  (image.read address 2).map fun bytes => .ofNat (order.value bytes)

def readUInt32 (image : Image) (address : UInt64) (order : ByteOrder) : Except QueryFault UInt32 :=
  (image.read address 4).map fun bytes => .ofNat (order.value bytes)

def readUInt64 (image : Image) (address : UInt64) (order : ByteOrder) : Except QueryFault UInt64 :=
  (image.read address 8).map fun bytes => .ofNat (order.value bytes)

/-- The target that the metadata named, when it is a known one. -/
def target? (image : Image) : Option Target := image.arch.bind Architecture.target

/-- A word of the image's machine, which has to be known first. -/
def readWord (image : Image) (address : UInt64) : Except QueryFault UInt64 :=
  match image.target? with
  | none => .error .unknownArchitecture
  | some t => match t.wordSize with
    | .bits32 => (image.readUInt32 address t.order).map UInt32.toUInt64
    | .bits64 => image.readUInt64 address t.order

/-- The newest name of an address. -/
def labelFor (image : Image) (address : UInt64) : Except QueryFault Text :=
  match image.labels.get? address with
  | some name => .ok name
  | none => .error (.notFound address)

/-- The first section of a name, by address. -/
def sectionNamed? (image : Image) (name : Text) : Option Section :=
  image.sections.find? fun s => s.name = name

def findEvents (image : Image) (address : UInt64) : List Event :=
  match image.find address with
  | .ok _ => []
  | .error _ => [.unmapped address]

def readEvents (image : Image) (address size : UInt64) : List Event :=
  if size = 0 then []
  else match image.find address with
    | .error _ => [.unmapped address]
    | .ok s => if (s.slice address size).isSome then [] else [.readPastEnd address size s]

def readWordEvents (image : Image) (address : UInt64) : List Event :=
  match image.target? with
  | none => []
  | some t => image.readEvents address (.ofNat t.wordSize.bytes)

end Image
end SectionDump
