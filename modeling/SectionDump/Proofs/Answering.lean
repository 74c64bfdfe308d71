import SectionDump.Proofs.Describing
import SectionDump.Proofs.Inspecting
import SectionDump.Proofs.Reading
import SectionDump.Proofs.ReadingArguments

/-!
# Answering

The output of a run with queries is put together from one block for each query, lookups
first and in the order in which their options appear. A block is decided by the image and
its own query, also where the answer is a fault, so no query has a part in the answer to
another one. Without an image there is no output at all, and neither is there where what
to report cannot be settled: a level that is refused ends the run before the dump is
looked at, unless the environment has directives of its own that can be used.
-/
namespace SectionDump.Inspection

open CommandLine (Item Gives Requested)

theorem unlines_append (xs ys : List Text) : unlines (xs ++ ys) = unlines xs ++ unlines ys :=
  List.flatMap_append

theorem unlines_singleton (line : Text) : unlines [line] = line ++ ['\n'] := by
  simp [unlines]

theorem unlines_map {α : Type} (xs : List α) (f : α → Text) :
    unlines (xs.map f) = xs.flatMap fun x => f x ++ ['\n'] := List.flatMap_map ..

theorem unlines_flatMap {α : Type} (xs : List α) (f : α → List Text) :
    unlines (xs.flatMap f) = xs.flatMap fun x => unlines (f x) := List.flatMap_assoc ..

/-! ## The answer to one query -/

/-- What a lookup prints. -/
def findBlock (image : Image) (a : UInt64) : Text := findLine image a ++ ['\n']

/-- What a read prints. -/
def readBlock (image : Image) (r : ReadRequest) : Text := unlines (readLines image r)

/-- A lookup is answered by a description of the only section that has the address, or
by the fault that no section has. -/
inductive FindAnswer (image : Image) (a : UInt64) : Text → Prop where
  | held {s : Section} {line : Text} : s ∈ image.sections.toList → s.id.Covers a.toNat →
      (∀ t ∈ image.sections.toList, t.id.Covers a.toNat → t = s) → Describes s line →
        FindAnswer image a (answerLine a line ++ ['\n'])
  | missed : (∀ s ∈ image.sections.toList, ¬s.id.Covers a.toNat) →
      FindAnswer image a (answerLine a (QueryFault.notFound a).message ++ ['\n'])

/-- A read is answered by a dump of the bytes, or by its fault. -/
inductive ReadAnswer (image : Image) (r : ReadRequest) : Text → Prop where
  | bytes {bytes : Bytes} : image.read r.address r.size = .ok bytes →
      ReadAnswer image r (unlines (hexDump r.address bytes))
  | fault {fault : QueryFault} : image.read r.address r.size = .error fault →
      ReadAnswer image r (answerLine r.address fault.message ++ ['\n'])

section Blocks

variable {image : Image}

theorem findAnswer_findBlock (a : UInt64) : FindAnswer image a (findBlock image a) := by
  rw [findBlock, findLine]
  cases hfind : image.find a with
  | ok s =>
    obtain ⟨hs, ha⟩ := image.find_eq_ok_iff.1 hfind
    refine .held hs ha ?_ (describes_describe s)
    intro t ht hta
    have hother := image.find_eq_ok_iff.2 ⟨ht, hta⟩
    rw [hfind] at hother
    exact (Except.ok.inj hother).symm
  | error fault =>
    obtain ⟨rfl, hnone⟩ := image.find_eq_error_iff.1 hfind
    exact .missed hnone

theorem readAnswer_readBlock (r : ReadRequest) : ReadAnswer image r (readBlock image r) := by
  rw [readBlock, readLines]
  cases hread : image.read r.address r.size with
  | ok bytes => exact .bytes hread
  | error fault =>
    rw [unlines_singleton]
    exact .fault hread

theorem unlines_answers {request : Request} (h : request.finds ≠ [] ∨ request.reads ≠ []) :
    unlines (answers image request) =
      request.finds.flatMap (findBlock image) ++ request.reads.flatMap (readBlock image) := by
  have hsome : ¬(request.finds = [] ∧ request.reads = []) := by tauto
  rw [answers, if_neg hsome, unlines_append, unlines_map, unlines_flatMap]
  rfl

end Blocks

/-! ## The answers of a run -/

/-- There is nothing to answer from. -/
inductive Fails (fs : FileSystem) (request : Request) : Prop where
  | scan {fault : LoadFault} : Dump.scan fs request.directory = .error fault → Fails fs request
  | noSections {found : Dump} : Dump.scan fs request.directory = .ok found →
      found.sectionFiles = [] → Fails fs request
  | load {found : Dump} {fault : LoadFault} : Dump.scan fs request.directory = .ok found →
      (dumpOf request found).load fs = .error fault → Fails fs request

theorem Fails.not_shows {fs : FileSystem} {request : Request} (h : Fails fs request)
    (image : Image) : ¬Shows fs request image := by
  rintro ⟨found, hscan, hsome, hload⟩
  cases h with
  | scan hfault =>
    rw [hscan] at hfault
    cases hfault
  | noSections hscan' hnone =>
    rw [hscan] at hscan'
    cases hscan'
    exact hsome hnone
  | load hscan' hfault =>
    rw [hscan] at hscan'
    cases hscan'
    rw [hload] at hfault
    cases hfault

/-- Where it is settled what to report and the image is to be had, a run prints the answers
to the lookups that its arguments name, in their order, and then those to the reads. Else
it prints nothing. -/
theorem run_answers (setting : Setting) (fs : FileSystem) {args : List Text}
    {request : Request} (hargs : CommandLine.parse args = .ok (.inspect request))
    (hqueries : request.finds ≠ [] ∨ request.reads ≠ []) :
    (∃ items, Gives true args items ∧ (∀ others, Gives true args others → others = items) ∧
      Requested items request) ∧
    (setting.Takes request.logLevel → ∀ image, Shows fs request image →
      (run setting fs args).exitCode = 0 ∧
      (run setting fs args).output =
        request.finds.flatMap (findBlock image) ++ request.reads.flatMap (readBlock image) ∧
      (∀ a ∈ request.finds, FindAnswer image a (findBlock image a)) ∧
      ∀ r ∈ request.reads, ReadAnswer image r (readBlock image r)) ∧
    (¬setting.Takes request.logLevel ∨ Fails fs request →
      (run setting fs args).exitCode = 1 ∧ (run setting fs args).output = []) := by
  rw [run_of_parse hargs]
  refine ⟨?_, ?_, ?_⟩
  · obtain ⟨items, hgives, hrequested⟩ := CommandLine.parse_eq_inspect_iff.1 hargs
    exact ⟨items, hgives, fun others => hgives.unique, hrequested⟩
  · intro htakes image hshows
    rw [inspect_of_answered ⟨htakes, hshows⟩]
    exact ⟨rfl, unlines_answers hqueries, fun a _ => findAnswer_findBlock a,
      fun r _ => readAnswer_readBlock r⟩
  · intro hnone
    apply inspect_of_not_answered
    rintro image ⟨htakes, hshows⟩
    rcases hnone with hrefused | hfails
    · exact hrefused htakes
    · exact hfails.not_shows image hshows

/-! Queries on both sides of the directory, two of which have no answer, with a level that
is no level. The environment settles what to report in the first setting and not in the
second. -/

def queriedTree : FileTree :=
  FileTree.empty.writeAll "dump".toList [("text-1000-2-0-rx.bin".toList, [1, 2])]

def mixedArgs : List Text :=
  ["--read=1001:9", "dump", "--find", "0x2000", "--log-level", "secload=loud", "--find=1001",
    "--read", "1000:2"].map String.toList

def mixedRequest : Request :=
  ⟨"dump".toList, none, [0x2000, 0x1001], [⟨0x1001, 9⟩, ⟨0x1000, 2⟩], "secload=loud".toList⟩

def queriedDump : Dump := ⟨"dump".toList, ["dump/text-1000-2-0-rx.bin".toList], none⟩

theorem run_answers_mixedArgs :
    CommandLine.parse mixedArgs = .ok (.inspect mixedRequest) ∧
      (mixedRequest.finds ≠ [] ∨ mixedRequest.reads ≠ []) ∧
      (Setting.plain (some "off".toList)).Takes mixedRequest.logLevel ∧
      (∃ image, Shows queriedTree.fileSystem mixedRequest image ∧
        (run (.plain (some "off".toList)) queriedTree.fileSystem mixedArgs).exitCode = 0 ∧
        (run (.plain (some "off".toList)) queriedTree.fileSystem mixedArgs).output =
          findBlock image 0x2000 ++ findBlock image 0x1001 ++
            (readBlock image ⟨0x1001, 9⟩ ++ readBlock image ⟨0x1000, 2⟩) ∧
        FindAnswer image 0x1001 (findBlock image 0x1001) ∧
        findBlock image 0x2000 = "0x2000: no section or label at 0x2000\n".toList ∧
        findBlock image 0x1001 =
          "0x1001: text [0x1000, 0x1001] size 2 offset 0 flags rx\n".toList ∧
        readBlock image ⟨0x1001, 9⟩ =
          "0x1001: read of 9 bytes at 0x1001 crosses section end 0x1001\n".toList ∧
        readBlock image ⟨0x1000, 2⟩ = "0x00001000: 01 02\n".toList) ∧
      ¬(Setting.plain none).Takes mixedRequest.logLevel ∧
      (run (.plain none) queriedTree.fileSystem mixedArgs).exitCode = 1 ∧
      (run (.plain none) queriedTree.fileSystem mixedArgs).output = [] := by
  have hargs : CommandLine.parse mixedArgs = .ok (.inspect mixedRequest) := rfl
  have hqueries : mixedRequest.finds ≠ [] ∨ mixedRequest.reads ≠ [] := .inl (by decide)
  have htakes : (Setting.plain (some "off".toList)).Takes mixedRequest.logLevel :=
    .inl ⟨_, rfl, by decide⟩
  have hrefused : ¬(Setting.plain none).Takes mixedRequest.logLevel := by
    rw [← Setting.levelRefusal?_eq_none_iff]
    decide
  have hblocks : ((queriedDump.load queriedTree.fileSystem).toOption.map fun image =>
      [findBlock image 0x2000, findBlock image 0x1001, readBlock image ⟨0x1001, 9⟩,
        readBlock image ⟨0x1000, 2⟩]) =
        some ["0x2000: no section or label at 0x2000\n".toList,
          "0x1001: text [0x1000, 0x1001] size 2 offset 0 flags rx\n".toList,
          "0x1001: read of 9 bytes at 0x1001 crosses section end 0x1001\n".toList,
          "0x00001000: 01 02\n".toList] := by decide +kernel
  obtain ⟨image, hload, hlines⟩ := toOption_map_eq_some_iff.1 hblocks
  simp only [List.cons.injEq, and_true] at hlines
  have hshows : Shows queriedTree.fileSystem mixedRequest image :=
    ⟨queriedDump, rfl, by decide, hload⟩
  obtain ⟨-, hanswered, -⟩ :=
    run_answers (.plain (some "off".toList)) queriedTree.fileSystem hargs hqueries
  obtain ⟨hcode, houtput, hfinds, -⟩ := hanswered htakes image hshows
  obtain ⟨-, -, hfails⟩ := run_answers (.plain none) queriedTree.fileSystem hargs hqueries
  refine ⟨hargs, hqueries, htakes, ⟨image, hshows, hcode, ?_, hfinds _ (by decide), hlines⟩,
    hrefused, hfails (.inl hrefused)⟩
  simpa [mixedRequest] using houtput

end SectionDump.Inspection
