import FontCatalog.Proofs.Catalog.Agreement
import FontCatalog.Proofs.FileTree.Spelling
import FontCatalog.Proofs.Scan.Outcome

/-! All orders of a scan agree. A scan that is not cancelled gives, up to the spelling of paths, the
catalog that one worker alone gives, however many workers there are, whether the files were counted
first, and in whatever order the parts take their steps. -/
namespace FontCatalog
set_option autoImplicit false

/-! ## Extractors -/

/-- The file that a path leads to, and where it is. -/
def FileTree.file? (t : FileTree) (p : Path) : Option (Location × ByteArray) :=
  match t.status true p with
  | .ok (l, .file data) => some (l, data)
  | _ => none

theorem FileTree.status_of_file? {t : FileTree} {p : Path} {l : Location} {data : ByteArray}
    (h : t.file? p = some (l, data)) : t.status true p = .ok (l, .file data) := by
  unfold file? at h
  split at h
  · next hstatus =>
    cases h
    exact hstatus
  · cases h

namespace Extractor

structure ReadsFiles (x : Extractor) (t : FileTree) : Prop where
  /-- What is opened depends on the file alone; a path that leads to no file cannot be opened. -/
  opens : ∃ read : Location → ByteArray → Option FontFile,
    ∀ p, (x p).toOption = (t.file? p).bind fun f => read f.1 f.2
  /-- The faces of a file are numbered in 32 bits. -/
  numbered : ∀ p file, x p = .ok file → file.faceCount ≤ UInt32.size

theorem readsFiles_extractor (format : FontFormat) (t : FileTree)
    (hnumbered : ∀ data file, format data = .ok file → file.faceCount ≤ UInt32.size) :
    ReadsFiles (FontFile.extractor format t) t := by
  have hread (p : Path) : (FontFile.extractor format t p).toOption =
      (t.file? p).bind fun f => (format f.2).toOption := by
    unfold FontFile.extractor FileTree.read FileTree.file?
    cases t.status true p with
    | error e => rfl
    | ok s =>
      obtain ⟨l, n⟩ := s
      cases n with
      | file data =>
        dsimp only [Option.bind_some]
        cases format data <;> rfl
      | link target => rfl
      | directory => rfl
  refine ⟨⟨fun _ data => (format data).toOption, hread⟩, ?_⟩
  intro p file hfile
  have hsome := hread p
  rw [hfile] at hsome
  obtain ⟨⟨l, data⟩, -, hformat⟩ := Option.bind_eq_some_iff.1 hsome.symm
  apply hnumbered data file
  cases hdata : format data with
  | error reason => simp [hdata, Except.toOption] at hformat
  | ok file' =>
    rw [hdata] at hformat
    cases hformat
    rfl

variable {x : Extractor} {t : FileTree}

theorem mem_faces {p : Path} {f : Face} (hf : f ∈ x.faces p) :
    ∃ file index m, x p = .ok file ∧ index < file.faceCount ∧ file.metadata index = .ok m ∧
      f = { toFaceMetadata := m, path := p, index := index.toUInt32 } := by
  unfold faces at hf
  cases hfile : x p with
  | error e =>
    rw [hfile] at hf
    cases hf
  | ok file =>
    rw [hfile] at hf
    obtain ⟨index, hindex, hface⟩ := List.mem_filterMap.1 hf
    unfold FontFile.face at hface
    cases hm : file.metadata index with
    | error reason =>
      rw [hm] at hface
      cases hface
    | ok m =>
      rw [hm] at hface
      cases hface
      exact ⟨file, index, m, rfl, List.mem_range.1 hindex, hm, rfl⟩

theorem number_injective {file : FontFile} (hcount : file.faceCount ≤ UInt32.size) {i j : Nat}
    (hi : i < file.faceCount) (hj : j < file.faceCount) (h : i.toUInt32 = j.toUInt32) : i = j := by
  have hnat := congrArg UInt32.toNat h
  change (UInt32.ofNat i).toNat = (UInt32.ofNat j).toNat at hnat
  rw [UInt32.toNat_ofNat_of_lt' (by omega), UInt32.toNat_ofNat_of_lt' (by omega)] at hnat
  exact hnat

/-- Faces of one identity are the same: their paths lead to the same file. -/
theorem ReadsFiles.consistent (h : ReadsFiles x t) (files : List Path) :
    Catalog.Consistent (files.flatMap x.faces) := by
  obtain ⟨⟨read, hread⟩, hnumbered⟩ := h
  intro f hf g hg hid
  obtain ⟨p, -, hf⟩ := List.mem_flatMap.1 hf
  obtain ⟨q, -, hg⟩ := List.mem_flatMap.1 hg
  obtain ⟨file, i, m, hp, hi, hm, rfl⟩ := mem_faces hf
  obtain ⟨file', j, m', hq, hj, hm', rfl⟩ := mem_faces hg
  obtain ⟨hsame, hindex⟩ := FaceId.same_iff_and.1 hid
  have hleads {p : Path} {file : FontFile} (hp : x p = .ok file) :
      ∃ l data, t.status true p = .ok (l, .file data) ∧ read l data = some file := by
    have hsome := hread p
    rw [hp] at hsome
    obtain ⟨⟨l, data⟩, hfile, hopen⟩ := Option.bind_eq_some_iff.1 hsome.symm
    exact ⟨l, data, FileTree.status_of_file? hfile, hopen⟩
  obtain ⟨l, data, hstatus, hopen⟩ := hleads hp
  obtain ⟨l', data', hstatus', hopen'⟩ := hleads hq
  obtain ⟨rfl, rfl⟩ := FileTree.status_file_steady hsame hstatus hstatus'
  have hfiles : file = file' := Option.some.inj (hopen.symm.trans hopen')
  subst hfiles
  obtain rfl := number_injective (hnumbered p file hp) hi hj hindex
  rw [hm] at hm'
  cases hm'
  exact Face.same_iff.2 ⟨rfl, hid⟩

end Extractor

/-! ## Orders -/

namespace Scan

theorem orders_agree (x : Extractor) (tree : FileTree) (hx : Extractor.ReadsFiles x tree) (options : ScanOptions)
    (input : ScanInput) :
    (∀ order : List ScanActor,
      (∃ more o, ((make tree options input).after x (order ++ more)).outcome? = some o) ∧
      ∀ o, ((make tree options input).after x order).outcome? = some o →
        o.cancelled = false ∧
        ∀ precount, ∃ alone t,
          run x (make tree ⟨1, precount, options.dedup⟩ input) = (.ok alone, t) ∧
          o.catalog.Agrees alone.catalog) ∧
    ∀ F G : List Face, F.Perm G → Catalog.Consistent F → (Catalog.build F).Agrees (Catalog.build G) := by
  refine ⟨?_, fun F G hperm h => Catalog.build_agrees hperm h⟩
  intro order
  constructor
  · obtain ⟨more, o, ho⟩ := exists_outcome x ((make tree options input).after x order)
    refine ⟨more, o, ?_⟩
    rwa [after_append]
  · intro o ho
    have hkept (options : ScanOptions) : (make tree options input).Kept x [] [] :=
      kept_make x tree options input (make tree options input).digest
    obtain ⟨huncancelled, hrecords⟩ := records_after (hkept options) rfl ho
    refine ⟨huncancelled, ?_⟩
    intro precount
    obtain ⟨_, alone, halone, hrun⟩ := run_make x tree ⟨1, precount, options.dedup⟩ input
    refine ⟨alone, _, hrun, ?_⟩
    obtain ⟨-, halonerecords⟩ := records_after (hkept ⟨1, precount, options.dedup⟩) rfl halone
    -- The files do not depend on the number of workers or on counting first.
    rw [shared_left] at hrecords halonerecords
    apply Catalog.build_agrees (hrecords.trans halonerecords.symm)
    intro f hf g hg
    have hmem {f : Face} (hf : f ∈ o.records) := hrecords.subset hf
    exact hx.consistent _ f (hmem hf) g (hmem hg)

/-- A directory with one file, and a format in which each file holds one face. -/
def oneFile : FileTree where
  nodes := [([[0x61]], .file ⟨#[]⟩)]

def oneFace : FontFormat := fun _ => .ok ⟨1, fun _ => .ok { fullName := "A" }⟩

/-- Both spellings of the path of the file. -/
def bothSpellings : ScanInput := .given (.ofPaths [⟨[0x2F, 0x61]⟩, ⟨[0x2F, 0x2F, 0x61]⟩])

/-- The worker that claims the second spelling keeps its face before the other has opened the file. -/
theorem orders_agree_overtaken :
    let overtaken : ScanOutcome :=
      { records := [
          { fullName := "A", path := ⟨[0x2F, 0x2F, 0x61]⟩, index := 0 },
          { fullName := "A", path := ⟨[0x2F, 0x61]⟩, index := 0 }] }
    ((make oneFile ⟨2, true, false⟩ bothSpellings).after (FontFile.extractor oneFace oneFile)
      (List.replicate 7 .lead ++ List.replicate 2 (.worker 0) ++ List.replicate 14 (.worker 1) ++
        List.replicate 12 (.worker 0) ++ List.replicate 6 .lead)).outcome? = some overtaken ∧
    ∃ alone t, run (FontFile.extractor oneFace oneFile) (make oneFile ⟨1, false, false⟩ bothSpellings) =
      (.ok alone, t) ∧ overtaken.catalog.Agrees alone.catalog := by
  intro overtaken
  have hreads : Extractor.ReadsFiles (FontFile.extractor oneFace oneFile) oneFile := by
    apply Extractor.readsFiles_extractor
    intro data file hfile
    cases hfile
    decide
  -- The run is computed; the agreement follows from its outcome.
  refine (and_iff_left_of_imp fun hdone => ?_).2 rfl
  have hagree := ((orders_agree _ oneFile hreads ⟨2, true, false⟩ bothSpellings).1 _).2 _ hdone
  exact hagree.2 false

end Scan

end FontCatalog
