import FontCatalog.Proofs.Catalog.Firsts
import FontCatalog.Proofs.Scan.Agreement
import FontCatalog.Proofs.Search.Discovery

/-! Scans with and without copies. A file that is left out has a twin with a smaller path whose faces say
the same, so its faces are never the first to pass a test; whatever is asked of a catalog, the answer is the
same with the copies and without them. -/
namespace FontCatalog
set_option autoImplicit false

/-- How many faces a file has, and what it says of each. -/
def FontFile.contents (file : FontFile) : Nat × (Nat → Option FaceMetadata) :=
  (file.faceCount, fun index => (file.metadata index).toOption)

/-- Whether files with different bytes have different digests. -/
def Copies.TellsApart (digest : Digest) (t : FileTree) (files : List Path) : Prop :=
  ∀ p ∈ files, ∀ q ∈ files, ∀ data data', t.read p = .ok data → t.read q = .ok data' →
    digest data = digest data' → data = data'

theorem FileTree.read_of_status {t : FileTree} {p : Path} {l : Location} {data : ByteArray}
    (h : t.status true p = .ok (l, .file data)) : t.read p = .ok data := by
  rw [read, h]

namespace Extractor

/-! ## Extractors -/

structure ReadsBytes (x : Extractor) (t : FileTree) : Prop where
  /-- Whether a file is opened and what it contains depends on its bytes alone. -/
  opens : ∀ p q data, t.read p = .ok data → t.read q = .ok data →
    (x p).toOption.map FontFile.contents = (x q).toOption.map FontFile.contents
  /-- The faces of a file are numbered in 32 bits. -/
  numbered : ∀ p file, x p = .ok file → file.faceCount ≤ UInt32.size

theorem readsBytes_extractor (format : FontFormat) (t : FileTree)
    (hnumbered : ∀ data file, format data = .ok file → file.faceCount ≤ UInt32.size) :
    ReadsBytes (FontFile.extractor format t) t where
  opens p q data hp hq := by
    unfold FontFile.extractor
    rw [hp, hq]
    dsimp only
    cases format data <;> rfl
  numbered p file hfile := by
    unfold FontFile.extractor at hfile
    split at hfile
    · cases hfile
    · next data hdata =>
      apply hnumbered data file
      split at hfile
      · cases hfile
      · next file' hformat =>
        cases hfile
        exact hformat

variable {x : Extractor} {t : FileTree}

theorem mem_faces_of {p : Path} {file : FontFile} {index : Nat} {m : FaceMetadata} (hfile : x p = .ok file)
    (hindex : index < file.faceCount) (hm : file.metadata index = .ok m) :
    { toFaceMetadata := m, path := p, index := index.toUInt32 } ∈ x.faces p := by
  unfold faces
  rw [hfile]
  refine List.mem_filterMap.2 ⟨index, List.mem_range.2 hindex, ?_⟩
  rw [FontFile.face, hm]
  rfl

/-- Files with the same bytes have the same faces but for the path. -/
theorem ReadsBytes.faces (hx : ReadsBytes x t) {p q : Path} {data : ByteArray} (hp : t.read p = .ok data)
    (hq : t.read q = .ok data) {f : Face} (hf : f ∈ x.faces p) :
    f.path = p ∧ { f with path := q } ∈ x.faces q := by
  obtain ⟨file, index, m, hfile, hindex, hm, rfl⟩ := mem_faces hf
  refine ⟨rfl, ?_⟩
  have hcontents := hx.opens p q data hp hq
  rw [hfile] at hcontents
  cases hfile' : x q with
  | error e =>
    rw [hfile'] at hcontents
    cases hcontents
  | ok file' =>
    rw [hfile'] at hcontents
    have hsame : file.contents = file'.contents := Option.some.inj hcontents
    have hcount : file.faceCount = file'.faceCount := congrArg Prod.fst hsame
    have hsays : (file.metadata index).toOption = (file'.metadata index).toOption :=
      congrFun (congrArg Prod.snd hsame) index
    apply mem_faces_of hfile' (hcount ▸ hindex)
    rw [hm] at hsays
    cases hm' : file'.metadata index with
    | error reason =>
      rw [hm'] at hsays
      cases hsays
    | ok m' =>
      rw [hm'] at hsays
      cases hsays
      rfl

/-- Faces of discovered files differ in their identities. -/
theorem ReadsBytes.distinct (hx : ReadsBytes x t) {files : List Path} (hfiles : Discovered t files) :
    Catalog.Distinct (files.flatMap x.faces) := by
  intro f hf g hg hid
  obtain ⟨p, hp, hf⟩ := List.mem_flatMap.1 hf
  obtain ⟨q, hq, hg⟩ := List.mem_flatMap.1 hg
  obtain ⟨file, i, m, hfile, hi, hm, rfl⟩ := mem_faces hf
  obtain ⟨file', j, m', hfile', hj, hm', rfl⟩ := mem_faces hg
  obtain ⟨hsame, hindex⟩ := FaceId.same_iff_and.1 hid
  obtain rfl := hfiles.eq_of_same hp hq hsame
  rw [hfile] at hfile'
  cases hfile'
  obtain rfl := number_injective (hx.numbered p file hfile) hi hj hindex
  rw [hm] at hm'
  cases hm'
  rfl

end Extractor

namespace Scan

/-! ## Scans -/

/-- Leaving out files whose twins stay under smaller paths changes no answer. -/
theorem find_of_kept {x : Extractor} {tree : FileTree} (hx : x.ReadsBytes tree) {files kept : List Path}
    (hfiles : Discovered tree files) (hsub : ∀ p ∈ kept, p ∈ files)
    (htwins : ∀ p ∈ files, ∀ data, tree.read p = .ok data →
      ∃ q ∈ kept, tree.read q = .ok data ∧ (compare q p).isLE = true)
    {F G : List Face} (hF : F.Perm (kept.flatMap x.faces)) (hG : G.Perm (files.flatMap x.faces)) (q : Query) :
    (Catalog.build F).find q = (Catalog.build G).find q := by
  have hdistinct : Catalog.Distinct G :=
    fun f hf g hg => hx.distinct hfiles f (hG.subset hf) g (hG.subset hg)
  apply Catalog.find_build_eq hdistinct
  · intro f hf
    obtain ⟨p, hp, hfp⟩ := List.mem_flatMap.1 (hF.subset hf)
    exact hG.symm.subset (List.mem_flatMap.2 ⟨p, hsub p hp, hfp⟩)
  · intro g hg
    obtain ⟨p, hp, hgp⟩ := List.mem_flatMap.1 (hG.subset hg)
    obtain ⟨l, data, hstatus⟩ := hfiles.found p hp
    have hdata := FileTree.read_of_status hstatus
    obtain ⟨r, hr, hrdata, hle⟩ := htwins p hp data hdata
    obtain ⟨hpath, htwin⟩ := hx.faces hdata hrdata hgp
    refine ⟨{ g with path := r }, hF.symm.subset (List.mem_flatMap.2 ⟨r, hr, htwin⟩), rfl, ?_⟩
    have hindex : compare g.index g.index = .eq := Std.ReflCmp.compare_self
    show ((compare r g.path).then (compare g.index g.index)).isLE = true
    rw [hindex, Ordering.then_eq, hpath]
    exact hle

theorem chosen_of_discovered {digest : Copies.Digest} {tree : FileTree} {files : List Path}
    (hfiles : Discovered tree files) : chosen digest tree true files = Copies.uniqueBy digest tree files := by
  rw [chosen, if_pos rfl, Finder.storable_of_textual]
  intro p hp
  exact hfiles.textual p ((Copies.uniqueBy_sublist digest tree files).subset hp)

/-- Of each discovered file a twin with the same bytes stays, under a path that is no greater. -/
theorem exists_kept {digest : Copies.Digest} {tree : FileTree} {files : List Path}
    (hdigest : Copies.TellsApart digest tree files) {p : Path} (hp : p ∈ files) {data : ByteArray}
    (hdata : tree.read p = .ok data) :
    ∃ q ∈ Copies.uniqueBy digest tree files, tree.read q = .ok data ∧ (compare q p).isLE = true := by
  obtain ⟨q, hq, ⟨m, hqm, hpm⟩, hle⟩ := Copies.exists_twin digest hp hdata
  refine ⟨q, hq, ?_, hle⟩
  rw [Copies.mark?, hdata] at hpm
  obtain rfl := Option.some.inj hpm
  unfold Copies.mark? at hqm
  cases hread : tree.read q with
  | error e =>
    rw [hread] at hqm
    cases hqm
  | ok data' =>
    rw [hread] at hqm
    have hsame : digest data' = digest data := congrArg Prod.snd (Option.some.inj hqm)
    have hmem := (Copies.uniqueBy_sublist digest tree files).subset hq
    rw [hdigest q hmem p hp data' data hread hdata hsame]

/-- Whatever is asked of the catalog of a scan, the answer does not show whether copies were left out. -/
theorem copies_unseen (x : Extractor) (tree : FileTree) (hx : x.ReadsBytes tree) (digest : Copies.Digest)
    (extensions : Extensions) (follow : Bool) (roots : List Path)
    (hdigest : Copies.TellsApart digest tree (Finder.ofWalk extensions (tree.walk follow roots)).drain.1)
    (input : ScanInput) (hinput : input.finder = .ofWalk extensions (tree.walk follow roots)) :
    let scan (options : ScanOptions) := (make tree options input).comparingBy digest
    (∀ options order, ∃ more o, ((scan options).after x (order ++ more)).outcome? = some o) ∧
    ∀ workers precount order o workers' precount' order' o',
      ((scan ⟨workers, precount, true⟩).after x order).outcome? = some o →
      ((scan ⟨workers', precount', false⟩).after x order').outcome? = some o' →
      o.cancelled = false ∧ o'.cancelled = false ∧ ∀ q, o.catalog.find q = o'.catalog.find q := by
  intro scan
  constructor
  · intro options order
    obtain ⟨more, o, ho⟩ := exists_outcome x ((scan options).after x order)
    refine ⟨more, o, ?_⟩
    rwa [after_append]
  · intro workers precount order o workers' precount' order' o' ho ho'
    have hkept (options : ScanOptions) : (scan options).Kept x [] [] := kept_make x tree options input digest
    obtain ⟨huncancelled, hrecords⟩ := records_after (hkept _) rfl ho
    obtain ⟨huncancelled', hrecords'⟩ := records_after (hkept _) rfl ho'
    rw [shared_left] at hrecords hrecords'
    refine ⟨huncancelled, huncancelled', ?_⟩
    have hfiles : Discovered tree input.finder.left := by
      rw [hinput]
      exact Finder.discovered_ofWalk tree extensions follow roots
    rw [Finder.drain_eq_left, ← hinput] at hdigest
    cases input with
    | search f =>
      have hchosen : chosen digest tree true f.left = Copies.uniqueBy digest tree f.left :=
        chosen_of_discovered hfiles
      change o.records.Perm ((chosen digest tree true f.left).flatMap x.faces) at hrecords
      rw [hchosen] at hrecords
      exact find_of_kept hx hfiles (fun p hp => (Copies.uniqueBy_sublist digest tree f.left).subset hp)
        (fun p hp data hdata => exists_kept hdigest hp hdata) hrecords hrecords'
    | given f =>
      -- Files that are handed over are not compared.
      have hself (p : Path) : (compare p p).isLE = true := by
        have heq : compare p p = .eq := Std.ReflCmp.compare_self
        rw [heq]
        rfl
      exact find_of_kept hx hfiles (fun p hp => hp) (fun p hp data hdata => ⟨p, hp, hdata, hself p⟩) hrecords
        hrecords'

/-- A directory with a file and a copy of it. -/
def fileAndCopy : FileTree where
  nodes := [([[0x62, 0x2E, 0x74, 0x74, 0x66]], .file ⟨#[7]⟩), ([[0x61, 0x2E, 0x74, 0x74, 0x66]], .file ⟨#[7]⟩)]

def searched : ScanInput := .search (.ofWalk .standard (fileAndCopy.walk false [⟨[Path.slash]⟩]))

/-- Enough steps for a scan of two files with one worker. -/
def enough : List ScanActor :=
  List.replicate 40 .lead ++ List.replicate 60 (.worker 0) ++ List.replicate 20 .lead

theorem copies_unseen_pair : ∃ o o',
    (((make fileAndCopy ⟨1, true, true⟩ searched).comparingBy id).after
      (FontFile.extractor oneFace fileAndCopy) enough).outcome? = some o ∧
    (((make fileAndCopy ⟨1, true, false⟩ searched).comparingBy id).after
      (FontFile.extractor oneFace fileAndCopy) enough).outcome? = some o' ∧
    o.records.length = 1 ∧ o'.records.length = 2 ∧ ∀ q, o.catalog.find q = o'.catalog.find q := by
  have hreads : (FontFile.extractor oneFace fileAndCopy).ReadsBytes fileAndCopy := by
    apply Extractor.readsBytes_extractor
    intro data file hfile
    cases hfile
    decide
  have hone : (((make fileAndCopy ⟨1, true, true⟩ searched).comparingBy id).after
      (FontFile.extractor oneFace fileAndCopy) enough).outcome?.map (·.records.length) = some 1 := by
    decide +kernel
  have htwo : (((make fileAndCopy ⟨1, true, false⟩ searched).comparingBy id).after
      (FontFile.extractor oneFace fileAndCopy) enough).outcome?.map (·.records.length) = some 2 := by
    decide +kernel
  obtain ⟨o, ho, hlength⟩ := Option.map_eq_some_iff.1 hone
  obtain ⟨o', ho', hlength'⟩ := Option.map_eq_some_iff.1 htwo
  have hunseen := (copies_unseen _ fileAndCopy hreads id .standard false [⟨[Path.slash]⟩]
    (fun _ _ _ _ _ _ _ _ hsame => hsame) searched rfl).2
  obtain ⟨-, -, hfind⟩ := hunseen 1 true enough o 1 true enough o' ho ho'
  exact ⟨o, o', ho, ho', hlength, hlength', hfind⟩

end Scan

end FontCatalog
