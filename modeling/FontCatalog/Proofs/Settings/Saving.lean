import FontCatalog.Proofs.FileTree.Directories
import FontCatalog.Proofs.Settings.Sections

/-! Settings saved to a file and loaded from it. What is written is read back, also when lines or whole sections
have been taken out of the file; settings that cannot be written leave the file as it was. -/
namespace FontCatalog.Settings
set_option autoImplicit false
open Toml

variable {t : FileTree} {p : Path}

/-! ## Writable paths -/

/-- Makes the directory in which a file is to be. -/
def makeParent (t : FileTree) (p : Path) : FileTree × Except OsError Unit :=
  match p.parent? with
  | some d => t.reach d
  | none => (t, .ok ())

/-- Whether a file can be written: its directory is there or can be made, and then the path leads to a file or to
nothing. -/
def Writable (t : FileTree) (p : Path) : Prop :=
  ∃ u l n, makeParent t p = (u, .ok ()) ∧ FileTree.endsInSlash p = false ∧ u.locate true p = .ok ⟨l, n⟩ ∧
    FileTree.IsLeaf n

theorem read_makeParent {q : Path} {data : ByteArray} (h : t.read q = .ok data) (p : Path) :
    (makeParent t p).1.read q = .ok data := by
  unfold makeParent
  split
  · exact FileTree.read_reach h _
  · exact h

/-! ## Files -/

/-- The file of these sections. -/
def fileOf (blanks : String → Nat) (last : Nat) (all : Sections) : ByteArray :=
  ⟨(Text.encode (String.ofList (layOut blanks last all))).toArray⟩

section
variable {u : FileTree} (hmake : makeParent t p = (u, .ok ())) {s : Settings}
include hmake

theorem save_refused (htext : s.toToml? = none) : s.save t p = (u, .error .unwritable) := by
  unfold makeParent at hmake
  unfold save
  cases hparent : p.parent? with
  | none =>
    rw [hparent] at hmake
    cases hmake
    simp only [htext]
  | some d =>
    rw [hparent] at hmake
    simp only [hmake, htext]

theorem save_written {text : String} (htext : s.toToml? = some text) {v : FileTree}
    (hwrite : u.write p ⟨(Text.encode text).toArray⟩ = .ok v) : s.save t p = (v, .ok ()) := by
  unfold makeParent at hmake
  unfold save
  cases hparent : p.parent? with
  | none =>
    rw [hparent] at hmake
    cases hmake
    simp only [htext, hwrite]
  | some d =>
    rw [hparent] at hmake
    simp only [hmake, htext, hwrite]

end

theorem save_of_plain {s : Settings} (h : s.Plain) (hp : Writable t p) :
    ∃ u, s.save t p = (u, .ok ()) ∧ u.read p = .ok (fileOf spacing 0 s.sections) := by
  obtain ⟨u, l, n, hmake, hslash, hlocate, hleaf⟩ := hp
  obtain ⟨hwrite, hread⟩ := FileTree.write_of_leaf hslash hlocate hleaf (fileOf spacing 0 s.sections)
  exact ⟨_, save_written hmake (toToml?_eq_some_iff.2 ⟨h, rfl⟩) hwrite, hread⟩

theorem save_of_not_plain {s : Settings} (h : ¬ s.Plain) (hp : Writable t p) :
    ∃ u, s.save t p = (u, .error .unwritable) ∧ ∀ data, t.read p = .ok data → u.read p = .ok data := by
  obtain ⟨u, l, n, hmake, -⟩ := hp
  have htext : s.toToml? = none :=
    Option.eq_none_iff_forall_ne_some.2 fun text htext => h (toToml?_eq_some_iff.1 htext).1
  refine ⟨u, save_refused hmake htext, fun data hread => ?_⟩
  have hkept := read_makeParent hread p
  rwa [hmake] at hkept

/-- A file of the sections of plain settings, from which some lines may have been taken out, is loaded with the
standard values in their place. -/
theorem load_of_read {s : Settings} (h : s.Plain) (c : Cut) {blanks : String → Nat} {last : Nat}
    (hread : t.read p = .ok (fileOf blanks last (c.sections s.sections))) (workers : Nat) :
    (standard workers).load t p = .ok (cut c (standard workers) s) := by
  have hexists : t.exists? p = true := by
    obtain ⟨l, hlocate⟩ := FileTree.read_eq_ok_iff.1 hread
    rw [FileTree.exists?, FileTree.status, hlocate]
  have hparse := parse_layOut blanks last (c.readable_sections (readable_sections h))
  rw [load, hexists, if_pos rfl, hread]
  dsimp only
  rw [fileOf, toList_toArray, Text.decode?_encode]
  dsimp only
  rw [hparse, Option.bind_some, ofToml?_cut h]

/-- Plain settings that are saved where a file can be written are loaded again, and with standard values in the
place of the lines and sections that are taken out of the file; other settings are refused, and a file that is
there keeps its content. -/
theorem save_then_load (s : Settings) (hp : Writable t p) (workers : Nat) :
    (s.Plain → ∃ u, s.save t p = (u, .ok ()) ∧ u.read p = .ok (fileOf spacing 0 s.sections) ∧
      (standard workers).load u p = .ok s ∧
      ∀ (c : Cut) (blanks : String → Nat) (last : Nat) (v : FileTree) (q : Path),
        v.read q = .ok (fileOf blanks last (c.sections s.sections)) →
          (standard workers).load v q = .ok (cut c (standard workers) s)) ∧
    (¬ s.Plain → ∃ u, s.save t p = (u, .error .unwritable) ∧
      ∀ data, t.read p = .ok data → u.read p = .ok data) := by
  refine ⟨fun h => ?_, fun h => save_of_not_plain h hp⟩
  obtain ⟨u, hsave, hread⟩ := save_of_plain h hp
  have hload := load_of_read h .whole hread workers
  rw [cut_whole] at hload
  exact ⟨u, hsave, hread, hload, fun c blanks last v q hcut => load_of_read h c hcut workers⟩

/-- Settings whose texts have quotes of both kinds, line ends, backslashes and a control character. -/
def quoted : Settings where
  scan := {
    roots := [.ofString "/fonts/\"new\"", .ofString "it's here"]
    extensions := ["ttf", "'''\n\"\"\"\\", "\x01\t"]
    workers := 3
    dedup := true }
  server := { bind := "C:\\a 'b'", maxFrame := 0 }

/-- The cut that leaves one line and an empty section. -/
def onlyWorkers : Cut := ⟨fun name => name != "index", fun _ key => key == "workers"⟩

theorem save_then_load_quoted :
    Writable {} (.ofString "nested/subfont.toml") ∧ quoted.Plain ∧ ¬ (standard 0x8000000000000000).Plain ∧
      (∃ u, quoted.save {} (.ofString "nested/subfont.toml") = (u, .ok ()) ∧
        (standard 2).load u (.ofString "nested/subfont.toml") = .ok quoted) ∧
      (∃ v q, (standard 2).load v q = .ok (cut onlyWorkers (standard 2) quoted) ∧
        cut onlyWorkers (standard 2) quoted = standard 3) ∧
      ∃ u, (standard 0x8000000000000000).save {} (.ofString "nested/subfont.toml") = (u, .error .unwritable) := by
  have hp : Writable {} (.ofString "nested/subfont.toml") := ⟨_, _, _, rfl, rfl, rfl, trivial⟩
  have hplain : quoted.Plain := ⟨by decide, by decide, by decide, by decide⟩
  have hlarge : ¬ (standard 0x8000000000000000).Plain := fun h => absurd h.workers (by decide)
  obtain ⟨u, hsave, -, hload, hcut⟩ := (save_then_load quoted hp 2).1 hplain
  obtain ⟨w, hrefused, -⟩ := (save_then_load (standard 0x8000000000000000) hp 2).2 hlarge
  let v : FileTree := {
    nodes := [([Text.encode "a"], .file (fileOf (fun _ => 2) 1 (onlyWorkers.sections quoted.sections)))] }
  have hread : v.read (.ofString "a") = .ok (fileOf (fun _ => 2) 1 (onlyWorkers.sections quoted.sections)) := rfl
  exact ⟨hp, hplain, hlarge, ⟨u, hsave, hload⟩, ⟨v, .ofString "a", hcut _ _ _ v _ hread, rfl⟩, w, hrefused⟩

end FontCatalog.Settings
