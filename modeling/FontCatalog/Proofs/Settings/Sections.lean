import FontCatalog.Proofs.Catalog.Files
import FontCatalog.Proofs.Toml.Documents
import FontCatalog.Settings.Document

/-! The sections in which settings are written, and what is read when some of the lines, or whole sections, are
left out. -/
namespace FontCatalog
set_option autoImplicit false

namespace Toml
variable {α β : Type}

/-! ## Lookups -/

theorem lookup_filter (keep : String → Bool) (name : String) (es : List (String × α)) :
    lookup name (es.filter fun e => keep e.1) = if keep name then lookup name es else none := by
  induction es with
  | nil => cases keep name <;> rfl
  | cons e es ih =>
    obtain ⟨k, v⟩ := e
    by_cases hk : k = name
    · subst hk
      cases hkeep : keep k
      · rw [List.filter_cons_of_neg (by simp [hkeep]), ih, hkeep]
        rfl
      · rw [List.filter_cons_of_pos (by simp [hkeep]), lookup, lookup, if_pos rfl, if_pos rfl, if_pos rfl]
    · cases hkeep : keep k
      · rw [List.filter_cons_of_neg (by simp [hkeep]), ih, lookup, if_neg hk]
      · rw [List.filter_cons_of_pos (by simp [hkeep]), lookup, lookup, if_neg hk, if_neg hk, ih]

theorem lookup_map (f : String → α → β) (name : String) (es : List (String × α)) :
    lookup name (es.map fun (k, v) => (k, f k v)) = (lookup name es).map (f name) := by
  induction es with
  | nil => rfl
  | cons e es ih =>
    obtain ⟨k, v⟩ := e
    rw [List.map_cons, lookup, lookup]
    split
    · next hk =>
      subst hk
      rfl
    · exact ih

/-! ## Cuts -/

/-- What is left of a document: the sections that are kept, and the lines that are kept of each. -/
structure Cut where
  keepsSection : String → Bool
  keepsLine : String → String → Bool

namespace Cut

/-- Whether a line is still there. -/
def has (c : Cut) (name key : String) : Bool := c.keepsSection name && c.keepsLine name key

def lines (c : Cut) (name : String) (lines : List (String × Written)) : List (String × Written) :=
  lines.filter fun l => c.keepsLine name l.1

def sections (c : Cut) (all : Sections) : Sections :=
  (all.filter fun s => c.keepsSection s.1).map fun (name, lines) => (name, c.lines name lines)

/-- The cut that leaves out nothing. -/
def whole : Cut := ⟨fun _ => true, fun _ _ => true⟩

theorem mem_sections {c : Cut} {all : Sections} {s : String × List (String × Written)} (h : s ∈ c.sections all) :
    ∃ lines, (s.1, lines) ∈ all ∧ s.2 = c.lines s.1 lines := by
  obtain ⟨⟨name, lines⟩, hmem, rfl⟩ := List.mem_map.1 h
  exact ⟨lines, List.mem_of_mem_filter hmem, rfl⟩

theorem readable_sections (c : Cut) {all : Sections} (h : Readable all) : Readable (c.sections all) where
  names s hs := by
    obtain ⟨lines, hmem, -⟩ := mem_sections hs
    exact h.names (_, lines) hmem
  distinct := by
    have hnames : (c.sections all).map (·.1) = (all.filter fun s => c.keepsSection s.1).map (·.1) := by
      rw [sections, List.map_map]
      rfl
    rw [hnames]
    exact h.distinct.sublist (List.filter_sublist.map _)
  keys s hs l hl := by
    obtain ⟨lines, hmem, hlines⟩ := mem_sections hs
    exact h.keys (_, lines) hmem l (List.mem_of_mem_filter (hlines ▸ hl))
  keysDistinct s hs := by
    obtain ⟨lines, hmem, hlines⟩ := mem_sections hs
    rw [hlines]
    exact (h.keysDistinct (_, lines) hmem).sublist (List.filter_sublist.map _)
  fit s hs l hl := by
    obtain ⟨lines, hmem, hlines⟩ := mem_sections hs
    exact h.fit (_, lines) hmem l (List.mem_of_mem_filter (hlines ▸ hl))

end Cut

end Toml

namespace Settings
open Toml

/-! ## Sections of settings -/

/-- Paths as texts. -/
def spellings (paths : List Path) : List String := paths.map fun p => p.text?.getD ""

def scanLines (s : ScanSettings) : List (String × Written) := [
  ("roots", .texts (spellings s.roots)),
  ("extensions", .texts s.extensions),
  ("workers", .number s.workers),
  ("follow_symlinks", .boolean s.followLinks),
  ("dedup", .boolean s.dedup),
  ("precount", .boolean s.precount)]

def catalogLines (s : CatalogSettings) : List (String × Written) := [("paths", .texts (spellings s.paths))]

def serverLines (s : ServerSettings) : List (String × Written) :=
  [("bind", .text s.bind), ("max_frame_len", .number s.maxFrame)]

def sections (s : Settings) : Sections :=
  [("scan", scanLines s.scan), ("index", catalogLines s.catalog), ("server", serverLines s.server)]

/-- Whether all paths are UTF-8 and the numbers are at most the greatest integer of 64 bits with a sign. -/
structure Plain (s : Settings) : Prop where
  roots : ∀ p ∈ s.scan.roots, p.text?.isSome
  paths : ∀ p ∈ s.catalog.paths, p.text?.isSome
  workers : s.scan.workers ≤ 0x7FFFFFFFFFFFFFFF
  maxFrame : s.server.maxFrame ≤ 0x7FFFFFFFFFFFFFFF

/-- A section in front of which no empty line stands is the first one. -/
def spacing (name : String) : Nat := if name = "scan" then 0 else 1

/-- The settings of which some lines are left out. -/
def cut (c : Cut) (absent s : Settings) : Settings where
  scan := {
    roots := if c.has "scan" "roots" then s.scan.roots else absent.scan.roots
    extensions := if c.has "scan" "extensions" then s.scan.extensions else absent.scan.extensions
    workers := if c.has "scan" "workers" then s.scan.workers else absent.scan.workers
    followLinks := if c.has "scan" "follow_symlinks" then s.scan.followLinks else absent.scan.followLinks
    dedup := if c.has "scan" "dedup" then s.scan.dedup else absent.scan.dedup
    precount := if c.has "scan" "precount" then s.scan.precount else absent.scan.precount }
  catalog := { paths := if c.has "index" "paths" then s.catalog.paths else absent.catalog.paths }
  server := {
    bind := if c.has "server" "bind" then s.server.bind else absent.server.bind
    maxFrame := if c.has "server" "max_frame_len" then s.server.maxFrame else absent.server.maxFrame }

theorem cut_whole (absent s : Settings) : cut .whole absent s = s := rfl

/-! ## Writing -/

theorem pathTexts?_eq_some_iff {paths : List Path} {texts : List String} :
    pathTexts? paths = some texts ↔ (∀ p ∈ paths, p.text?.isSome) ∧ texts = spellings paths := by
  induction paths generalizing texts with
  | nil =>
    refine Option.some_inj.trans ⟨fun h => ⟨List.forall_mem_nil _, h.symm⟩, fun h => h.2.symm⟩
  | cons p paths ih =>
    have hcons : pathTexts? (p :: paths) = p.text?.bind fun text => (pathTexts? paths).map (text :: ·) := by
      simp only [pathTexts?, List.mapM_cons, Option.bind_eq_bind, Option.pure_def, Option.map_eq_bind]
      rfl
    rw [hcons, List.forall_mem_cons]
    cases htext : p.text? with
    | none => exact iff_of_false nofun fun h => Bool.false_ne_true h.1.1
    | some text =>
      have hspelled : spellings (p :: paths) = text :: spellings paths := by
        rw [spellings, List.map_cons, htext, Option.getD_some, spellings]
      rw [hspelled, Option.bind_some, Option.map_eq_some_iff]
      constructor
      · rintro ⟨rest, hrest, rfl⟩
        obtain ⟨hall, rfl⟩ := ih.1 hrest
        exact ⟨⟨rfl, hall⟩, rfl⟩
      · rintro ⟨⟨-, hall⟩, rfl⟩
        exact ⟨_, ih.2 ⟨hall, rfl⟩, rfl⟩

theorem map_spellings {paths : List Path} (h : ∀ p ∈ paths, p.text?.isSome) :
    (spellings paths).map .ofString = paths := by
  have hback (p : Path) (hp : p ∈ paths) : Path.ofString (p.text?.getD "") = p := by
    obtain ⟨text, htext⟩ := Option.isSome_iff_exists.1 (h p hp)
    rw [htext, Option.getD_some, Path.ofString, Text.encode_of_decode? htext]
  rw [spellings, List.map_map]
  exact (List.map_congr_left hback).trans (List.map_id _)

theorem writeNat?_eq_some_iff {n : Nat} {text : String} :
    writeNat? n = some text ↔ n ≤ 0x7FFFFFFFFFFFFFFF ∧ text = toString n := by
  rw [writeNat?, maxInteger]
  split
  · next h => simp [eq_comm]; omega
  · next h => simp; omega

theorem readable_sections {s : Settings} (h : s.Plain) : Readable s.sections := by
  refine readable_of_names [
    ("scan", ["roots", "extensions", "workers", "follow_symlinks", "dedup", "precount"]),
    ("index", ["paths"]),
    ("server", ["bind", "max_frame_len"])] rfl (by decide) (by decide) ?_
  have hworkers : (s.scan.workers : Int) ≤ maxInteger := Int.ofNat_le.2 h.workers
  have hmax : (s.server.maxFrame : Int) ≤ maxInteger := Int.ofNat_le.2 h.maxFrame
  simp only [sections, scanLines, catalogLines, serverLines, List.forall_mem_cons, List.not_mem_nil,
    false_imp_iff, implies_true, and_true]
  exact ⟨⟨trivial, trivial, hworkers, trivial, trivial, trivial⟩, trivial, trivial, hmax⟩

/-- The text of sections with an empty line between them. -/
theorem writeSections_toList (s : Settings) :
    String.intercalate "\n" (s.sections.map fun (name, lines) =>
      writeSection name (lines.map fun (k, w) => (k, w.render))) =
      String.ofList (layOut spacing 0 s.sections) := by
  rw [← String.toList_inj, String.toList_intercalate, String.toList_ofList]
  simp [sections, scanLines, catalogLines, serverLines, layOut, spacing]

/-- Settings are written if they are plain, and only then. -/
theorem toToml?_eq_some_iff {s : Settings} {text : String} :
    s.toToml? = some text ↔ s.Plain ∧ text = String.ofList (layOut spacing 0 s.sections) := by
  simp only [toToml?, Option.bind_eq_bind, Option.bind_eq_some_iff, pathTexts?_eq_some_iff, writeNat?_eq_some_iff,
    Option.pure_def, Option.some.injEq]
  rw [← writeSections_toList]
  constructor
  · rintro ⟨roots, ⟨hroots, rfl⟩, workers, ⟨hworkers, rfl⟩, paths, ⟨hpaths, rfl⟩, maxFrame, ⟨hmax, rfl⟩, rfl⟩
    exact ⟨⟨hroots, hpaths, hworkers, hmax⟩, rfl⟩
  · rintro ⟨h, rfl⟩
    exact ⟨_, ⟨h.roots, rfl⟩, _, ⟨h.workers, rfl⟩, _, ⟨h.paths, rfl⟩, _, ⟨h.maxFrame, rfl⟩, rfl⟩

/-! ## Reading -/

section
variable {α : Type} {name : String} {f : Value → Option α} {x : α}

theorem readMember_lines {lines : List (String × Written)} {w : Written} (hw : lookup name lines = some w)
    (hf : f w.value = some x) (c : Cut) (header : String) (place : Nat) (absent : α) :
    readMember (.table (lineValues (c.lines header lines))) name place f absent =
      some (if c.keepsLine header name then x else absent) := by
  have hlookup := lookup_map (fun _ w => Written.value w) name (c.lines header lines)
  rw [Cut.lines, lookup_filter, hw] at hlookup
  rw [readMember, member?, lineValues, Cut.lines, hlookup]
  cases c.keepsLine header name
  · rfl
  · exact hf

theorem readMember_sections {all : Sections} {lines : List (String × Written)}
    (hlines : lookup name all = some lines) (c : Cut)
    (hf : f (.table (lineValues (c.lines name lines))) = some x) (place : Nat) (absent : α) :
    readMember (sectionsValue (c.sections all)) name place f absent =
      some (if c.keepsSection name then x else absent) := by
  have hvalues := lookup_map (fun _ lines => Value.table (lineValues lines)) name (c.sections all)
  have hcut := lookup_map c.lines name (all.filter fun s => c.keepsSection s.1)
  rw [lookup_filter, hlines] at hcut
  rw [Cut.sections, hcut] at hvalues
  rw [readMember, sectionsValue, member?, Cut.sections, hvalues]
  cases c.keepsSection name
  · rfl
  · exact hf

end

theorem toTexts?_texts (ss : List String) : toTexts? (Written.texts ss).value = some ss := by
  rw [Written.value, toTexts?]
  induction ss with
  | nil => rfl
  | cons s ss ih => rw [List.map_cons, List.mapM_cons, ih]; rfl

theorem toPaths?_texts {paths : List Path} (h : ∀ p ∈ paths, p.text?.isSome) :
    toPaths? (Written.texts (spellings paths)).value = some paths := by
  rw [toPaths?, toTexts?_texts, Option.map_some, map_spellings h]

theorem toNat?_number (n : Nat) : toNat? (Written.number n).value = some n := by
  rw [Written.value, toNat?, if_pos (Int.natCast_nonneg n), Int.toNat_natCast]

theorem toBoolean?_boolean (b : Bool) : toBoolean? (Written.boolean b).value = some b := rfl

theorem toText?_text (s : String) : toText? (Written.text s).value = some s := rfl

section
variable (c : Cut)

theorem readScan_cut {s : ScanSettings} (h : ∀ p ∈ s.roots, p.text?.isSome) (absent : ScanSettings) :
    readScan absent (.table (lineValues (c.lines "scan" (scanLines s)))) = some {
      roots := if c.keepsLine "scan" "roots" then s.roots else absent.roots
      extensions := if c.keepsLine "scan" "extensions" then s.extensions else absent.extensions
      workers := if c.keepsLine "scan" "workers" then s.workers else absent.workers
      followLinks := if c.keepsLine "scan" "follow_symlinks" then s.followLinks else absent.followLinks
      dedup := if c.keepsLine "scan" "dedup" then s.dedup else absent.dedup
      precount := if c.keepsLine "scan" "precount" then s.precount else absent.precount } := by
  unfold readScan
  rw [readMember_lines rfl (toPaths?_texts h), readMember_lines rfl (toTexts?_texts _),
    readMember_lines rfl (toNat?_number _), readMember_lines rfl (toBoolean?_boolean _),
    readMember_lines rfl (toBoolean?_boolean _), readMember_lines rfl (toBoolean?_boolean _)]
  rfl

theorem readCatalog_cut {s : CatalogSettings} (h : ∀ p ∈ s.paths, p.text?.isSome) :
    readCatalog (.table (lineValues (c.lines "index" (catalogLines s)))) =
      some { paths := if c.keepsLine "index" "paths" then s.paths else [] } := by
  unfold readCatalog
  rw [readMember_lines rfl (toPaths?_texts h)]
  rfl

theorem readServer_cut (s : ServerSettings) :
    readServer (.table (lineValues (c.lines "server" (serverLines s)))) = some {
      bind := if c.keepsLine "server" "bind" then s.bind else defaultBind
      maxFrame := if c.keepsLine "server" "max_frame_len" then s.maxFrame else Wire.defaultMaxFrame } := by
  unfold readServer
  rw [readMember_lines rfl (toText?_text _), readMember_lines rfl (toNat?_number _)]
  rfl

end

/-- What is left out of a document has its standard value, and what is there is read back. -/
theorem ofToml?_cut {s : Settings} (h : s.Plain) (c : Cut) (workers : Nat) :
    (standard workers).ofToml? (sectionsValue (c.sections s.sections)) = some (cut c (standard workers) s) := by
  have hscan := readScan_cut c h.roots (standard workers).scan
  have hcatalog := readCatalog_cut c h.paths
  have hserver := readServer_cut c s.server
  unfold ofToml?
  rw [readMember_sections rfl c hscan, readMember_sections rfl c hcatalog, readMember_sections rfl c hserver]
  unfold cut Cut.has
  cases c.keepsSection "scan" <;> cases c.keepsSection "index" <;> cases c.keepsSection "server" <;> rfl

end Settings

end FontCatalog
