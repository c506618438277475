import FontCatalog.Catalog.Listing
import FontCatalog.Proofs.Catalog.Document
import FontCatalog.Proofs.Json.Lines
import FontCatalog.Proofs.Json.ReadBack

/-! Listings are read back. No text of a face holds a new line, so that the lines of a listing are its faces; where a path
is not UTF-8 the lines end before its face, while the array is not written at all. -/
namespace FontCatalog
set_option autoImplicit false
open Json

/-! ## One face -/

theorem LocalizedName.readsBack (n : LocalizedName) : shape.ReadsBack n.toJson := by
  have hnames : (["language", "name"] : List String).Nodup := by decide
  refine Shape.readsBack_record hnames (fun m hm => ?_) rfl
  simp only [List.mem_cons, List.not_mem_nil, or_false] at hm
  rcases hm with rfl | rfl
  · exact ⟨_, rfl, Shape.string_readsBack _ n.language⟩
  · exact ⟨_, rfl, Shape.string_readsBack _ n.name⟩

theorem LocalizedName.list_readsBack (names : List LocalizedName) :
    (Shape.list shape).ReadsBack (.list (names.map toJson)) := by
  have hplain : ∀ v ∈ names.map toJson, v.Plain 1 := List.forall_mem_map.2 fun n _ => n.plain_toJson 0
  exact Shape.readsBack_list hplain (List.forall_mem_map.2 fun n _ => n.readsBack)

theorem Face.readsBack (f : Face) (s : String) : shape.ReadsBack (f.toJsonWith (.text s)) := by
  refine Shape.readsBack_record nodup_fieldNames (fun m hm => ?_) rfl
  simp only [List.mem_cons, List.not_mem_nil, or_false] at hm
  rcases hm with rfl | rfl | rfl | rfl | rfl | rfl | rfl | rfl | rfl
  · exact ⟨_, rfl, Shape.string_readsBack _ f.fullName⟩
  · exact ⟨_, rfl, Shape.string_readsBack _ f.postscriptName⟩
  · exact ⟨_, rfl, Shape.string_readsBack _ f.win32Family⟩
  · exact ⟨_, rfl, LocalizedName.list_readsBack f.typographicFamilies⟩
  · exact ⟨_, rfl, Shape.string_readsBack _ s⟩
  · exact ⟨_, rfl, Shape.word_readsBack (by decide) f.index.toNat_lt⟩
  · exact ⟨_, rfl, Shape.word_readsBack (by decide) f.weight.toNat_lt⟩
  · exact ⟨_, rfl, Shape.boolean_readsBack f.italic⟩
  · exact ⟨_, rfl, Shape.boolean_readsBack f.psOutline⟩

namespace Catalog

variable {faces : List Face} {vs : List Json}

/-! ## Lines -/

theorem encode_join (lines : List String) : Text.encode (String.join lines) = lines.flatMap Text.encode := by
  induction lines with
  | nil => rfl
  | cons line lines ih =>
    rw [String.join_cons, Text.encode_append, ih, List.flatMap_cons]

/-- Faces with a text are written first, whatever comes after them. -/
theorem lineListing_append (h : Written faces vs) (rest : List Face) :
    lineListing (faces ++ rest) = (vs.map (fun v => v.render ++ "\n") ++ (lineListing rest).1, (lineListing rest).2) := by
  induction h with
  | nil => rfl
  | cons hpath hrest ih =>
    rw [List.cons_append, lineListing, Face.toJson?, Path.toJson?, hpath]
    dsimp only [Option.map_some]
    rw [ih]
    rfl

theorem lineListing_eq (h : Written faces vs) : lineListing faces = (vs.map fun v => v.render ++ "\n", true) := by
  have happend := lineListing_append h []
  rwa [List.append_nil, lineListing, List.append_nil] at happend

theorem encode_lineListing (h : Written faces vs) :
    Text.encode (String.join (lineListing faces).1) = (vs.map (Text.encode ·.render)).flatMap (· ++ [byte '\n']) := by
  rw [lineListing_eq h, encode_join, List.flatMap_map, List.flatMap_map]
  exact List.flatMap_congr fun v _ => Text.encode_append v.render "\n"

theorem readLine_render {f : Face} {s : String} (h : f.path.text? = some s) :
    readLine (Text.encode (f.toJsonWith (.text s)).render) = .ok f := by
  have hparse := (f.readsBack s).parse compact 0 (List.forall_mem_nil _)
  rw [List.append_nil] at hparse
  rw [readLine, encode_render, hparse, Except.map, Face.ofJson_toJsonWith h]

theorem Written.lines (h : Written faces vs) :
    List.Forall₂ (fun line f => byte '\n' ∉ line ∧ readLine line = .ok f) (vs.map (Text.encode ·.render)) faces := by
  induction h with
  | nil => exact .nil
  | cons hpath hrest ih => exact .cons ⟨newline_notMem_render _, readLine_render hpath⟩ ih

theorem count_newlines {lines : List Bytes} (h : ∀ line ∈ lines, byte '\n' ∉ line) :
    (lines.flatMap (· ++ [byte '\n'])).count (byte '\n') = lines.length := by
  induction lines with
  | nil => rfl
  | cons line lines ih =>
    rw [List.flatMap_cons, List.count_append, List.count_append,
      List.count_eq_zero_of_not_mem (h line List.mem_cons_self), ih fun l hl => h l (List.mem_cons_of_mem line hl),
      List.count_singleton_self, List.length_cons]
    omega

/-! ## Arrays -/

theorem Written.map_ofJson (h : Written faces vs) : vs.map Face.ofJson = faces := by
  induction h with
  | nil => rfl
  | cons hpath hrest ih => rw [List.map_cons, Face.ofJson_toJsonWith hpath, ih]

theorem Written.readsBack (h : Written faces vs) : ∀ v ∈ vs, Face.shape.ReadsBack v := by
  induction h with
  | nil => exact List.forall_mem_nil _
  | cons hpath hrest ih => exact List.forall_mem_cons.2 ⟨Face.readsBack _ _, ih⟩

theorem Written.readListing (h : Written faces vs) :
    Catalog.readListing (Text.encode ((Json.list vs).renderPretty ++ "\n")) = .ok faces := by
  have hbytes : Text.encode ((Json.list vs).renderPretty ++ "\n") = (Json.list vs).spell indented 0 ++ [byte '\n'] := by
    rw [Text.encode_append, encode_renderPretty]
    rfl
  have hparse := (Shape.readsBack_list (h.plain 0) h.readsBack).parse indented 0
    (List.forall_mem_singleton.2 (show isSpace (byte '\n') = true by decide))
  rw [Catalog.readListing, hbytes, hparse]
  exact congrArg Except.ok h.map_ofJson

theorem written_of_textual (h : Textual faces) : ∃ vs, facesToJson? faces = some vs ∧ Written faces vs := by
  obtain ⟨vs, hvs⟩ := Option.isSome_iff_exists.1 ((facesToJson?_isSome faces).2 h)
  exact ⟨vs, hvs, written_of_facesToJson? hvs⟩

/-- Listings of faces with texts for paths are read back, line by line and as an array; the first face without one ends
the lines and leaves no array. -/
theorem listings_read_back (faces : List Face) :
    (Textual faces →
      (∃ lines : List Bytes, (lineListing faces).2 = true ∧
        Text.encode (String.join (lineListing faces).1) = lines.flatMap (· ++ [byte '\n']) ∧
        List.Forall₂ (fun line f => byte '\n' ∉ line ∧ readLine line = .ok f) lines faces ∧
        (Text.encode (String.join (lineListing faces).1)).count (byte '\n') = faces.length) ∧
      ∃ text, prettyListing? faces = some text ∧ readListing (Text.encode text) = .ok faces) ∧
    ∀ before f after, faces = before ++ f :: after → Textual before → f.path.text? = none →
      lineListing faces = ((lineListing before).1, false) ∧ prettyListing? faces = none := by
  constructor
  · intro h
    obtain ⟨vs, hvs, hwritten⟩ := written_of_textual h
    refine ⟨⟨vs.map (Text.encode ·.render), ?_, ?_, ?_, ?_⟩, ?_⟩
    · rw [lineListing_eq hwritten]
    · exact encode_lineListing hwritten
    · exact hwritten.lines
    · rw [encode_lineListing hwritten, count_newlines, hwritten.lines.length_eq]
      exact List.forall_mem_map.2 fun v _ => newline_notMem_render v
    · exact ⟨_, congrArg (Option.map _) hvs, hwritten.readListing⟩
  · rintro before f after rfl hbefore hpath
    obtain ⟨vs, -, hwritten⟩ := written_of_textual hbefore
    have hf : f.toJson? = none := by rw [Face.toJson?, Path.toJson?, hpath]; rfl
    constructor
    · rw [lineListing_append hwritten, lineListing_eq hwritten, lineListing, hf]
      simp
    · have hnone : facesToJson? (before ++ f :: after) = none := by
        rw [← Option.not_isSome_iff_eq_none, facesToJson?_isSome]
        intro htextual
        have hsome := htextual f (List.mem_append_right before List.mem_cons_self)
        rw [hpath] at hsome
        cases hsome
      rw [prettyListing?, hnone, Option.map_none]

/-- A face with names that must be escaped. -/
def strangeFace : Face :=
  { fullName := "A\n\"b\"\x01", win32Family := "𝔸\r\n", path := .ofString "/f/é.ttf", index := 7 }

def namelessFace : Face := { path := ⟨[0x2F, 0xFF]⟩, index := 0 }

theorem listings_read_back_strange :
    (Text.encode (String.join (lineListing [strangeFace, strangeFace]).1)).count (byte '\n') = 2 ∧
      (∃ text, prettyListing? [strangeFace, strangeFace] = some text ∧
        readListing (Text.encode text) = .ok [strangeFace, strangeFace]) ∧
      lineListing [strangeFace, namelessFace, strangeFace] = ((lineListing [strangeFace]).1, false) := by
  obtain ⟨⟨lines, -, -, -, hcount⟩, hpretty⟩ := (listings_read_back [strangeFace, strangeFace]).1 (by
    unfold Textual
    decide)
  have hcut := (listings_read_back [strangeFace, namelessFace, strangeFace]).2 [strangeFace] namelessFace [strangeFace] rfl
    (by unfold Textual; decide) (by decide)
  exact ⟨hcount, hpretty, hcut.1⟩

end Catalog

end FontCatalog
