import FontCatalog.Catalog.Files
import FontCatalog.Proofs.Catalog.Document
import Mathlib.Data.List.Forall2

/-! Loading is all or nothing: a document is a catalog if every entry is a face, and then no entry is lost; the
first thing that is wrong decides the error. -/
namespace FontCatalog.Catalog
set_option autoImplicit false
open Json

/-! ## The first error counts -/

section
variable {α β ε : Type} {f : α → Except ε β}

theorem mapM_eq_ok_iff {xs : List α} {ys : List β} :
    xs.mapM f = .ok ys ↔ List.Forall₂ (fun x y => f x = .ok y) xs ys := by
  constructor
  · intro h
    induction xs generalizing ys with
    | nil =>
      cases h
      exact .nil
    | cons x xs ih =>
      rw [List.mapM_cons] at h
      cases hx : f x with
      | error e =>
        rw [hx] at h
        cases h
      | ok y =>
        cases hxs : xs.mapM f with
        | error e =>
          rw [hx, hxs] at h
          cases h
        | ok zs =>
          rw [hx, hxs] at h
          cases h
          exact .cons hx (ih hxs)
  · intro h
    induction h with
    | nil => rfl
    | cons hx _ ih =>
      rw [List.mapM_cons, hx, ih]
      rfl

theorem mapM_eq_error_iff {xs : List α} {e : ε} :
    xs.mapM f = .error e ↔
      ∃ before x after, xs = before ++ x :: after ∧ (∀ w ∈ before, ∃ y, f w = .ok y) ∧ f x = .error e := by
  induction xs with
  | nil => simp [pure, Except.pure]
  | cons x xs ih =>
    rw [List.mapM_cons]
    cases hx : f x with
    | error e' =>
      constructor
      · intro h
        cases h
        exact ⟨[], x, xs, rfl, List.forall_mem_nil _, hx⟩
      · rintro ⟨_ | ⟨first, before⟩, y, after, hsplit, hbefore, hy⟩ <;> cases hsplit
        · rw [hx] at hy
          cases hy
          rfl
        · obtain ⟨z, hz⟩ := hbefore x List.mem_cons_self
          rw [hx] at hz
          cases hz
    | ok y =>
      have hrest : (do let ys ← xs.mapM f; pure (y :: ys)) = .error e ↔ xs.mapM f = .error e := by
        cases xs.mapM f <;> simp [bind, Except.bind, pure, Except.pure]
      refine hrest.trans (ih.trans ⟨?_, ?_⟩)
      · rintro ⟨before, z, after, rfl, hbefore, hz⟩
        exact ⟨x :: before, z, after, rfl, List.forall_mem_cons.2 ⟨⟨y, hx⟩, hbefore⟩, hz⟩
      · rintro ⟨_ | ⟨first, before⟩, z, after, hsplit, hbefore, hz⟩ <;> cases hsplit
        · rw [hx] at hz
          cases hz
        · exact ⟨before, z, after, rfl, (List.forall_mem_cons.1 hbefore).2, hz⟩

end

/-! ## Entries -/

/-- An entry is a face: an object with the members that every face has, of which the face is read. -/
def Describes (v : Json) (f : Face) : Prop :=
  ∃ members, v = .object members ∧ (∀ name ∈ requiredFields, (lookup name members).isSome = true) ∧
    Face.decode v = .ok f

/-- What is wrong with an entry. -/
inductive Misdescribes (entry : Nat) (v : Json) : LoadError → Prop
  | notObject (h : ∀ members, v ≠ .object members) : Misdescribes entry v (.notObject entry)
  | missingField {members : List (String × Json)} {before after : List String} {name : String}
      (hv : v = .object members) (hfields : requiredFields = before ++ name :: after)
      (hbefore : ∀ n ∈ before, (lookup n members).isSome = true) (hname : lookup name members = none) :
      Misdescribes entry v (.missingField entry name)
  | malformed {members : List (String × Json)} {m : Mismatch} (hv : v = .object members)
      (hfields : ∀ name ∈ requiredFields, (lookup name members).isSome = true) (hm : Face.decode v = .error m) :
      Misdescribes entry v (.malformed entry m)

theorem find?_requiredFields_eq_none {members : List (String × Json)} :
    (requiredFields.find? fun name => (lookup name members).isNone) = none ↔
      ∀ name ∈ requiredFields, (lookup name members).isSome = true := by
  rw [List.find?_eq_none]
  refine forall₂_congr fun name _ => ?_
  rw [Option.isNone_iff_eq_none, Option.isSome_iff_ne_none]

theorem decodeEntry_eq_ok_iff {entry : Nat} {v : Json} {f : Face} :
    decodeEntry entry v = .ok f ↔ Describes v f := by
  constructor
  · intro h
    unfold decodeEntry at h
    split at h
    · next members =>
      split at h
      · cases h
      · next hall =>
        split at h
        · cases h
        · next g hg =>
          cases h
          exact ⟨members, rfl, find?_requiredFields_eq_none.1 hall, hg⟩
    · cases h
  · rintro ⟨members, rfl, hall, hf⟩
    rw [decodeEntry, find?_requiredFields_eq_none.2 hall]
    dsimp only
    rw [hf]

theorem decodeEntry_eq_error_iff {entry : Nat} {v : Json} {e : LoadError} :
    decodeEntry entry v = .error e ↔ Misdescribes entry v e := by
  constructor
  · intro h
    unfold decodeEntry at h
    split at h
    · next members =>
      split at h
      · next name hmissing =>
        cases h
        obtain ⟨hname, before, after, hfields, hbefore⟩ := List.find?_eq_some_iff_append.1 hmissing
        refine .missingField rfl hfields (fun n hn => ?_) (Option.isNone_iff_eq_none.1 hname)
        simpa using hbefore n hn
      · next hall =>
        split at h
        · next m hm =>
          cases h
          exact .malformed rfl (find?_requiredFields_eq_none.1 hall) hm
        · cases h
    · next hnot =>
      cases h
      exact .notObject hnot
  · intro h
    cases h with
    | notObject hnot =>
      cases v with
      | object members => exact absurd rfl (hnot members)
      | _ => rfl
    | @missingField members before after name hv hfields hbefore hname =>
      have hmissing : (requiredFields.find? fun n => (lookup n members).isNone) = some name := by
        refine List.find?_eq_some_iff_append.2 ⟨Option.isNone_iff_eq_none.2 hname, before, after, hfields, ?_⟩
        intro n hn
        simpa using hbefore n hn
      rw [hv, decodeEntry, hmissing]
    | malformed hv hall hm =>
      subst hv
      rw [decodeEntry, find?_requiredFields_eq_none.2 hall]
      dsimp only
      rw [hm]

/-- The six members that an entry must have. -/
theorem describes_iff {v : Json} {f : Face} :
    Describes v f ↔ ∃ members, v = .object members ∧ (lookup "full_name" members).isSome = true ∧
      (lookup "postscript_name" members).isSome = true ∧ (lookup "win32_family_name" members).isSome = true ∧
      (lookup "typographic_family_names" members).isSome = true ∧
      (lookup "source_file_path" members).isSome = true ∧ (lookup "face_index" members).isSome = true ∧
      Face.decode v = .ok f := by
  simp only [Describes, requiredFields, List.forall_mem_cons, List.not_mem_nil, false_implies, implies_true,
    and_true, and_assoc]

/-- The order in which they are missed. -/
theorem misdescribes_missingField_iff {entry : Nat} {members : List (String × Json)} {name : String} :
    Misdescribes entry (.object members) (.missingField entry name) ↔
      ["full_name", "postscript_name", "win32_family_name", "typographic_family_names", "source_file_path",
        "face_index"].find? (fun n => (lookup n members).isNone) = some name := by
  rw [← decodeEntry_eq_error_iff, decodeEntry, ← requiredFields]
  cases requiredFields.find? fun n => (lookup n members).isNone with
  | some first => simp
  | none => cases Face.decode (.object members) <;> simp

theorem decodeEntries_eq_mapM (entry : Nat) (vs : List Json) :
    decodeEntries entry vs = (vs.zipIdx entry).mapM fun m => decodeEntry m.2 m.1 := by
  induction vs generalizing entry with
  | nil => rfl
  | cons v vs ih =>
    rw [decodeEntries, List.zipIdx_cons, List.mapM_cons, ← ih]
    cases decodeEntry entry v with
    | error e => rfl
    | ok f => cases decodeEntries (entry + 1) vs <;> rfl

theorem decodeEntries_eq_ok_iff {entry : Nat} {vs : List Json} {faces : List Face} :
    decodeEntries entry vs = .ok faces ↔ List.Forall₂ Describes vs faces := by
  rw [decodeEntries_eq_mapM, mapM_eq_ok_iff]
  simp only [decodeEntry_eq_ok_iff]
  rw [← List.forall₂_map_left_iff (f := Prod.fst), List.zipIdx_map_fst]

theorem decodeEntries_eq_error_iff {entry : Nat} {vs : List Json} {e : LoadError} :
    decodeEntries entry vs = .error e ↔
      ∃ before v after, vs = before ++ v :: after ∧ (∀ w ∈ before, ∃ f, Describes w f) ∧
        Misdescribes (entry + before.length) v e := by
  rw [decodeEntries_eq_mapM, mapM_eq_error_iff]
  simp only [decodeEntry_eq_ok_iff, decodeEntry_eq_error_iff]
  constructor
  · rintro ⟨numbered, ⟨v, i⟩, rest, hsplit, hbefore, hv⟩
    obtain ⟨before, vs', rfl, rfl, hrest⟩ := List.zipIdx_eq_append_iff.1 hsplit
    obtain ⟨w, after, rfl, hvi, rfl⟩ := List.zipIdx_eq_cons_iff.1 hrest.symm
    cases hvi
    refine ⟨before, v, after, rfl, fun w hw => ?_, hv⟩
    rw [← List.zipIdx_map_fst entry before] at hw
    obtain ⟨m, hm, rfl⟩ := List.mem_map.1 hw
    exact hbefore m hm
  · rintro ⟨before, v, after, rfl, hbefore, hv⟩
    refine ⟨before.zipIdx entry, (v, entry + before.length), after.zipIdx (entry + before.length + 1), ?_,
      fun m hm => ?_, hv⟩
    · rw [List.zipIdx_append, List.zipIdx_cons]
    · exact hbefore m.1 (List.fst_mem_of_mem_zipIdx hm)

/-! ## Documents -/

/-- A document of this format, or one that does not say of which it is. -/
def Current (doc : Json) : Prop := doc.get? "version" = none ∨ doc.get? "version" = some (.nat formatVersion)

/-- A text is a document with these entries. -/
def IsDocument (bs : Bytes) (entries : List Json) : Prop :=
  ∃ members, parseKeyed bs = .ok (.object members) ∧ Current (.object members) ∧
    lookup "faces" members = some (.list entries)

/-- What is wrong with a text, where several things are the first of them. -/
inductive Refused (bs : Bytes) : LoadError → Prop
  | text {fault : Fault} (h : parseKeyed bs = .error fault) : Refused bs (.text fault)
  | version {doc v : Json} (hdoc : parseKeyed bs = .ok doc) (hv : doc.get? "version" = some v)
      (hother : v ≠ .nat formatVersion) : Refused bs (.unsupportedVersion (statedVersion v))
  | faces {doc : Json} (hdoc : parseKeyed bs = .ok doc) (hcurrent : Current doc)
      (hfaces : ∀ entries, doc.get? "faces" ≠ some (.list entries)) : Refused bs .missingFaces
  | entry {before after : List Json} {v : Json} {e : LoadError}
      (hdoc : IsDocument bs (before ++ v :: after)) (hbefore : ∀ w ∈ before, ∃ f, Describes w f)
      (hv : Misdescribes before.length v e) : Refused bs e

theorem statedVersion_eq_iff {v : Json} : statedVersion v = formatVersion ↔ v = .nat formatVersion := by
  constructor
  · intro h
    unfold statedVersion at h
    split at h
    · next i =>
      have hi : i = 1 := by
        change i.toNat = 1 at h
        omega
      rw [hi]
      rfl
    · cases h
  · rintro rfl
    rfl

theorem decodeDocument_other {doc v : Json} (hv : doc.get? "version" = some v) (hother : v ≠ .nat formatVersion) :
    decodeDocument doc = .error (.unsupportedVersion (statedVersion v)) := by
  rw [decodeDocument, hv]
  exact if_neg (mt statedVersion_eq_iff.1 hother)

theorem decodeDocument_entries {doc : Json} {entries : List Json} (h : Current doc)
    (hfaces : doc.get? "faces" = some (.list entries)) : decodeDocument doc = decodeEntries 0 entries := by
  rcases h with hnone | hversion
  · simp only [decodeDocument, hnone, hfaces]
  · simp only [decodeDocument, hversion, hfaces, statedVersion_eq_iff, if_true]

theorem decodeDocument_noFaces {doc : Json} (h : Current doc)
    (hfaces : ∀ entries, doc.get? "faces" ≠ some (.list entries)) : decodeDocument doc = .error .missingFaces := by
  rcases h with hnone | hversion
  · simp only [decodeDocument, hnone]
  · simp only [decodeDocument, hversion, statedVersion_eq_iff, if_true]

theorem deserialize_document {bs : Bytes} {entries : List Json} (h : IsDocument bs entries) :
    deserialize bs = (decodeEntries 0 entries).map build := by
  obtain ⟨members, hparse, hcurrent, hfaces⟩ := h
  rw [deserialize, hparse]
  dsimp only
  rw [decodeDocument_entries hcurrent hfaces]

theorem Refused.deserialize {bs : Bytes} {e : LoadError} (h : Refused bs e) : deserialize bs = .error e := by
  cases h with
  | text h => rw [Catalog.deserialize, h]
  | version hdoc hv hother =>
    rw [Catalog.deserialize, hdoc]
    dsimp only
    rw [decodeDocument_other hv hother]
    rfl
  | faces hdoc hcurrent hfaces =>
    rw [Catalog.deserialize, hdoc]
    dsimp only
    rw [decodeDocument_noFaces hcurrent hfaces]
    rfl
  | @entry before after v e hdoc hbefore hv =>
    have herror : decodeEntries 0 (before ++ v :: after) = .error e :=
      decodeEntries_eq_error_iff.2 ⟨before, v, after, rfl, hbefore, (Nat.zero_add _).symm ▸ hv⟩
    rw [deserialize_document hdoc, herror]
    rfl

theorem document_or_refused (bs : Bytes) : (∃ entries, IsDocument bs entries) ∨ ∃ e, Refused bs e := by
  cases hparse : parseKeyed bs with
  | error fault => exact .inr ⟨_, .text hparse⟩
  | ok doc =>
    by_cases hcurrent : Current doc
    · by_cases hfaces : ∃ entries, doc.get? "faces" = some (.list entries)
      · obtain ⟨entries, hentries⟩ := hfaces
        cases doc with
        | object members => exact .inl ⟨entries, members, hparse, hcurrent, hentries⟩
        | _ => cases hentries
      · exact .inr ⟨_, .faces hparse hcurrent (not_exists.1 hfaces)⟩
    · rw [Current, not_or] at hcurrent
      obtain ⟨v, hv⟩ := Option.ne_none_iff_exists'.1 hcurrent.1
      refine .inr ⟨_, .version hparse hv fun heq => hcurrent.2 ?_⟩
      rw [hv, heq]

theorem deserialize_eq_error_iff {bs : Bytes} {e : LoadError} : deserialize bs = .error e ↔ Refused bs e := by
  refine ⟨fun h => ?_, Refused.deserialize⟩
  obtain ⟨entries, hdocument⟩ | ⟨e', hrefused⟩ := document_or_refused bs
  · rw [deserialize_document hdocument] at h
    cases hentries : decodeEntries 0 entries with
    | error e' =>
      rw [hentries] at h
      cases h
      obtain ⟨before, v, after, rfl, hbefore, hv⟩ := decodeEntries_eq_error_iff.1 hentries
      rw [Nat.zero_add] at hv
      exact .entry hdocument hbefore hv
    | ok faces =>
      rw [hentries] at h
      cases h
  · rw [hrefused.deserialize] at h
    cases h
    exact hrefused

theorem deserialize_eq_ok_iff {bs : Bytes} {c : Catalog} :
    deserialize bs = .ok c ↔
      ∃ entries faces, IsDocument bs entries ∧ List.Forall₂ Describes entries faces ∧ c = build faces := by
  constructor
  · intro h
    obtain ⟨entries, hdocument⟩ | ⟨e, hrefused⟩ := document_or_refused bs
    · rw [deserialize_document hdocument] at h
      cases hentries : decodeEntries 0 entries with
      | error e =>
        rw [hentries] at h
        cases h
      | ok faces =>
        rw [hentries] at h
        cases h
        exact ⟨entries, faces, hdocument, decodeEntries_eq_ok_iff.1 hentries, rfl⟩
    · rw [hrefused.deserialize] at h
      cases h
  · rintro ⟨entries, faces, hdocument, hfaces, rfl⟩
    rw [deserialize_document hdocument, decodeEntries_eq_ok_iff.2 hfaces]
    rfl

/-! ## Several files -/

theorem loadEach_eq_mapM (t : FileTree) (paths : List Path) : loadEach t paths = paths.mapM (load t) := by
  induction paths with
  | nil => rfl
  | cons p paths ih =>
    rw [loadEach, List.mapM_cons, ← ih]
    cases load t p with
    | error e => rfl
    | ok c => cases loadEach t paths <;> rfl

theorem loadAll_eq_ok_iff {t : FileTree} {paths : List Path} {c : Catalog} :
    loadAll t paths = .ok c ↔ ∃ cs, List.Forall₂ (fun p c => load t p = .ok c) paths cs ∧ c = merge cs := by
  simp only [← mapM_eq_ok_iff, ← loadEach_eq_mapM, loadAll]
  cases loadEach t paths with
  | error e => simp [Except.map]
  | ok cs => simp [Except.map, eq_comm]

theorem loadAll_eq_error_iff {t : FileTree} {paths : List Path} {e : LoadError} :
    loadAll t paths = .error e ↔
      ∃ before p after, paths = before ++ p :: after ∧ (∀ q ∈ before, ∃ c, load t q = .ok c) ∧
        load t p = .error e := by
  rw [← mapM_eq_error_iff, ← loadEach_eq_mapM, loadAll]
  cases loadEach t paths <;> simp [Except.map]

/-- A text is loaded whole or refused for the first thing that is wrong with it, and so are several files. -/
theorem loads_whole_or_not (bs : Bytes) (t : FileTree) (paths : List Path) :
    (∀ c, deserialize bs = .ok c ↔
      ∃ entries faces, IsDocument bs entries ∧ List.Forall₂ Describes entries faces ∧ c = build faces ∧
        ∀ i, c.faces.toList.filter (·.id.same i) = (faces.find? (·.id.same i)).toList) ∧
    (∀ e, deserialize bs = .error e ↔ Refused bs e) ∧
    (∀ c, loadAll t paths = .ok c ↔
      ∃ cs, List.Forall₂ (fun p c => load t p = .ok c) paths cs ∧ c = merge cs) ∧
    ∀ e, loadAll t paths = .error e ↔
      ∃ before p after, paths = before ++ p :: after ∧ (∀ q ∈ before, ∃ c, load t q = .ok c) ∧
        load t p = .error e := by
  refine ⟨fun c => deserialize_eq_ok_iff.trans ⟨?_, ?_⟩, fun e => deserialize_eq_error_iff,
    fun c => loadAll_eq_ok_iff, fun e => loadAll_eq_error_iff⟩
  · rintro ⟨entries, faces, hdocument, hfaces, rfl⟩
    exact ⟨entries, faces, hdocument, hfaces, rfl, build_filter_same faces⟩
  · rintro ⟨entries, faces, hdocument, hfaces, hc, -⟩
    exact ⟨entries, faces, hdocument, hfaces, hc⟩

/-! ## Some texts -/

/-- A text that does not say of which version it is. -/
def textOf (entries : List Json) : Bytes := Text.encode (Json.object [("faces", .list entries)]).render

theorem isDocument_textOf {entries : List Json} (h : ∀ v ∈ entries, v.Plain 125) :
    IsDocument (textOf entries) (entries.map keyed) := by
  have hplain : (Json.object [("faces", .list entries)]).Plain maxDepth :=
    .object (List.forall_mem_singleton.2 (.list h))
  refine ⟨[("faces", .list (entries.map keyed))], ?_, .inl rfl, rfl⟩
  rw [textOf, parseKeyed, encode_render, parse_spell hplain, Except.map, keyed, keyedMembers, keyed, keyedItems_eq]
  rfl

/-- The first face of a file, with a full name. -/
def entryFace (fullName : String) : Face := { fullName, path := .ofString "/f/a.ttf", index := 0 }

def wholeEntry (fullName : String) : Json := (entryFace fullName).toJsonWith (.text "/f/a.ttf")

def partEntry : Json := .object [("full_name", .text "A")]

theorem plain_wholeEntry (fullName : String) : (wholeEntry fullName).Plain 125 :=
  (entryFace fullName).plain_toJsonWith "/f/a.ttf" 122

theorem describes_wholeEntry (fullName : String) : Describes (wholeEntry fullName).keyed (entryFace fullName) :=
  decodeEntry_eq_ok_iff.1 (decodeEntry_keyed (f := entryFace fullName) (s := "/f/a.ttf") rfl 0)

/-- Of two entries for one face the first is kept, and of two entries that are wrong the first is told of. -/
theorem loads_whole_or_not_entries :
    (∃ c, deserialize (textOf [wholeEntry "A", wholeEntry "B"]) = .ok c ∧
      c.faces.toList.filter (·.id.same (entryFace "B").id) = [entryFace "A"]) ∧
    deserialize (textOf [wholeEntry "A", partEntry, .null]) = .error (.missingField 1 "postscript_name") ∧
    deserialize (textOf [wholeEntry "A", .null, partEntry]) = .error (.notObject 1) := by
  have hpart : partEntry.Plain 125 := .object (List.forall_mem_singleton.2 (.text "A"))
  have hwhole : ∀ w ∈ [(wholeEntry "A").keyed], ∃ f, Describes w f :=
    List.forall_mem_singleton.2 ⟨_, describes_wholeEntry "A"⟩
  refine ⟨?_, ?_, ?_⟩
  · have hdoc : IsDocument (textOf [wholeEntry "A", wholeEntry "B"]) _ :=
      isDocument_textOf (by simp [plain_wholeEntry])
    have hfaces : List.Forall₂ Describes [(wholeEntry "A").keyed, (wholeEntry "B").keyed]
        [entryFace "A", entryFace "B"] :=
      .cons (describes_wholeEntry "A") (.cons (describes_wholeEntry "B") .nil)
    have hloaded := ((loads_whole_or_not (textOf [wholeEntry "A", wholeEntry "B"]) {} []).1 _).2
      ⟨_, _, hdoc, hfaces, rfl, build_filter_same _⟩
    refine ⟨_, hloaded, (build_filter_same _ _).trans ?_⟩
    decide
  · have hdoc : IsDocument (textOf [wholeEntry "A", partEntry, .null]) _ :=
      isDocument_textOf (by simp [plain_wholeEntry, hpart, Plain.null])
    have hmissing : Misdescribes 1 partEntry.keyed (.missingField 1 "postscript_name") :=
      misdescribes_missingField_iff.2 (by decide)
    exact ((loads_whole_or_not _ {} []).2.1 _).2 (.entry hdoc hwhole hmissing)
  · have hdoc : IsDocument (textOf [wholeEntry "A", .null, partEntry]) _ :=
      isDocument_textOf (by simp [plain_wholeEntry, hpart, Plain.null])
    exact ((loads_whole_or_not _ {} []).2.1 _).2 (.entry hdoc hwhole (.notObject nofun))

end FontCatalog.Catalog
