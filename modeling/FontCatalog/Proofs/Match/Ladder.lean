import FontCatalog.Match
import FontCatalog.Proofs.Catalog.Groups
import FontCatalog.Proofs.Catalog.Order
import FontCatalog.Proofs.Name.Keys

/-! The ladder as a plain search through a list of faces, without any map of names: each rung is a filter
of the faces, the first rung that is not empty decides, and the wanted style picks the face there. A
catalog finds what this search finds in its faces.

The `@` of vertical faces, the length of a cut name and the weight of a bold face are spelled out here and not
taken over from the search through the maps. -/
namespace FontCatalog
set_option autoImplicit false

namespace Name

theorem undecorate_at (name : String) : undecorate ("@" ++ name) = name := by
  have hl : ("@" ++ name).toList = '@' :: name.toList := by
    rw [String.toList_append]
    rfl
  rw [undecorate, hl]
  exact String.ofList_toList

theorem undecorate_eq_self {name : String} (h : name.toList.head? ≠ some '@') : undecorate name = name := by
  unfold undecorate
  split
  · next rest hl =>
    rw [hl] at h
    exact absurd rfl h
  · rfl

end Name

/-! ## Rungs -/

namespace Ladder

/-- The name that is asked for: the family, but for one `@` at its head. -/
def asked (family : String) : String :=
  if family.toList.head? = some '@' then String.ofList family.toList.tail else family

theorem asked_eq (family : String) : asked family = Name.undecorate family := by
  unfold asked
  split
  · next h =>
    obtain ⟨rest, hl⟩ := List.head?_eq_some_iff.1 h
    rw [Name.undecorate, hl]
    rfl
  · next h => exact (Name.undecorate_eq_self h).symm

/-- The faces with a name of this kind whose key is that of `name`. -/
def alike (names : Face → List String) (key : String → String) (name : String)
    (faces : List Face) : List Face :=
  faces.filter fun f => (names f).any fun n => key n == key name

/-- The faces with a name of this kind that begins with `name`, case aside. -/
def beginning (names : Face → List String) (name : String) (faces : List Face) : List Face :=
  faces.filter fun f => (names f).any fun n =>
    (Name.exactKey name).toList.isPrefixOf (Name.exactKey n).toList

/-- The rungs of family names. A name without letters and numbers has no fuzzy rungs, and only one as
long as a name that was cut has those of names that begin with it. -/
def familyRungs (name : String) (faces : List Face) : List (Tier × List Face) :=
  [(.exactTypographic, alike Face.typographicNames Name.exactKey name faces),
    (.exactWin32, alike Face.win32Names Name.exactKey name faces)] ++
  (if Name.looseKey name = "" then [] else
    [(.fuzzy, alike Face.typographicNames Name.looseKey name faces),
      (.fuzzy, alike Face.win32Names Name.looseKey name faces)]) ++
  if Name.looseKey name ≠ "" ∧ Text.units16 name = 31 then
    [(.fuzzy, beginning Face.typographicNames name faces),
      (.fuzzy, beginning Face.win32Names name faces)]
  else []

/-- The rung of full names and PostScript names: those that suit the outlines, or else all. -/
def nameRung (name : String) (faces : List Face) : List Face :=
  let byPostscript := alike Face.postscriptNames Name.familyKey name faces
  let byFull := alike Face.fullNames Name.familyKey name faces
  let suited := byPostscript.filter (·.psOutline) ++ byFull.filter (!·.psOutline)
  if suited = [] then byPostscript ++ byFull else suited

/-- Whether a face has all that is wanted of its style; it is bold from the weight 600 on. -/
def Suits (s : StyleHints) (f : Face) : Prop :=
  (∀ b, s.bold = some b → decide (600 ≤ f.weight) = b) ∧ ∀ i, s.italic = some i → f.italic = i

theorem accepts_iff (s : StyleHints) (f : Face) : s.accepts f = true ↔ Suits s f := by
  have hbold : f.isBold = decide (600 ≤ f.weight) := rfl
  obtain ⟨bold, italic⟩ := s
  cases bold <;> cases italic <;> simp [StyleHints.accepts, Suits, hbold]

instance (s : StyleHints) (f : Face) : Decidable (Suits s f) :=
  decidable_of_iff _ (accepts_iff s f)

/-- The first face that suits, or else the first. -/
def pick (s : StyleHints) (faces : List Face) : Option Face :=
  match faces.filter (Suits s ·) with
  | f :: _ => some f
  | [] => faces.head?

/-- The answer to a query among these faces. -/
def answer (faces : List Face) (q : Query) : Answer :=
  let name := asked q.family
  if Text.isBlankText name then .notFound
  else
    match (familyRungs name faces).find? (·.2 ≠ []) with
    | some (tier, group) =>
      match pick q.style group with
      | some f => .found f tier
      | none => .notFound
    | none =>
      match nameRung name faces with
      | f :: _ => .found f .fullName
      | [] => .notFound

/-! ## The faces of an answer -/

theorem mem_of_mem_alike {names : Face → List String} {key : String → String} {name : String}
    {faces : List Face} {f : Face} (h : f ∈ alike names key name faces) : f ∈ faces :=
  List.mem_of_mem_filter h

theorem mem_of_mem_beginning {names : Face → List String} {name : String} {faces : List Face}
    {f : Face} (h : f ∈ beginning names name faces) : f ∈ faces :=
  List.mem_of_mem_filter h

theorem mem_of_mem_familyRungs {name : String} {faces : List Face} {r : Tier × List Face}
    (hr : r ∈ familyRungs name faces) {f : Face} (hf : f ∈ r.2) : f ∈ faces := by
  unfold familyRungs at hr
  simp only [List.mem_append, List.mem_cons, List.not_mem_nil, or_false] at hr
  rcases hr with ((rfl | rfl) | hr) | hr
  · exact mem_of_mem_alike hf
  · exact mem_of_mem_alike hf
  · split at hr
    · cases hr
    · simp only [List.mem_cons, List.not_mem_nil, or_false] at hr
      rcases hr with rfl | rfl <;> exact mem_of_mem_alike hf
  · split at hr
    · simp only [List.mem_cons, List.not_mem_nil, or_false] at hr
      rcases hr with rfl | rfl <;> exact mem_of_mem_beginning hf
    · cases hr

theorem mem_of_mem_nameRung {name : String} {faces : List Face} {f : Face}
    (h : f ∈ nameRung name faces) : f ∈ faces := by
  unfold nameRung at h
  dsimp only at h
  split at h
  · rcases List.mem_append.1 h with h | h <;> exact mem_of_mem_alike h
  · rcases List.mem_append.1 h with h | h <;> exact mem_of_mem_alike (List.mem_of_mem_filter h)

theorem mem_of_pick {s : StyleHints} {faces : List Face} {f : Face} (h : pick s faces = some f) :
    f ∈ faces := by
  unfold pick at h
  split at h
  · next g rest hg =>
    cases h
    have hmem : f ∈ faces.filter (Suits s ·) := by rw [hg]; exact List.mem_cons_self
    exact List.mem_of_mem_filter hmem
  · exact List.mem_of_head? h

theorem answer_mem {faces : List Face} {q : Query} {f : Face} (h : (answer faces q).face? = some f) :
    f ∈ faces := by
  unfold answer at h
  dsimp only at h
  split at h
  · cases h
  · split at h
    · next tier group hfind =>
      split at h
      · next g hg =>
        cases h
        exact mem_of_mem_familyRungs (List.mem_of_find?_eq_some hfind) (mem_of_pick hg)
      · cases h
    · split at h
      · next g rest hg =>
        cases h
        exact mem_of_mem_nameRung (hg ▸ List.mem_cons_self)
      · cases h

end Ladder

/-! ## Groups and rungs -/

namespace Catalog
open Ladder

section
variable (faces : List Face) {name : String}

theorem group_alike (names : Face → List String) (key : String → String) (hk : key name ≠ "") :
    ((ofArranged faces).group (.ofFaces names key faces) (key name)).faces =
      alike names key name faces := by
  rw [group_ofFaces faces hk]
  rfl

theorem groupOfStem_beginning (names : Face → List String) (hk : Name.exactKey name ≠ "") :
    ((ofArranged faces).groupOfStem (.ofFaces names Name.exactKey faces)
      (Name.exactKey name)).faces = beginning names name faces := by
  have hbegins (n : String) :
      (!(Name.exactKey n).isEmpty && (Name.exactKey name).toList.isPrefixOf (Name.exactKey n).toList) =
        (Name.exactKey name).toList.isPrefixOf (Name.exactKey n).toList := by
    by_cases hn : Name.exactKey n = ""
    · have hl : (Name.exactKey name).toList ≠ [] := by simpa using hk
      rw [hn]
      cases hc : (Name.exactKey name).toList with
      | nil => exact absurd hc hl
      | cons c cs => rfl
    · have hne : (Name.exactKey n).isEmpty = false := by simpa using hn
      rw [hne]
      rfl
  rw [faces_groupOfStem]
  simp only [hbegins]
  rfl

theorem firstGroup_eq (gs : List (FaceGroup × Tier)) :
    firstGroup gs =
      ((gs.map fun g => (g.2, g.1.faces)).find? (·.2 ≠ [])).map fun r => (r.2, r.1) := by
  induction gs with
  | nil => rfl
  | cons g gs ih =>
    obtain ⟨g, t⟩ := g
    rw [firstGroup, ih, List.map_cons, List.find?_cons]
    cases g.faces <;> simp

theorem firstGroup_append (gs hs : List (FaceGroup × Tier)) :
    firstGroup (gs ++ hs) = (firstGroup gs).or (firstGroup hs) := by
  induction gs with
  | nil => rfl
  | cons g gs ih =>
    obtain ⟨g, t⟩ := g
    rw [List.cons_append, firstGroup, firstGroup, ih]
    split <;> rfl

theorem fuzzyGroups_rungs (hk : Name.exactKey name ≠ "") :
    ((ofArranged faces).fuzzyGroups name).map (fun g => (Tier.fuzzy, g.faces)) =
      (if Name.looseKey name = "" then [] else
        [(Tier.fuzzy, alike Face.typographicNames Name.looseKey name faces),
          (Tier.fuzzy, alike Face.win32Names Name.looseKey name faces)]) ++
      if Name.looseKey name ≠ "" ∧ Text.units16 name = 31 then
        [(Tier.fuzzy, beginning Face.typographicNames name faces),
          (Tier.fuzzy, beginning Face.win32Names name faces)]
      else [] := by
  unfold fuzzyGroups
  by_cases hl : Name.looseKey name = ""
  · simp [hl]
  · have ht : ((ofArranged faces).typographicLoose name).faces = _ :=
      group_alike faces Face.typographicNames Name.looseKey hl
    have hw : ((ofArranged faces).win32Loose name).faces = _ :=
      group_alike faces Face.win32Names Name.looseKey hl
    have hts : ((ofArranged faces).typographicStem name).faces = _ :=
      groupOfStem_beginning faces Face.typographicNames hk
    have hws : ((ofArranged faces).win32Stem name).faces = _ :=
      groupOfStem_beginning faces Face.win32Names hk
    have hu : Name.isTruncated name = decide (Text.units16 name = 31) := rfl
    by_cases h31 : Text.units16 name = 31 <;>
      simp [hl, hu, h31, ht, hw, hts, hws]

/-- The families that are looked up are the rungs of family names. -/
theorem familyCandidates_eq (hb : Text.isBlankText name = false) :
    (ofArranged faces).familyCandidates name =
      ((familyRungs name faces).find? (·.2 ≠ [])).map fun r => (r.2, r.1) := by
  have hk := Name.exactKey_ne_empty hb
  have ht : ((ofArranged faces).typographicExact name).faces = _ :=
    group_alike faces Face.typographicNames Name.exactKey hk
  have hw : ((ofArranged faces).win32Exact name).faces = _ :=
    group_alike faces Face.win32Names Name.exactKey hk
  rw [familyCandidates, ← firstGroup_append, firstGroup_eq, List.map_append, List.map_map,
    Function.comp_def, fuzzyGroups_rungs faces hk, ← List.append_assoc]
  simp only [List.map_cons, List.map_nil, ht, hw]
  rfl

theorem nameCandidates_eq (hb : Text.isBlankText name = false) :
    (ofArranged faces).nameCandidates name = nameRung name faces := by
  have hk := Name.familyKey_ne_empty hb
  have hp : ((ofArranged faces).lookupPostscriptName name).faces = _ :=
    group_alike faces Face.postscriptNames Name.familyKey hk
  have hf : ((ofArranged faces).lookupFullName name).faces = _ :=
    group_alike faces Face.fullNames Name.familyKey hk
  unfold nameCandidates nameRung
  simp only [hp, hf, List.isEmpty_iff]

end

theorem pick_eq (s : StyleHints) (faces : List Face) : pick s faces = Ladder.pick s faces := by
  have hfirst : faces.find? s.accepts = (faces.filter (Suits s ·)).head? := by
    have haccepts : s.accepts = fun f => decide (Suits s f) := by
      funext f
      rw [Bool.eq_iff_iff, accepts_iff, decide_eq_true_iff]
    rw [List.head?_filter, haccepts]
  unfold pick Ladder.pick
  rw [hfirst]
  cases faces.filter (Suits s ·) <;> rfl

/-! ## The ladder -/

theorem find_ofArranged (faces : List Face) (q : Query) :
    (ofArranged faces).find q = answer faces q := by
  unfold find answer
  rw [asked_eq]
  cases hb : Text.isBlankText (Name.undecorate q.family) with
  | true => simp only [hb, if_true]
  | false =>
    simp only [hb, Bool.false_eq_true, if_false, familyCandidates_eq faces hb, nameCandidates_eq faces hb]
    cases (familyRungs (Name.undecorate q.family) faces).find? (·.2 ≠ []) with
    | none => rfl
    | some r =>
      cases hpick : Ladder.pick q.style r.2 <;> simp only [Option.map_some, pick_eq, hpick]

/-- A catalog finds only faces that it keeps. -/
theorem find_mem {faces : List Face} {q : Query} {f : Face}
    (h : ((build faces).find q).face? = some f) : f ∈ (build faces).faces.toList := by
  refine answer_mem (q := q) ?_
  rw [← h]
  exact congrArg Answer.face? (find_ofArranged (arrange faces) q).symm

/-- A catalog of any faces answers as the plain search through the faces that it keeps. -/
theorem find_build (faces : List Face) (q : Query) :
    (build faces).find q = answer (build faces).faces.toList q :=
  find_ofArranged (arrange faces) q

/-- Two faces of one family, the first just bold and the second just not. -/
def boldPair : List Face :=
  [{ typographicFamilies := [⟨"en", "Noto Serif"⟩], weight := 600, path := .ofString "/f/a.ttf", index := 0 },
    { typographicFamilies := [⟨"en", "Noto Serif"⟩], win32Family := "Noto Serif Light",
      fullName := "Serif 1", weight := 599, path := .ofString "/f/a.ttf", index := 1 }]

theorem find_build_boldPair :
    (build boldPair).find ⟨"@NOTO SERIF", {}⟩ = .found boldPair[0] .exactTypographic ∧
    (build boldPair).find ⟨"noto serif", { bold := some false }⟩ = .found boldPair[1] .exactTypographic ∧
    (build boldPair).find ⟨"Noto Serif Light", { bold := some true }⟩ = .found boldPair[1] .exactWin32 ∧
    (build boldPair).find ⟨"@@NotoSerif", {}⟩ = .found boldPair[0] .fuzzy ∧
    (build boldPair).find ⟨"serif  1", {}⟩ = .found boldPair[1] .fullName ∧
    (build boldPair).find ⟨"@", {}⟩ = .notFound := by
  have hfaces : (build boldPair).faces.toList = boldPair := by
    rw [build, arrange_of_ascending _ (by unfold Ascending; decide)]
    rfl
  simp only [find_build, hfaces]
  decide +kernel

end Catalog

end FontCatalog
