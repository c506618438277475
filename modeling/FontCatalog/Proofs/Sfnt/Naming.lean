import FontCatalog.FontFile

/-! How faces are named that have been read from a font. Each has a Win32 family name and one typographic family
name at least, whichever texts its name table holds: where the table has no typographic family name, the Win32
family name was chosen from texts that then serve for both. -/
namespace FontCatalog
set_option autoImplicit false

/-! ## Trimmed texts -/

namespace Text

/-- No white space stands at either end. -/
structure Trimmed (s : String) : Prop where
  head : ∀ c, s.toList.head? = some c → isBlank c = false
  last : ∀ c, s.toList.getLast? = some c → isBlank c = false

theorem isBlank_of_head?_dropWhile {cs : List Char} {c : Char} (h : (cs.dropWhile isBlank).head? = some c) :
    isBlank c = false := by
  have hhead := List.head?_dropWhile_not isBlank cs
  rw [h] at hhead
  simpa using hhead

theorem trimmed_trim (s : String) : Trimmed (trim s) := by
  have hlist : (trim s).toList = trimEnd (trimStart s.toList) := String.toList_ofList
  constructor
  · intro c hc
    rw [hlist, trimEnd] at hc
    -- what is left in front is a beginning of the text without its first blanks
    have hprefix : ((trimStart s.toList).reverse.dropWhile isBlank).reverse <+: trimStart s.toList := by
      rw [← List.reverse_suffix, List.reverse_reverse]
      exact List.dropWhile_suffix _
    obtain ⟨rest, hrest⟩ := hprefix
    have hstart : (trimStart s.toList).head? = some c := by rw [← hrest, List.head?_append, hc, Option.some_or]
    exact isBlank_of_head?_dropWhile hstart
  · intro c hc
    rw [hlist, trimEnd, List.getLast?_reverse] at hc
    exact isBlank_of_head?_dropWhile hc

theorem Trimmed.isBlankText {s : String} (h : Trimmed s) (hne : s ≠ "") : isBlankText s = false := by
  obtain ⟨c, rest, hs⟩ := List.exists_cons_of_ne_nil (mt String.toList_eq_nil_iff.1 hne)
  have hc := h.head c (by rw [hs, List.head?_cons])
  rw [FontCatalog.Text.isBlankText, hs, List.all_cons, hc, Bool.false_and]

end Text

/-! ## Names with their languages -/

namespace Sfnt
open Text

/-- Names that a face may have: each is trimmed and not empty, and none stands there twice. -/
structure Listed (names : List LocalizedName) : Prop where
  ne_empty : ∀ n ∈ names, n.name ≠ ""
  trimmed : ∀ n ∈ names, Trimmed n.name
  nodup : names.Nodup

theorem addName_listed {names : List LocalizedName} (h : Listed names) (entry : Option String × String) :
    Listed (addName names entry) := by
  rw [addName]
  split
  · exact h
  next hnew =>
  rw [Bool.or_eq_true, not_or, String.isEmpty_iff, List.contains_iff_mem] at hnew
  obtain ⟨hne, hnotMem⟩ := hnew
  refine ⟨?_, ?_, List.nodup_append.2 ⟨h.nodup, List.pairwise_singleton _ _, ?_⟩⟩
  · exact List.forall_mem_append.2 ⟨h.ne_empty, List.forall_mem_singleton.2 hne⟩
  · exact List.forall_mem_append.2 ⟨h.trimmed, List.forall_mem_singleton.2 (trimmed_trim _)⟩
  · intro n hn n' hn' hsame
    rw [List.mem_singleton] at hn'
    rw [hsame, hn'] at hn
    exact hnotMem hn

theorem mem_addName_of_mem {names : List LocalizedName} {n : LocalizedName} (h : n ∈ names)
    (entry : Option String × String) : n ∈ addName names entry := by
  rw [addName]
  split
  · exact h
  · exact List.mem_append_left _ h

theorem mem_addName (names : List LocalizedName) {entry : Option String × String} (h : trim entry.2 ≠ "") :
    ⟨entry.1.getD "", trim entry.2⟩ ∈ addName names entry := by
  rw [addName]
  split
  · next hknown =>
    rw [Bool.or_eq_true, String.isEmpty_iff, List.contains_iff_mem] at hknown
    exact hknown.resolve_left h
  · exact List.mem_append_right _ List.mem_cons_self

theorem foldl_addName_listed {names : List LocalizedName} (h : Listed names)
    (entries : List (Option String × String)) : Listed (entries.foldl addName names) := by
  induction entries generalizing names with
  | nil => exact h
  | cons entry rest ih => exact ih (addName_listed h entry)

theorem mem_foldl_addName {names : List LocalizedName} {n : LocalizedName} (h : n ∈ names)
    (entries : List (Option String × String)) : n ∈ entries.foldl addName names := by
  induction entries generalizing names with
  | nil => exact h
  | cons entry rest ih => exact ih (mem_addName_of_mem h entry)

variable {texts : Nat → List (Option String × String)} {name : Nat}

theorem localizedNames_listed (texts : Nat → List (Option String × String)) (name : Nat) :
    Listed (localizedNames texts name) :=
  foldl_addName_listed ⟨List.forall_mem_nil _, List.forall_mem_nil _, List.nodup_nil⟩ _

theorem mem_localizedNames {entry : Option String × String} (h : entry ∈ texts name) (hne : trim entry.2 ≠ "") :
    ⟨entry.1.getD "", trim entry.2⟩ ∈ localizedNames texts name := by
  obtain ⟨before, after, hparts⟩ := List.append_of_mem h
  rw [localizedNames, hparts, List.foldl_append, List.foldl_cons]
  exact mem_foldl_addName (mem_addName _ hne) after

/-! ## The best text -/

/-- A choice that is made among the texts. -/
def Choice.Picks (choice : Choice) : Prop := ∀ texts s, choice texts = some s → s ∈ texts.map Prod.snd

theorem englishAfter_mem {texts : List (Option String × String)} {best : Option (Nat × String)} {isFirst : Bool}
    {s : String} (h : englishAfter best isFirst texts = some s) :
    best.map Prod.snd = some s ∨ s ∈ texts.map Prod.snd := by
  induction texts generalizing best isFirst with
  | nil => exact .inl h
  | cons entry rest ih =>
    obtain ⟨language, t⟩ := entry
    rw [englishAfter] at h
    rw [List.map_cons, List.mem_cons]
    split at h
    · exact .inr (.inl (Option.some.inj h).symm)
    · split at h
      · exact (ih h).imp_right .inr
      · split at h
        · next rank _ bestRank u =>
          rcases ih h with hbest | hrest
          · split at hbest
            · exact .inr (.inl (Option.some.inj hbest).symm)
            · exact .inl hbest
          · exact .inr (.inr hrest)
        · rcases ih h with hbest | hrest
          · exact .inr (.inl (Option.some.inj hbest).symm)
          · exact .inr (.inr hrest)

theorem englishOrFirst_picks : Choice.Picks englishOrFirst := by
  intro texts s h
  rcases englishAfter_mem h with hbest | hmem
  · cases hbest
  · exact hmem

theorem bestText_trimmed (choice : Choice) (texts : Nat → List (Option String × String)) (name : Nat) :
    Trimmed (bestText choice texts name) := by
  rw [bestText]
  cases choice (texts name) with
  | none => exact ⟨nofun, nofun⟩
  | some s => exact trimmed_trim s

/-- A best text that is not empty is among the names as well. -/
theorem localizedNames_ne_nil {choice : Choice} (hchoice : choice.Picks)
    (h : bestText choice texts name ≠ "") : localizedNames texts name ≠ [] := by
  rw [bestText] at h
  cases hchosen : choice (texts name) with
  | none =>
    rw [hchosen] at h
    exact absurd rfl h
  | some s =>
    rw [hchosen] at h
    obtain ⟨entry, hentry, rfl⟩ := List.mem_map.1 (hchoice _ _ hchosen)
    exact List.ne_nil_of_mem (mem_localizedNames hentry h)

/-! ## Faces -/

theorem styleOf_weight_ne_zero (weightClass selection : UInt16) : (styleOf weightClass selection).1 ≠ 0 := by
  have hweight : (if weightClass = 0 then regularWeight else weightClass) ≠ 0 := by
    split
    · decide
    · assumption
  rw [styleOf]
  generalize (if weightClass = 0 then regularWeight else weightClass) = weight at hweight
  dsimp only
  split
  · decide
  · exact hweight

theorem styleOfTable_weight_ne_zero (table : Option ByteArray) : (styleOfTable table).1 ≠ 0 := by
  cases table with
  | none => exact (by decide : regularWeight ≠ 0)
  | some data =>
    rw [styleOfTable]
    split
    · exact (by decide : regularWeight ≠ 0)
    · exact styleOf_weight_ne_zero _ _

/-- What is said of a face whatever font it was read from. -/
structure WellNamed (m : FaceMetadata) : Prop where
  win32_ne_empty : m.win32Family ≠ ""
  win32_trimmed : Trimmed m.win32Family
  typographic_ne_nil : m.typographicFamilies ≠ []
  typographic : Listed m.typographicFamilies
  weight : m.weight ≠ 0

variable {choice : Choice} {m : FaceMetadata}

theorem Font.metadata_wellNamed (hchoice : choice.Picks) {f : Font} (h : f.metadata choice = .ok m) :
    WellNamed m := by
  rw [Font.metadata] at h
  dsimp only at h
  split at h
  · cases h
  next hfamily =>
  rw [String.isEmpty_iff] at hfamily
  cases h
  refine ⟨hfamily, bestText_trimmed _ _ _, ?_, ?_, styleOfTable_weight_ne_zero _⟩
  · dsimp only
    split
    · exact localizedNames_ne_nil hchoice hfamily
    · next hsome => exact mt List.isEmpty_iff.2 hsome
  · dsimp only
    split <;> exact localizedNames_listed _ _

theorem Container.metadata_wellNamed (hchoice : choice.Picks) {c : Container} {index : Nat}
    (h : c.metadata choice index = .ok m) : WellNamed m := by
  rw [Container.metadata] at h
  split at h
  · cases h
  · exact Font.metadata_wellNamed hchoice h

end Sfnt

theorem FontFile.metadata_wellNamed {choice : Sfnt.Choice} (hchoice : choice.Picks) {data : ByteArray}
    {file : FontFile} (hfile : sfntBy choice data = .ok file) {index : Nat} {m : FaceMetadata}
    (h : file.metadata index = .ok m) : Sfnt.WellNamed m := by
  rw [sfntBy] at hfile
  split at hfile
  · cases hfile
  next c _ =>
  cases hfile
  dsimp only at h
  cases hmetadata : c.metadata choice index with
  | error e =>
    rw [hmetadata] at h
    cases h
  | ok m' =>
    rw [hmetadata] at h
    cases h
    exact Sfnt.Container.metadata_wellNamed hchoice hmetadata

end FontCatalog
