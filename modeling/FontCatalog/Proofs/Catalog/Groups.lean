import FontCatalog.Catalog
import FontCatalog.Proofs.NameMap.Entries

/-! The lookups of a catalog as plain filters of its faces. A group found by key holds the faces with a
name of that key; a group found by stem holds the faces with a name whose key begins with the stem. -/
namespace FontCatalog.Catalog
set_option autoImplicit false

theorem atPositions_positionsWhere (test : Face → Bool) (faces : List Face) :
    (ofArranged faces).atPositions (positionsWhere test faces) = faces.filter test := by
  rw [← filterMap_positionsWhere]
  exact List.filterMap_congr fun i _ => List.getElem?_toArray

section
variable {names : Face → List String} {key : String → String} {k : String}

/-! ## Groups by key -/

theorem group_ofFaces (faces : List Face) (hk : k ≠ "") :
    (ofArranged faces).group (.ofFaces names key faces) k =
      ⟨((faces.flatMap names).find? (key · == k)).getD "",
        faces.filter fun f => (names f).any (key · == k)⟩ := by
  unfold group
  rw [NameMap.getElem?_ofFaces faces hk]
  cases hn : (faces.flatMap names).find? (key · == k) with
  | some n =>
    simp only [Option.map_some, Option.getD_some, NameEntry.positions, List.reverse_reverse]
    rw [atPositions_positionsWhere]
  | none =>
    have hnone : faces.filter (fun f => (names f).any (key · == k)) = [] := by
      rw [List.filter_eq_nil_iff]
      intro f hf ha
      obtain ⟨n, hnf, hkn⟩ := List.any_eq_true.mp ha
      exact List.find?_eq_none.mp hn n (List.mem_flatMap.mpr ⟨f, hf, hnf⟩) hkn
    simp only [Option.map_none, Option.getD_none, hnone]

theorem group_ofFaces_empty (faces : List Face) :
    (ofArranged faces).group (.ofFaces names key faces) "" = {} := by
  unfold group
  rw [NameMap.getElem?_ofFaces_empty]

/-! ## Ascending positions -/

theorem mem_insertPosition {p q : Nat} (l : List Nat) :
    q ∈ insertPosition p l ↔ q = p ∨ q ∈ l := by
  induction l with
  | nil => simp [insertPosition]
  | cons r l ih =>
    unfold insertPosition
    split
    · simp
    · split
      · next h => subst h; simp
      · rw [List.mem_cons, ih, List.mem_cons]
        tauto

theorem insertPosition_pairwise (p : Nat) (l : List Nat) (h : l.Pairwise (· < ·)) :
    (insertPosition p l).Pairwise (· < ·) := by
  induction l with
  | nil => simp [insertPosition]
  | cons r l ih =>
    rw [List.pairwise_cons] at h
    unfold insertPosition
    split
    · next hp =>
      refine List.pairwise_cons.mpr ⟨?_, List.pairwise_cons.mpr h⟩
      intro q hq
      rcases List.mem_cons.mp hq with rfl | hq
      · exact hp
      · exact hp.trans (h.1 q hq)
    · split
      · exact List.pairwise_cons.mpr h
      · refine List.pairwise_cons.mpr ⟨?_, ih h.2⟩
        intro q hq
        rcases (mem_insertPosition l).mp hq with rfl | hq
        · omega
        · exact h.1 q hq

theorem mem_foldl_insertPosition {q : Nat} (ps acc : List Nat) :
    q ∈ ps.foldl (fun acc p => insertPosition p acc) acc ↔ q ∈ ps ∨ q ∈ acc := by
  induction ps generalizing acc with
  | nil => simp
  | cons p ps ih =>
    rw [List.foldl_cons, ih, mem_insertPosition, List.mem_cons]
    tauto

theorem foldl_insertPosition_pairwise (ps acc : List Nat) (h : acc.Pairwise (· < ·)) :
    (ps.foldl (fun acc p => insertPosition p acc) acc).Pairwise (· < ·) := by
  induction ps generalizing acc with
  | nil => exact h
  | cons p ps ih => exact ih _ (insertPosition_pairwise p acc h)

/-! ## Groups by stem -/

/-- The entries whose keys begin with `stem`, as they come out of a map that hands out its entries in this order. -/
def startingAmong (stem : String) (entries : List (String × NameEntry)) : List NameEntry :=
  ((entries.filter fun e => stem.toList.isPrefixOf e.1.toList).map (·.2)).mergeSort
    fun a b => decide (a.first ≤ b.first)

/-- The faces of these entries, each once and in order. -/
def groupOfEntries (c : Catalog) (stem : String) (entries : List (String × NameEntry)) : FaceGroup :=
  match startingAmong stem entries with
  | [] => {}
  | e :: rest =>
    let positions := (e :: rest).flatMap NameEntry.positions
    ⟨e.display, c.atPositions (positions.foldl (fun acc p => insertPosition p acc) [])⟩

theorem groupOfStem_eq (c : Catalog) (m : NameMap) (stem : String) :
    c.groupOfStem m stem = c.groupOfEntries stem m.toList := rfl

theorem mem_startingAmong {m : NameMap} {entries : List (String × NameEntry)} (h : entries.Perm m.toList)
    {stem : String} {e : NameEntry} :
    e ∈ startingAmong stem entries ↔ ∃ k : String, m[k]? = some e ∧ stem.toList.isPrefixOf k.toList = true := by
  unfold startingAmong
  rw [List.mem_mergeSort, List.mem_map]
  constructor
  · rintro ⟨⟨k, e'⟩, hm, rfl⟩
    obtain ⟨hm, hp⟩ := List.mem_filter.mp hm
    exact ⟨k, Std.TreeMap.mem_toList_iff_getElem?_eq_some.mp (h.mem_iff.1 hm), hp⟩
  · rintro ⟨k, hm, hp⟩
    refine ⟨(k, e), List.mem_filter.mpr ⟨h.mem_iff.2 ?_, hp⟩, rfl⟩
    exact Std.TreeMap.mem_toList_iff_getElem?_eq_some.mpr hm

section
variable {faces : List Face} {entries : List (String × NameEntry)}
  (h : entries.Perm (NameMap.ofFaces names key faces).toList) (stem : String)

include h

/-- A position is in some entry of a stem where the face there has a name of such a key. -/
theorem mem_positions_startingAmong (i : Nat) :
    i ∈ (startingAmong stem entries).flatMap NameEntry.positions ↔
      i ∈ positionsWhere (fun f => (names f).any fun n =>
        !(key n).isEmpty && stem.toList.isPrefixOf (key n).toList) faces := by
  rw [List.mem_flatMap, mem_positionsWhere]
  constructor
  · rintro ⟨e, he, hi⟩
    obtain ⟨k, hm, hp⟩ := (mem_startingAmong h).mp he
    obtain ⟨hk, -, hpositions⟩ := NameMap.entry_ofFaces hm
    rw [hpositions, mem_positionsWhere] at hi
    obtain ⟨f, hf, ha⟩ := hi
    obtain ⟨n', hn', hkn⟩ := List.any_eq_true.mp ha
    refine ⟨f, hf, List.any_eq_true.mpr ⟨n', hn', ?_⟩⟩
    have hkn : key n' = k := by simpa using hkn
    simp [hkn, hk, hp]
  · rintro ⟨f, hf, ha⟩
    obtain ⟨n, hn, hp⟩ := List.any_eq_true.mp ha
    rw [Bool.and_eq_true] at hp
    have hk : key n ≠ "" := by simpa using hp.1
    have hmem : i ∈ positionsWhere (fun f => (names f).any (key · == key n)) faces :=
      mem_positionsWhere.mpr ⟨f, hf, List.any_eq_true.mpr ⟨n, hn, by simp⟩⟩
    obtain ⟨d, hd, -⟩ := NameMap.exists_spelling key (List.mem_of_getElem? hf) hn
    refine ⟨⟨d, (positionsWhere (fun f => (names f).any (key · == key n)) faces).reverse⟩, ?_, ?_⟩
    · refine (mem_startingAmong h).mpr ⟨key n, ?_, hp.2⟩
      rw [NameMap.getElem?_ofFaces faces hk, hd]
      rfl
    · rw [NameEntry.positions, List.reverse_reverse]
      exact hmem

/-- The positions of a stem are merged into one list. -/
theorem merged_startingAmong :
    ((startingAmong stem entries).flatMap NameEntry.positions).foldl (fun acc p => insertPosition p acc) [] =
      positionsWhere (fun f => (names f).any fun n =>
        !(key n).isEmpty && stem.toList.isPrefixOf (key n).toList) faces := by
  apply (foldl_insertPosition_pairwise _ _ .nil).eq_of_mem_iff (positionsWhere_pairwise ..)
  intro i
  rw [mem_foldl_insertPosition, mem_positions_startingAmong h]
  simp

/-- A group by stem holds the faces with a name of such a key, each once and in order. -/
theorem faces_groupOfEntries :
    ((ofArranged faces).groupOfEntries stem entries).faces =
      faces.filter fun f => (names f).any fun n =>
        !(key n).isEmpty && stem.toList.isPrefixOf (key n).toList := by
  rw [← atPositions_positionsWhere, ← merged_startingAmong h]
  unfold groupOfEntries
  split
  · next he => rw [he]; rfl
  · next e rest he => rw [he]

end

theorem faces_groupOfStem (faces : List Face) (stem : String) :
    ((ofArranged faces).groupOfStem (.ofFaces names key faces) stem).faces =
      faces.filter fun f => (names f).any fun n =>
        !(key n).isEmpty && stem.toList.isPrefixOf (key n).toList := by
  rw [groupOfStem_eq, faces_groupOfEntries (.refl _)]

end

end FontCatalog.Catalog
