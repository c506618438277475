import FontCatalog.FileTree.Change
import FontCatalog.Proofs.FileTree.Spelling

/-! What stands at each place of a tree after a change, and where a path leads then. A path that ends at a file
or at nothing passes only directories and links on its way, so it ends at the same place when something else is
put there. -/
namespace FontCatalog.FileTree
set_option autoImplicit false
open FontCatalog.Path

variable {t u : FileTree}

/-! ## Single places -/

theorem find_put (k l : Location) (n : Node) (nodes : List (Location × Node)) :
    find k (put l n nodes) = if k = l then some n else find k nodes := by
  induction nodes with
  | nil => simp [put, find, eq_comm]
  | cons e nodes ih =>
    obtain ⟨j, m⟩ := e
    by_cases hj : j = l
    · subst hj
      by_cases hk : k = j
      · simp [put, find, hk]
      · simp [put, find, hk, Ne.symm hk]
    · by_cases hk : j = k
      · subst hk
        simp [put, find, hj]
      · simp [put, find, hj, hk, ih]

theorem get?_insert_self {l : Location} (hl : l ≠ []) (t : FileTree) (n : Node) :
    (t.insert l n).get? l = some n := by
  rw [get?, if_neg hl, insert, find_put, if_pos rfl]

theorem get?_insert_of_ne {k l : Location} (h : k ≠ l) (t : FileTree) (n : Node) :
    (t.insert l n).get? k = t.get? k := by
  simp only [get?, insert, find_put, if_neg h]

theorem find_filter (k l : Location) (nodes : List (Location × Node)) :
    find k (nodes.filter fun e => e.1 ≠ l) = if k = l then none else find k nodes := by
  induction nodes with
  | nil => simp [find]
  | cons e nodes ih =>
    obtain ⟨j, m⟩ := e
    by_cases hj : j = l
    · subst hj
      rw [List.filter_cons_of_neg (by simp), ih]
      by_cases hk : k = j
      · simp [hk]
      · simp [find, hk, Ne.symm hk]
    · rw [List.filter_cons_of_pos (by simpa using hj), find, find, ih]
      by_cases hk : j = k
      · subst hk
        simp [hj]
      · simp [hk]

theorem get?_erase_self {l : Location} (hl : l ≠ []) (t : FileTree) : (t.erase l).get? l = none := by
  rw [get?, if_neg hl, erase, find_filter, if_pos rfl]

theorem get?_erase_of_ne {k l : Location} (h : k ≠ l) (t : FileTree) : (t.erase l).get? k = t.get? k := by
  rw [get?, get?, erase, find_filter, if_neg h]

theorem mem_of_find {l : Location} {n : Node} {nodes : List (Location × Node)} (h : find l nodes = some n) :
    (l, n) ∈ nodes := by
  induction nodes with
  | nil => cases h
  | cons e nodes ih =>
    rw [find] at h
    split at h
    · next hl =>
      injection h with h
      subst hl h
      exact List.mem_cons_self
    · exact List.mem_cons_of_mem _ (ih h)

theorem ne_root_of_get? {l : Location} {n : Option Node} (h : t.get? l = n) (hn : n ≠ some .directory) : l ≠ [] := by
  rintro rfl
  exact hn h.symm

/-! ## The end of a path -/

/-- Whether a search for a path tells what stands at the place where it ends. -/
def Reports (t : FileTree) (go : Location → List Bytes → Except OsError Place) : Prop :=
  ∀ l ps k n, go l ps = .ok ⟨k, n⟩ → t.get? k = n

theorem descend_reports {follow : Bool} {jump : Location → List Bytes → Except OsError Place}
    (hjump : t.Reports jump) : t.Reports (t.descend follow jump) := by
  intro l ps
  induction ps generalizing l with
  | nil =>
    intro k n h
    cases h
    rfl
  | cons piece rest ih =>
    intro k n h
    cases hpiece : componentOf piece with
    | none =>
      rw [descend_still hpiece] at h
      exact ih _ _ _ h
    | some c =>
      cases c with
      | root | here => cases isMove_of_componentOf hpiece
      | up =>
        rw [descend_up hpiece] at h
        exact ih _ _ _ h
      | name name =>
        rw [descend_name hpiece] at h
        split at h
        · cases h
        split at h
        · split at h <;> cases h
          assumption
        · exact ih _ _ _ h
        · split at h <;> cases h
          assumption
        · split at h
          · cases h
            assumption
          · exact hjump _ _ _ _ h

theorem resolve_reports (follow : Bool) (links : Nat) : t.Reports (t.resolve follow links) := by
  induction links with
  | zero => exact descend_reports nofun
  | succ links ih => exact descend_reports ih

/-- Whether a search that ends with the name `piece` ends at a place of that name. -/
def EndsAt (piece : Bytes) (go : Location → List Bytes → Except OsError Place) : Prop :=
  ∀ l before k n, go l (before ++ [piece]) = .ok ⟨k, n⟩ → k.getLast? = some piece

theorem descend_endsAt {piece : Bytes} (hpiece : componentOf piece = some (.name piece))
    {jump : Location → List Bytes → Except OsError Place} (hjump : EndsAt piece jump) :
    EndsAt piece (t.descend false jump) := by
  intro l before
  induction before generalizing l with
  | nil =>
    intro k n h
    have hlast : (l ++ [piece]).getLast? = some piece := List.getLast?_concat ..
    rw [List.nil_append, descend_name hpiece] at h
    split at h
    · cases h
    split at h
    · cases h
      exact hlast
    · cases h
      exact hlast
    · cases h
      exact hlast
    · cases h
      exact hlast
  | cons first before ih =>
    intro k n h
    have hmore : before ++ [piece] ≠ [] := List.concat_ne_nil piece before
    rw [List.cons_append] at h
    cases hfirst : componentOf first with
    | none =>
      rw [descend_still hfirst] at h
      exact ih _ _ _ h
    | some c =>
      cases c with
      | root | here => cases isMove_of_componentOf hfirst
      | up =>
        rw [descend_up hfirst] at h
        exact ih _ _ _ h
      | name name =>
        rw [descend_name hfirst] at h
        simp only [hmore, if_false, false_and] at h
        split at h
        · cases h
        split at h
        · cases h
        · exact ih _ _ _ h
        · cases h
        · next target _ =>
          rw [← List.append_assoc] at h
          exact hjump _ _ _ _ h

theorem resolve_endsAt {piece : Bytes} (hpiece : componentOf piece = some (.name piece)) (links : Nat) :
    EndsAt piece (t.resolve false links) := by
  induction links with
  | zero => exact descend_endsAt hpiece nofun
  | succ links ih => exact descend_endsAt hpiece ih

theorem locate_eq_ok_iff {follow : Bool} {p : Path} {place : Place} :
    t.locate follow p = .ok place ↔
      (p.bytes.contains 0 = false ∧ p.bytes ≠ [] ∧ p.bytes.length ≤ maxPath) ∧
        t.resolve follow maxLinks (if p.isAbsolute then [] else t.here) (pieces p.bytes) = .ok place := by
  unfold locate
  split
  · next hzero =>
    rw [hzero]
    exact iff_of_false nofun fun h => nomatch h.1.1
  · next hzero =>
    rw [Bool.not_eq_true] at hzero
    split
    · next hempty => exact iff_of_false nofun fun h => h.1.2.1 hempty
    · next hempty =>
      split
      · next hlong => exact iff_of_false nofun fun h => Nat.not_lt.2 h.1.2.2 hlong
      · next hlong => exact (and_iff_right ⟨hzero, hempty, Nat.not_lt.1 hlong⟩).symm

theorem get?_of_locate {follow : Bool} {p : Path} {l : Location} {n : Option Node}
    (h : t.locate follow p = .ok ⟨l, n⟩) : t.get? l = n :=
  resolve_reports follow maxLinks _ _ _ _ (locate_eq_ok_iff.1 h).2

/-! ## Another end -/

/-- Whether a path may end there only: a file, or nothing. -/
def IsLeaf : Option Node → Prop
  | none | some (.file _) => True
  | some _ => False

/-- Whether what paths can pass in `t` stands in `u` as well. -/
def Passes (t u : FileTree) : Prop := ∀ k, ¬ IsLeaf (t.get? k) → u.get? k = t.get? k

/-- A search that ends at `l`, at a file or at nothing, ends at `m` when that is put there. -/
def Redirected (l : Location) (m : Node) (jump go : Location → List Bytes → Except OsError Place) : Prop :=
  ∀ k ps n, IsLeaf n → jump k ps = .ok ⟨l, n⟩ → go k ps = .ok ⟨l, some m⟩

theorem descend_last {piece name : Bytes} (hpiece : componentOf piece = some (.name name))
    (hshort : ¬ maxName < name.length) {k : Location} {m : Node} (hl : t.get? (k ++ [name]) = some m)
    (hm : ∀ x, m ≠ .link x) {follow : Bool} {jump : Location → List Bytes → Except OsError Place} :
    t.descend follow jump k [piece] = .ok ⟨k ++ [name], some m⟩ := by
  rw [descend_name hpiece, if_neg hshort]
  cases m with
  | file data => simp only [hl, if_true]
  | link x => exact absurd rfl (hm x)
  | directory => simp only [hl, descend]

theorem descend_redirected {l : Location} {m : Node} (hpasses : t.Passes u) (hl : u.get? l = some m)
    (hm : ∀ x, m ≠ .link x) {follow : Bool} {jump go : Location → List Bytes → Except OsError Place}
    (hjump : Redirected l m jump go) : Redirected l m (t.descend follow jump) (u.descend true go) := by
  intro k ps
  induction ps generalizing k with
  | nil =>
    intro n hleaf h
    cases h
    rw [descend, hl]
  | cons piece rest ih =>
    intro n hleaf h
    cases hpiece : componentOf piece with
    | none =>
      rw [descend_still hpiece] at h ⊢
      exact ih _ _ hleaf h
    | some c =>
      cases c with
      | root | here => cases isMove_of_componentOf hpiece
      | up =>
        rw [descend_up hpiece] at h ⊢
        exact ih _ _ hleaf h
      | name name =>
        rw [descend_name hpiece] at h
        by_cases hlong : maxName < name.length
        · rw [if_pos hlong] at h
          cases h
        rw [if_neg hlong] at h
        cases hget : t.get? (k ++ [name]) with
        | none =>
          simp only [hget] at h
          split at h <;> cases h
          next hrest =>
          rw [hrest]
          exact descend_last hpiece hlong hl hm
        | some node =>
          cases node with
          | file data =>
            simp only [hget] at h
            split at h <;> cases h
            next hrest =>
            rw [hrest]
            exact descend_last hpiece hlong hl hm
          | directory =>
            have hu := hpasses (k ++ [name]) (by simp [hget, IsLeaf])
            rw [hget] at hu
            simp only [hget] at h
            rw [descend_name hpiece, if_neg hlong]
            simp only [hu]
            exact ih _ _ hleaf h
          | link target =>
            have hu := hpasses (k ++ [name]) (by simp [hget, IsLeaf])
            rw [hget] at hu
            simp only [hget] at h
            rw [descend_name hpiece, if_neg hlong]
            simp only [hu, Bool.true_eq_false, and_false, if_false]
            split at h
            · cases h
              cases hleaf
            · exact hjump _ _ _ hleaf h

theorem resolve_redirected {l : Location} {m : Node} (hpasses : t.Passes u) (hl : u.get? l = some m)
    (hm : ∀ x, m ≠ .link x) (follow : Bool) (links : Nat) :
    Redirected l m (t.resolve follow links) (u.resolve true links) := by
  induction links with
  | zero => exact descend_redirected hpasses hl hm nofun
  | succ links ih => exact descend_redirected hpasses hl hm ih

theorem locate_redirected {follow : Bool} {p : Path} {l : Location} {n : Option Node}
    (h : t.locate follow p = .ok ⟨l, n⟩) (hleaf : IsLeaf n) (hpasses : t.Passes u) (hhere : u.here = t.here)
    {m : Node} (hl : u.get? l = some m) (hm : ∀ x, m ≠ .link x) : u.locate true p = .ok ⟨l, some m⟩ := by
  obtain ⟨hp, hresolve⟩ := locate_eq_ok_iff.1 h
  rw [← hhere] at hresolve
  exact locate_eq_ok_iff.2 ⟨hp, resolve_redirected hpasses hl hm follow maxLinks _ _ _ hleaf hresolve⟩

/-! ## Directories and renamed files -/

theorem makeDirectory_eq_ok {p : Path} (h : t.makeDirectory p = .ok u) :
    ∃ l, t.get? l = none ∧ u = t.insert l .directory := by
  unfold makeDirectory at h
  split at h
  · cases h
  · cases h
  · next l hlocate =>
    cases h
    exact ⟨l, get?_of_locate hlocate, rfl⟩

theorem trimSlashes_of_endsInSlash {p : Path} (h : endsInSlash p = false) : trimSlashes p = p := by
  obtain ⟨bytes⟩ := p
  have hlast : bytes.reverse.head? ≠ some slash := by
    rw [List.head?_reverse]
    simpa [endsInSlash] using h
  have hdrop : bytes.reverse.dropWhile (· == slash) = bytes.reverse := by
    cases hreverse : bytes.reverse with
    | nil => rfl
    | cons b rest =>
      rw [hreverse] at hlast
      exact List.dropWhile_cons_of_neg (by simpa using hlast)
  simp only [trimSlashes, hdrop, List.reverse_reverse]
  split <;> rfl

theorem componentOf_of_endsInDots {p : Path} (h : endsInDots p = false) :
    ∃ before piece, pieces (trimSlashes p).bytes = before ++ [piece] ∧ componentOf piece = some (.name piece) := by
  unfold endsInDots at h
  split at h
  · next piece hlast =>
    obtain ⟨before, hpieces⟩ := List.getLast?_eq_some_iff.1 hlast
    refine ⟨before, piece, hpieces, ?_⟩
    simp only [Bool.or_eq_false_iff, decide_eq_false_iff_not] at h
    simp [componentOf, h]
  · cases h

/-- A file is renamed to a place of the name that the path ends with. -/
theorem renameTarget_eq_ok {p : Path} {l : Location} (h : t.renameTarget p = .ok l) :
    (∃ n, t.locate false p = .ok ⟨l, n⟩ ∧ n ≠ some .directory) ∧ l.getLast? = p.fileName? ∧ p.fileName? ≠ none := by
  unfold renameTarget at h
  split at h
  · cases h
  next k n hlocate =>
  split at h
  · cases h
  next hdots =>
  split at h
  · cases h
  next hslash =>
  split at h
  · cases h
  next hdirectory =>
  cases h
  simp only [Bool.not_eq_true] at hdots hslash
  obtain ⟨before, piece, hpieces, hpiece⟩ := componentOf_of_endsInDots hdots
  rw [trimSlashes_of_endsInSlash hslash] at hpieces hlocate
  have hlast : l.getLast? = some piece := by
    have hresolve := (locate_eq_ok_iff.1 hlocate).2
    rw [hpieces] at hresolve
    exact resolve_endsAt hpiece maxLinks _ _ _ _ hresolve
  have hname : p.fileName? = some piece := by
    have hcomponents : p.components.getLast? = some (.name piece) := by
      rw [components_eq, hpieces, moves, List.filterMap_append, List.filterMap_cons_some hpiece,
        List.filterMap_nil, ← List.append_assoc, List.getLast?_concat]
    rw [fileName?, hcomponents]
  exact ⟨⟨n, hlocate, hdirectory⟩, hlast.trans hname.symm, by simp [hname]⟩

theorem rename_eq_ok {source : Location} {p : Path} (h : t.rename source p = .ok u) :
    ∃ n l, t.get? source = some n ∧ t.renameTarget p = .ok l ∧
      u = if l = source then t else (t.erase source).insert l n := by
  unfold rename at h
  split at h
  · cases h
  next n hget =>
  split at h
  · cases h
  next l htarget =>
  cases h
  exact ⟨n, l, hget, htarget, rfl⟩

/-! ## Read and written files -/

theorem passes_insert {l : Location} (hleaf : IsLeaf (t.get? l)) (n : Node) : t.Passes (t.insert l n) := by
  intro k hk
  refine get?_insert_of_ne ?_ t n
  rintro rfl
  exact hk hleaf

theorem read_eq_ok_iff {p : Path} {data : ByteArray} :
    t.read p = .ok data ↔ ∃ l, t.locate true p = .ok ⟨l, some (.file data)⟩ := by
  unfold read status
  constructor
  · intro h
    split at h
    · cases h
    · next hstatus =>
      split at hstatus <;> cases hstatus
      cases h
      exact ⟨_, by assumption⟩
    · cases h
    · cases h
  · rintro ⟨l, h⟩
    rw [h]

/-- What was read before is read when something is put where nothing was. -/
theorem read_insert {l : Location} (hl : t.get? l = none) (m : Node) {p : Path} {data : ByteArray}
    (h : t.read p = .ok data) : (t.insert l m).read p = .ok data := by
  obtain ⟨k, hlocate⟩ := read_eq_ok_iff.1 h
  have hget := get?_of_locate hlocate
  have hne : k ≠ l := by
    rintro rfl
    cases hl.symm.trans hget
  have hpasses : t.Passes (t.insert l m) := passes_insert (by rw [hl]; trivial) m
  have hthere : (t.insert l m).get? k = some (.file data) := by rw [get?_insert_of_ne hne, hget]
  exact read_eq_ok_iff.2 ⟨k, locate_redirected hlocate trivial hpasses rfl hthere nofun⟩

/-- What is written where a path leads to a file or to nothing is what is read there. -/
theorem write_of_leaf {p : Path} {l : Location} {n : Option Node} (hslash : endsInSlash p = false)
    (hlocate : t.locate true p = .ok ⟨l, n⟩) (hleaf : IsLeaf n) (data : ByteArray) :
    t.write p data = .ok (t.insert l (.file data)) ∧ (t.insert l (.file data)).read p = .ok data := by
  have hget := get?_of_locate hlocate
  have hroot : l ≠ [] := by
    refine ne_root_of_get? hget ?_
    rintro rfl
    exact hleaf
  have hthere := get?_insert_self hroot t (.file data)
  refine ⟨?_, read_eq_ok_iff.2 ⟨l, ?_⟩⟩
  · rw [write, trimSlashes_of_endsInSlash hslash, hslash, Bool.not_false, hlocate]
    cases n with
    | none => rfl
    | some node =>
      cases node with
      | file => rfl
      | link | directory => cases hleaf
  · exact locate_redirected hlocate hleaf (passes_insert (by rwa [hget]) _) rfl hthere nofun

end FontCatalog.FileTree
