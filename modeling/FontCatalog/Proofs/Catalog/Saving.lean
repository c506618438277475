import FontCatalog.Proofs.Catalog.SaveStep

/-! Saves, one or several at once, and what they leave in the tree. At every moment each place is as before, or
it is a directory made for one of the paths, a temporary file of a save under way, or the whole document of a
save that has ended. -/
namespace FontCatalog.Catalog
set_option autoImplicit false
open FontCatalog.Path

namespace Saving

/-! ## Accounts of places -/

/-- Where there was nothing there is a directory, made in one of the trees `seen` for a path that `p` goes
through. -/
def NewDirectory (seen : FileTree → Prop) (p : Path) (t u : FileTree) (k : Location) : Prop :=
  t.get? k = none ∧ u.get? k = some .directory ∧
    ∃ v q, seen v ∧ Above q p ∧ v.makeDirectory q = .ok (v.insert k .directory)

/-- How a place came to be as it is, seen from the tree `t` in which all saves began. -/
inductive Account (t : FileTree) (seen : FileTree → Prop) (w : FileTree × List Saving) (k : Location) : Prop
  | same (h : w.1.get? k = t.get? k)
  | directory {s : Saving} (hs : s ∈ w.2) (h : NewDirectory seen s.path t w.1 k)
  | temporary {s : Saving} (hs : s ∈ w.2) (h : s.stage.temporary? = some k)
  | saved {s : Saving} {document : Bytes} (hs : s ∈ w.2) (hend : s.stage = .done (.ok ()))
    (hdocument : s.catalog.serialize? = some document) (hname : k.getLast? = s.path.fileName?)
    (hget : w.1.get? k = some (.file ⟨document.toArray⟩))

/-- What holds at every moment of several saves to files of one name. -/
structure Accounted (t : FileTree) (seen : FileTree → Prop) (name : Option Bytes)
    (w : FileTree × List Saving) : Prop where
  named : ∀ s ∈ w.2, s.path.fileName? = name
  holds : ∀ s ∈ w.2, s.Holds w.1
  fresh : ∀ s ∈ w.2, ∀ l, s.stage.temporary? = some l → t.get? l = none
  apart : ∀ (i j : Nat) (a b : Saving) (l : Location), w.2[i]? = some a → w.2[j]? = some b →
    a.stage.temporary? = some l → b.stage.temporary? = some l → i = j
  places : ∀ k, Account t seen w k

variable {t u : FileTree} {seen seen' : FileTree → Prop} {name : Option Bytes} {w : FileTree × List Saving}
  {i : Nat} {s s' : Saving}

theorem NewDirectory.mono {p : Path} {k : Location} (h : NewDirectory seen p t u k)
    (hseen : ∀ v, seen v → seen' v) : NewDirectory seen' p t u k := by
  obtain ⟨hnone, hget, v, q, hv, hq, hmake⟩ := h
  exact ⟨hnone, hget, v, q, hseen v hv, hq, hmake⟩

theorem Account.mono {k : Location} (h : Account t seen w k) (hseen : ∀ v, seen v → seen' v) :
    Account t seen' w k := by
  cases h with
  | same h => exact .same h
  | directory hs h => exact .directory hs (h.mono hseen)
  | temporary hs h => exact .temporary hs h
  | saved hs hend hdocument hname hget => exact .saved hs hend hdocument hname hget

theorem Accounted.absent (h : Accounted t seen name w) {k : Location} (hk : w.1.get? k = none) :
    t.get? k = none := by
  cases h.places k with
  | same hsame => rw [← hsame, hk]
  | directory _ hnew => exact hnew.1
  | temporary hs htemporary => exact h.fresh _ hs _ htemporary
  | saved _ _ _ _ hget =>
    rw [hk] at hget
    cases hget

/-! ## One turn -/

theorem Step.kept (h : Step t s (u, s')) : s'.path = s.path ∧ s'.catalog = s.catalog := by
  cases h <;> exact ⟨rfl, rfl⟩

theorem Touch.before {k : Location} (h : Touch t s u s' k) (hk : s'.stage.temporary? = some k) :
    t.get? k = none ∨ s.stage.temporary? = some k := by
  cases h with
  | same _ htemporary => exact .inr (htemporary.2 hk)
  | directory _ hl _ _ => exact .inl hl
  | temporary hbefore _ => exact hbefore
  | gone hbefore _ => exact .inr hbefore
  | saved hend _ _ _ =>
    rw [hend] at hk
    cases hk

theorem Holds.frame (h : s.Holds t) (hframe : ∀ l, s.stage.temporary? = some l → u.get? l = t.get? l) :
    s.Holds u := by
  obtain ⟨c, p, stage⟩ := s
  cases stage with
  | directory | encode | create | done => exact h
  | fill document l =>
    obtain ⟨hdocument, hname, data, hget⟩ := h
    exact ⟨hdocument, hname, data, (hframe l rfl).trans hget⟩
  | sync l | rename l =>
    obtain ⟨hname, document, hdocument, hget⟩ := h
    exact ⟨hname, document, hdocument, (hframe l rfl).trans hget⟩

/-- A step leaves the temporary files of all other saves alone. -/
theorem Accounted.others (h : Accounted t seen name w) (hs : w.2[i]? = some s) (hstep : Step w.1 s (u, s'))
    {j : Nat} {a : Saving} {l : Location} (hj : j ≠ i) (ha : w.2[j]? = some a)
    (hl : a.stage.temporary? = some l) : u.get? l = w.1.get? l ∧ s'.stage.temporary? ≠ some l := by
  have hmem := List.mem_of_getElem? hs
  have hamem := List.mem_of_getElem? ha
  obtain ⟨hname, data, hget⟩ := (h.holds a hamem).temporary hl
  have hown : s.stage.temporary? ≠ some l := fun hown => hj (h.apart j i a s l ha hs hl hown)
  have htouch := hstep.touch (h.holds s hmem) l
  have hnew : s'.stage.temporary? ≠ some l := by
    intro hnew
    rcases htouch.before hnew with hnone | hold
    · rw [hget] at hnone
      cases hnone
    · exact hown hold
  refine ⟨?_, hnew⟩
  cases htouch with
  | same hget' _ => exact hget'
  | directory _ hnone _ _ =>
    rw [hget] at hnone
    cases hnone
  | temporary _ hafter => exact absurd hafter hnew
  | gone hbefore _ => exact absurd hbefore hown
  | saved _ _ hlast _ =>
    rw [h.named s hmem, ← h.named a hamem] at hlast
    exact absurd hlast hname

theorem getElem?_set_cases {l : List Saving} {j : Nat} {a b : Saving} (h : (l.set i b)[j]? = some a) :
    (j = i ∧ a = b) ∨ (j ≠ i ∧ l[j]? = some a) := by
  by_cases hji : i = j
  · subst hji
    rw [List.getElem?_set_self'] at h
    obtain ⟨_, -, rfl⟩ := Option.map_eq_some_iff.1 h
    exact .inl ⟨rfl, rfl⟩
  · rw [List.getElem?_set_ne hji] at h
    exact .inr ⟨Ne.symm hji, h⟩

theorem mem_set_cases {l : List Saving} {a b : Saving} (h : a ∈ l.set i b) :
    a = b ∨ ∃ j, j ≠ i ∧ l[j]? = some a := by
  obtain ⟨j, hj⟩ := List.mem_iff_getElem?.1 h
  rcases getElem?_set_cases hj with ⟨-, rfl⟩ | ⟨hji, ha⟩
  · exact .inl rfl
  · exact .inr ⟨j, hji, ha⟩

theorem mem_set_of_mem {l : List Saving} {a b : Saving} (hs : l[i]? = some s) (h : a ∈ l) :
    a = s ∨ a ∈ l.set i b := by
  obtain ⟨j, hj⟩ := List.mem_iff_getElem?.1 h
  by_cases hji : i = j
  · subst hji
    rw [hs] at hj
    exact .inl (Option.some.inj hj).symm
  · refine .inr (List.mem_of_getElem? (i := j) ?_)
    rw [List.getElem?_set_ne hji, hj]

theorem Accounted.place (h : Accounted t seen name w) (hs : w.2[i]? = some s)
    (hopen : ∀ result, s.stage ≠ .done result) (hstep : Step w.1 s (u, s')) (hseen : ∀ v, seen v → seen' v)
    (hnow : seen' w.1) (k : Location) : Account t seen' (u, w.2.set i s') k := by
  have hmem := List.mem_of_getElem? hs
  have hnew : s' ∈ w.2.set i s' := List.mem_set (List.getElem?_eq_some_iff.1 hs).1 s'
  obtain ⟨hpath, hcatalog⟩ := hstep.kept
  cases hstep.touch (h.holds s hmem) k with
  | same hget htemporary =>
    cases (h.places k).mono hseen with
    | same hsame => exact .same (hget.trans hsame)
    | directory ha hdirectory =>
      obtain ⟨hnone, hthere, hmade⟩ := hdirectory
      rcases mem_set_of_mem hs ha with rfl | ha
      · exact .directory hnew ⟨hnone, hget.trans hthere, hpath ▸ hmade⟩
      · exact .directory ha ⟨hnone, hget.trans hthere, hmade⟩
    | temporary ha hk =>
      rcases mem_set_of_mem hs ha with rfl | ha
      · exact .temporary hnew (htemporary.1 hk)
      · exact .temporary ha hk
    | saved ha hend hdocument hname hthere =>
      rcases mem_set_of_mem hs ha with rfl | ha
      · exact absurd hend (hopen _)
      · exact .saved ha hend hdocument hname (hget.trans hthere)
  | directory hq hl hget hmake =>
    exact .directory hnew ⟨h.absent hl, hget, w.1, _, hnow, hpath ▸ hq, hmake⟩
  | temporary _ hafter => exact .temporary hnew hafter
  | gone hbefore hget => exact .same (hget.trans (h.fresh s hmem k hbefore).symm)
  | saved hend hdocument hname hget =>
    exact .saved hnew hend hdocument (hpath ▸ hname) hget

theorem Accounted.step (h : Accounted t seen name w) (hs : w.2[i]? = some s)
    (hopen : ∀ result, s.stage ≠ .done result) (hstep : Step w.1 s (u, s')) (hseen : ∀ v, seen v → seen' v)
    (hnow : seen' w.1) : Accounted t seen' name (u, w.2.set i s') where
  named a ha := by
    rcases mem_set_cases ha with rfl | ⟨j, -, ha⟩
    · rw [hstep.kept.1]
      exact h.named s (List.mem_of_getElem? hs)
    · exact h.named a (List.mem_of_getElem? ha)
  holds a ha := by
    rcases mem_set_cases ha with rfl | ⟨j, hj, ha⟩
    · exact hstep.holds (h.holds s (List.mem_of_getElem? hs))
    · exact (h.holds a (List.mem_of_getElem? ha)).frame fun l hl => (h.others hs hstep hj ha hl).1
  fresh a ha l hl := by
    rcases mem_set_cases ha with rfl | ⟨j, -, ha⟩
    · have hmem := List.mem_of_getElem? hs
      rcases (hstep.touch (h.holds s hmem) l).before hl with hnone | hbefore
      · exact h.absent hnone
      · exact h.fresh s hmem l hbefore
    · exact h.fresh a (List.mem_of_getElem? ha) l hl
  apart j k a b l ha hb hal hbl := by
    rcases getElem?_set_cases ha with ⟨hj, rfl⟩ | ⟨hj, hold⟩
    · rcases getElem?_set_cases hb with ⟨hk, -⟩ | ⟨hk, hother⟩
      · rw [hj, hk]
      · exact absurd hal (h.others hs hstep hk hother hbl).2
    · rcases getElem?_set_cases hb with ⟨-, rfl⟩ | ⟨-, hother⟩
      · exact absurd hbl (h.others hs hstep hj hold hal).2
      · exact h.apart j k a b l hold hother hal hbl
  places := h.place hs hopen hstep hseen hnow

theorem Accounted.mono (h : Accounted t seen name w) (hseen : ∀ v, seen v → seen' v) :
    Accounted t seen' name w :=
  { h with places := fun k => (h.places k).mono hseen }

theorem Accounted.turn (h : Accounted t seen name w) (hseen : ∀ v, seen v → seen' v) (hnow : seen' w.1)
    (x : Nat × Option OsError) : Accounted t seen' name (turn w x) := by
  obtain ⟨v, saves⟩ := w
  rw [Saving.turn]
  split
  · exact h.mono hseen
  · next s hs =>
    by_cases hopen : ∀ result, s.stage ≠ .done result
    · exact h.step hs hopen (step_spec (h.holds s (List.mem_of_getElem? hs)) hopen x.2) hseen hnow
    · simp only [not_forall, not_not] at hopen
      obtain ⟨result, hdone⟩ := hopen
      obtain ⟨hi, rfl⟩ := List.getElem?_eq_some_iff.1 hs
      rw [step_of_done hdone]
      dsimp only
      rw [List.set_getElem_self hi]
      exact h.mono hseen

/-! ## Several saves -/

theorem step_kept (fault : Option OsError) (t : FileTree) (s : Saving) :
    (s.step fault t).2.path = s.path ∧ (s.step fault t).2.catalog = s.catalog := by
  unfold step
  repeat' split
  all_goals exact ⟨rfl, rfl⟩

theorem temporary?_start (c : Catalog) (p : Path) : (start c p).stage.temporary? = none := by
  rw [start]
  dsimp only
  split <;> rfl

theorem holds_start (c : Catalog) (p : Path) (t : FileTree) : (start c p).Holds t := by
  rw [Holds, start]
  dsimp only
  cases hparent : p.parent? with
  | none => trivial
  | some q =>
    obtain ⟨bs⟩ := q
    cases bs with
    | nil => trivial
    | cons b rest => exact ⟨.single hparent, List.forall_mem_nil _⟩

/-- The trees at the moments of some turns. -/
def During (turns : List (Nat × Option OsError)) (w : FileTree × List Saving) (v : FileTree) : Prop :=
  ∃ earlier, earlier <+: turns ∧ v = (play earlier w).1

theorem During.concat {turns : List (Nat × Option OsError)} {v : FileTree} (h : During turns w v)
    (x : Nat × Option OsError) : During (turns ++ [x]) w v := by
  obtain ⟨earlier, hearlier, rfl⟩ := h
  exact ⟨earlier, hearlier.trans (List.prefix_append ..), rfl⟩

theorem play_concat (turns : List (Nat × Option OsError)) (x : Nat × Option OsError)
    (w : FileTree × List Saving) : play (turns ++ [x]) w = turn (play turns w) x :=
  List.foldl_concat ..

theorem accounted_play {saves : List Saving}
    (hsaves : ∀ s ∈ saves, s = start s.catalog s.path ∧ s.path.fileName? = name)
    (turns : List (Nat × Option OsError)) :
    Accounted t (During turns (t, saves)) name (play turns (t, saves)) := by
  induction turns using List.reverseRecOn with
  | nil =>
    have htemporary : ∀ s ∈ saves, s.stage.temporary? = none := fun s hs => by
      rw [(hsaves s hs).1]
      exact temporary?_start ..
    exact {
      named := fun s hs => (hsaves s hs).2
      holds := fun s hs => by
        rw [(hsaves s hs).1]
        exact holds_start ..
      fresh := fun s hs l hl => by
        rw [htemporary s hs] at hl
        cases hl
      apart := fun i j a b l ha hb hal => by
        rw [htemporary a (List.mem_of_getElem? ha)] at hal
        cases hal
      places := fun k => .same rfl }
  | append_singleton turns x ih =>
    rw [play_concat]
    exact ih.turn (fun v hv => hv.concat x) ⟨turns, List.prefix_append .., rfl⟩ x

theorem mem_play {saves : List Saving} {a : Saving} {turns : List (Nat × Option OsError)}
    (h : a ∈ (play turns (t, saves)).2) : ∃ s ∈ saves, a.path = s.path ∧ a.catalog = s.catalog := by
  induction turns using List.reverseRecOn generalizing a with
  | nil => exact ⟨a, h, rfl, rfl⟩
  | append_singleton turns x ih =>
    rw [play_concat, Saving.turn] at h
    split at h
    · exact ih h
    · next b hb =>
      rcases mem_set_cases h with rfl | ⟨j, -, ha⟩
      · obtain ⟨s, hs, hpath, hcatalog⟩ := ih (List.mem_of_getElem? hb)
        obtain ⟨hkept, hsame⟩ := step_kept x.2 (play turns (t, saves)).1 b
        exact ⟨s, hs, hkept.trans hpath, hsame.trans hcatalog⟩
      · exact ih (List.mem_of_getElem? ha)

end Saving

end FontCatalog.Catalog
