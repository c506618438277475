import FontCatalog.Proofs.Catalog.Files
import FontCatalog.Proofs.Catalog.Saving

/-! What a save has left when it is over. A save that failed leaves no file behind it and changes none; one that
succeeded leaves its document at the place to which its temporary file was renamed. -/
namespace FontCatalog.Catalog
set_option autoImplicit false
open FontCatalog.Path

namespace Saving

variable {t u v : FileTree} {s : Saving} {p : Path} {l target : Location} {seen seen' : FileTree → Prop}

/-! ## A save alone -/

theorem run_concat (faults : List (Option OsError)) (fault : Option OsError) (t : FileTree) (s : Saving) :
    run (faults ++ [fault]) t s = (run faults t s).2.step fault (run faults t s).1 := by
  induction faults generalizing t s with
  | nil => rfl
  | cons first faults ih => exact ih ..

theorem play_single (faults : List (Option OsError)) (t : FileTree) (s : Saving) :
    play (faults.map (0, ·)) (t, [s]) = ((run faults t s).1, [(run faults t s).2]) := by
  induction faults generalizing t s with
  | nil => rfl
  | cons fault faults ih => exact ih ..

theorem stepsLeft_run (faults : List (Option OsError)) (t : FileTree) (s : Saving) :
    (run faults t s).2.stepsLeft ≤ s.stepsLeft - faults.length := by
  induction faults generalizing t s with
  | nil => exact Nat.le_refl _
  | cons fault faults ih =>
    have hrun := ih (s.step fault t).1 (s.step fault t).2
    have hstep := stepsLeft_step fault t s
    rw [run, List.length_cons]
    dsimp only
    omega

theorem done_of_stepsLeft (h : s.stepsLeft = 0) : ∃ result, s.stage = .done result := by
  obtain ⟨c, p, stage⟩ := s
  cases stage with
  | done result => exact ⟨result, rfl⟩
  | directory m => simp [stepsLeft] at h
  | encode | create | fill | sync | rename => cases h

/-- A save that is over took a last step. -/
theorem last_step {faults : List (Option OsError)} {result : Except SaveError Unit}
    (hstart : ∀ r, s.stage ≠ .done r) (hend : (run faults t s).2.stage = .done result) :
    ∃ before fault, before <+: faults ∧ (∀ r, (run before t s).2.stage ≠ .done r) ∧
      run faults t s = (run before t s).2.step fault (run before t s).1 := by
  induction faults using List.reverseRecOn with
  | nil => exact absurd hend (hstart result)
  | append_singleton faults fault ih =>
    by_cases hopen : ∀ r, (run faults t s).2.stage ≠ .done r
    · exact ⟨faults, fault, List.prefix_append .., hopen, run_concat ..⟩
    · simp only [not_forall, not_not] at hopen
      obtain ⟨r, hdone⟩ := hopen
      rw [run_concat, step_of_done hdone] at hend ⊢
      obtain ⟨before, last, hbefore, hlast⟩ := ih hend
      exact ⟨before, last, hbefore.trans (List.prefix_append ..), hlast⟩

/-! ## Reading what was saved -/

theorem deserialize_of_serialize? {faces : List Face} {document : Bytes}
    (h : (build faces).serialize? = some document) : deserialize document = .ok (build faces) := by
  obtain ⟨vs, hvs, rfl⟩ := Option.map_eq_some_iff.1 h
  rw [(written_of_facesToJson? hvs).deserialize, build_faces]

theorem load_of_locate {faces : List Face} {document : Bytes} (h : (build faces).serialize? = some document)
    (hlocate : t.locate true p = .ok ⟨l, some (.file ⟨document.toArray⟩)⟩) : load t p = .ok (build faces) := by
  have hread : t.read p = .ok ⟨document.toArray⟩ := by rw [FileTree.read, FileTree.status, hlocate]
  rw [load, hread]
  dsimp only
  rw [toList_toArray, deserialize_of_serialize? h]

/-- Whether `p` leads to a place without passing through what is there. -/
def LeadsTo (t : FileTree) (p : Path) (l : Location) : Prop :=
  (t.erase l).locate false p = .ok ⟨l, none⟩

/-- A file that was renamed to where `p` says is found there, unless it took the place of a link on the way. -/
theorem locate_renamed {data : ByteArray} {n : Option Node} (hl : v.get? l = some (.file data))
    (hlocate : v.locate false p = .ok ⟨target, n⟩) (hn : n ≠ some .directory)
    (hu : u = (v.erase l).insert target (.file data)) :
    u.locate true p = .ok ⟨target, some (.file data)⟩ ∨ (∃ x, n = some (.link x)) ∧ ¬ LeadsTo u p target := by
  have hget := FileTree.get?_of_locate hlocate
  have hroot := FileTree.ne_root_of_get? hget hn
  have hthere : u.get? target = some (.file data) := by rw [hu, FileTree.get?_insert_self hroot]
  by_cases hleaf : FileTree.IsLeaf n
  · have hpasses : v.Passes u := by
      intro k hk
      have hkl : k ≠ l := by
        rintro rfl
        exact hk (by rw [hl]; trivial)
      have hkt : k ≠ target := by
        rintro rfl
        exact hk (by rwa [hget])
      rw [hu, FileTree.get?_insert_of_ne hkt, FileTree.get?_erase_of_ne hkl]
    have hhere : u.here = v.here := by rw [hu]; rfl
    exact .inl (FileTree.locate_redirected hlocate hleaf hpasses hhere hthere nofun)
  · have hlink : ∃ x, n = some (.link x) := by
      cases n with
      | none => exact absurd trivial hleaf
      | some m =>
        cases m with
        | file => exact absurd trivial hleaf
        | link x => exact ⟨x, rfl⟩
        | directory => exact absurd rfl hn
    by_cases hleads : LeadsTo u p target
    · have hpasses : (u.erase target).Passes u := by
        intro k hk
        have hkt : k ≠ target := by
          rintro rfl
          exact hk (by rw [FileTree.get?_erase_self hroot]; trivial)
        exact (FileTree.get?_erase_of_ne hkt u).symm
      exact .inl (FileTree.locate_redirected hleads trivial hpasses rfl hthere nofun)
    · exact .inr ⟨hlink, hleads⟩

/-! ## All or nothing -/

/-- The trees at the moments of one save. -/
def While (faults : List (Option OsError)) (t : FileTree) (s : Saving) (v : FileTree) : Prop :=
  ∃ earlier, earlier <+: faults ∧ v = (run earlier t s).1

/-- Whether a place is as before, or a directory that was made on the way to `p`. -/
def Kept (seen : FileTree → Prop) (p : Path) (t u : FileTree) (k : Location) : Prop :=
  u.get? k = t.get? k ∨ NewDirectory seen p t u k

/-- What a save alone leaves in `u` when it began in `t`. -/
def Leaves (seen : FileTree → Prop) (faces : List Face) (p : Path) (t u : FileTree) :
    Except SaveError Unit → Prop
  | .error _ => ∀ k, Kept seen p t u k
  | .ok () => ∃ v target document,
      seen v ∧ v.renameTarget p = .ok target ∧ (build faces).serialize? = some document ∧
      u.get? target = some (.file ⟨document.toArray⟩) ∧ (∀ k, k ≠ target → Kept seen p t u k) ∧
      (load u p = .ok (build faces) ∨ (∃ x, t.get? target = some (.link x)) ∧ ¬ LeadsTo u p target)

theorem accounted_run (faces : List Face) (p : Path) (t : FileTree) (faults : List (Option OsError)) :
    Accounted t (While faults t (.start (build faces) p)) p.fileName?
      ((run faults t (.start (build faces) p)).1, [(run faults t (.start (build faces) p)).2]) := by
  have hstart : ∀ s ∈ [start (build faces) p], s = .start s.catalog s.path ∧ s.path.fileName? = p.fileName? :=
    List.forall_mem_singleton.2 ⟨rfl, rfl⟩
  have hplay := @accounted_play t _ _ hstart (faults.map (0, ·))
  rw [play_single] at hplay
  refine hplay.mono fun v hv => ?_
  obtain ⟨earlier, hearlier, rfl⟩ := hv
  rw [List.prefix_iff_eq_take.1 hearlier, ← List.map_take, play_single]
  exact ⟨_, List.take_prefix .., rfl⟩

theorem run_kept (faults : List (Option OsError)) (t : FileTree) (s : Saving) :
    (run faults t s).2.path = s.path ∧ (run faults t s).2.catalog = s.catalog := by
  induction faults generalizing t s with
  | nil => exact ⟨rfl, rfl⟩
  | cons fault faults ih =>
    obtain ⟨hpath, hcatalog⟩ := step_kept fault t s
    obtain ⟨hrest, hsame⟩ := ih (s.step fault t).1 (s.step fault t).2
    exact ⟨hrest.trans hpath, hsame.trans hcatalog⟩

/-- While a save is under way there is nothing new but directories and its temporary file. -/
theorem kept_of_open {name : Option Bytes} (h : Accounted t seen name (v, [s]))
    (hopen : s.stage ≠ .done (.ok ())) {k : Location} (hk : s.stage.temporary? ≠ some k) :
    Kept seen s.path t v k := by
  cases h.places k with
  | same hsame => exact .inl hsame
  | directory ha hdirectory =>
    rw [List.mem_singleton.1 ha] at hdirectory
    exact .inr hdirectory
  | temporary ha htemporary =>
    rw [List.mem_singleton.1 ha] at htemporary
    exact absurd htemporary hk
  | saved ha hend =>
    rw [List.mem_singleton.1 ha] at hend
    exact absurd hend hopen

theorem Kept.mono {k : Location} (h : Kept seen p t u k) (hseen : ∀ v, seen v → seen' v) : Kept seen' p t u k :=
  h.imp_right fun h => h.mono hseen

/-- The last step of a save that succeeds changes two places, that of the temporary file and the target. -/
theorem leaves_of_rename {faces : List Face} {document : Bytes} (hseen : seen v) (hl : t.get? l = none)
    (hkept : ∀ k, k ≠ l → Kept seen p t v k) (hdocument : (build faces).serialize? = some document)
    (hget : v.get? l = some (.file ⟨document.toArray⟩)) (hname : l.getLast? ≠ p.fileName?)
    (htarget : v.renameTarget p = .ok target) :
    Leaves seen faces p t ((v.erase l).insert target (.file ⟨document.toArray⟩)) (.ok ()) := by
  obtain ⟨⟨n, hlocate, hn⟩, hlast, -⟩ := FileTree.renameTarget_eq_ok htarget
  have hthere := FileTree.get?_of_locate hlocate
  have hroot := FileTree.ne_root_of_get? hget nofun
  have htop := FileTree.ne_root_of_get? hthere hn
  have hne : target ≠ l := by
    rintro rfl
    exact hname hlast
  refine ⟨v, target, document, hseen, htarget, hdocument, FileTree.get?_insert_self htop .., ?_, ?_⟩
  · intro k hk
    by_cases hkl : k = l
    · subst hkl
      left
      rw [FileTree.get?_insert_of_ne hk, FileTree.get?_erase_self hroot, hl]
    · have hsame : ((v.erase l).insert target (.file ⟨document.toArray⟩)).get? k = v.get? k := by
        rw [FileTree.get?_insert_of_ne hk, FileTree.get?_erase_of_ne hkl]
      rw [Kept, NewDirectory, hsame]
      exact hkept k hkl
  · refine (locate_renamed hget hlocate hn rfl).imp (load_of_locate hdocument) ?_
    rintro ⟨⟨x, rfl⟩, hleads⟩
    refine ⟨⟨x, ?_⟩, hleads⟩
    rcases hkept target hne with hsame | ⟨-, hdirectory, -⟩
    · rw [← hsame, hthere]
    · rw [hthere] at hdirectory
      cases hdirectory

theorem start_open (c : Catalog) (p : Path) (result : Except SaveError Unit) : (start c p).stage ≠ .done result := by
  intro h
  rw [start] at h
  dsimp only at h
  split at h <;> cases h

theorem leaves_of_run {faces : List Face} {faults : List (Option OsError)} {result : Except SaveError Unit}
    (hend : (run faults t (.start (build faces) p)).2.stage = .done result) :
    Leaves (While faults t (.start (build faces) p)) faces p t (run faults t (.start (build faces) p)).1 result := by
  cases result with
  | error e =>
    intro k
    have hpath : (run faults t (.start (build faces) p)).2.path = p := (run_kept ..).1
    have hkept := kept_of_open (k := k) (accounted_run faces p t faults) (by rw [hend]; exact nofun) (by rw [hend]; exact nofun)
    rwa [hpath] at hkept
  | ok =>
    obtain ⟨before, fault, hbefore, hopen, hlast⟩ := last_step (start_open _ _) hend
    have haccounted := accounted_run faces p t before
    obtain ⟨hpath, hcatalog⟩ := run_kept before t (.start (build faces) p)
    have hmoment : While faults t (.start (build faces) p) (run before t (.start (build faces) p)).1 :=
      ⟨before, hbefore, rfl⟩
    have hseen : ∀ w, While before t (.start (build faces) p) w → While faults t (.start (build faces) p) w :=
      fun w ⟨earlier, hearlier, hw⟩ => ⟨earlier, hearlier.trans hbefore, hw⟩
    rw [hlast] at hend ⊢
    generalize run before t (.start (build faces) p) = w at *
    obtain ⟨v, s⟩ := w
    have hself : s ∈ [s] := List.mem_singleton_self s
    have hstep := step_spec (haccounted.holds s hself) hopen fault
    generalize s.step fault v = w at *
    cases hstep with
    | still _ hopen => exact absurd hend hopen
    | directory _ _ hopen => exact absurd hend hopen
    | create | fill | drop => cases hend
    | @rename document l target hstage hdocument hname hl htarget =>
      have htemporary : s.stage.temporary? = some l := by rw [hstage]; rfl
      have hpath : s.path = p := hpath
      have hcatalog : s.catalog = build faces := hcatalog
      rw [hcatalog] at hdocument
      rw [hpath] at htarget hname
      refine leaves_of_rename hmoment (haccounted.fresh s hself l htemporary) (fun k hk => ?_) hdocument hl hname htarget
      have hkept := kept_of_open (k := k) haccounted (hopen _) (by simpa [htemporary] using hk.symm)
      rw [hpath] at hkept
      exact hkept.mono hseen

/-- Several saves that have not begun. -/
def begun (saves : List (List Face × Path)) (t : FileTree) : FileTree × List Saving :=
  (t, saves.map fun s => .start (build s.1) s.2)

/-- What stands at a place after some turns of saves to files of one name. -/
inductive Stands (saves : List (List Face × Path)) (name : Option Bytes) (t : FileTree)
    (turns : List (Nat × Option OsError)) (k : Location) : Prop
  | before (h : (play turns (begun saves t)).1.get? k = t.get? k)
  | directory {s : List Face × Path} (hs : s ∈ saves)
    (h : NewDirectory (During turns (begun saves t)) s.2 t (play turns (begun saves t)).1 k)
  | temporary {s : Saving} (hs : s ∈ (play turns (begun saves t)).2) (hk : s.stage.temporary? = some k)
    (hname : k.getLast? ≠ name)
  | whole {s : List Face × Path} {document : Bytes} (hs : s ∈ saves) (hname : k.getLast? = name)
    (hdocument : (build s.1).serialize? = some document)
    (h : (play turns (begun saves t)).1.get? k = some (.file ⟨document.toArray⟩))

theorem stands_of_play {saves : List (List Face × Path)} {name : Option Bytes}
    (h : ∀ s ∈ saves, s.2.fileName? = name) (t : FileTree) (turns : List (Nat × Option OsError)) (k : Location) :
    Stands saves name t turns k := by
  have haccounted : Accounted t (During turns (begun saves t)) name (play turns (begun saves t)) := by
    refine accounted_play (fun s hs => ?_) turns
    obtain ⟨x, hx, rfl⟩ := List.mem_map.1 hs
    exact ⟨rfl, h x hx⟩
  have hone {a : Saving} (ha : a ∈ (play turns (begun saves t)).2) :
      ∃ s ∈ saves, a.path = s.2 ∧ a.catalog = build s.1 := by
    obtain ⟨b, hb, hpath, hcatalog⟩ := mem_play ha
    obtain ⟨s, hs, rfl⟩ := List.mem_map.1 hb
    exact ⟨s, hs, hpath, hcatalog⟩
  cases haccounted.places k with
  | same hsame => exact .before hsame
  | directory ha hdirectory =>
    obtain ⟨s, hs, hpath, -⟩ := hone ha
    rw [hpath] at hdirectory
    exact .directory hs hdirectory
  | temporary ha hk =>
    refine .temporary ha hk ?_
    rw [← haccounted.named _ ha]
    exact ((haccounted.holds _ ha).temporary hk).1
  | saved ha _ hdocument hname hget =>
    obtain ⟨s, hs, -, hcatalog⟩ := hone ha
    rw [hcatalog] at hdocument
    rw [haccounted.named _ ha] at hname
    exact .whole hs hname hdocument hget

theorem run_done {p : Path} {faults : List (Option OsError)} (h : stepBound p ≤ faults.length) (c : Catalog)
    (t : FileTree) : ∃ result, (run faults t (.start c p)).2.stage = .done result := by
  have hstart := stepsLeft_start c p
  have hrun := stepsLeft_run faults t (.start c p)
  exact done_of_stepsLeft (by omega)

end Saving

open Saving

/-- However it goes, a save alone comes to an end and leaves all or nothing; and at every moment of several saves
to files of one name there is, at each place of that name, what was there before, a directory made on the way, or
the whole document of one of them. -/
theorem save_atomic :
    (∀ (faces : List Face) (p : Path) (t : FileTree) (faults : List (Option OsError)),
      stepBound p ≤ faults.length → ∃ result, (run faults t (.start (build faces) p)).2.stage = .done result ∧
        Leaves (While faults t (.start (build faces) p)) faces p t (run faults t (.start (build faces) p)).1 result) ∧
    ∀ (saves : List (List Face × Path)) (name : Option Bytes), (∀ s ∈ saves, s.2.fileName? = name) →
      ∀ (t : FileTree) (turns : List (Nat × Option OsError)) (k : Location), Stands saves name t turns k := by
  constructor
  · intro faces p t faults h
    obtain ⟨result, hend⟩ := run_done h (build faces) t
    exact ⟨result, hend, leaves_of_run hend⟩
  · intro saves name h t turns k
    exact stands_of_play h t turns k

theorem save_atomic_spellings :
    (∃ result,
      (run (List.replicate 20 none) {} (.start (build []) (.ofString "d/x"))).2.stage = .done result ∧
        Leaves (While (List.replicate 20 none) {} (.start (build []) (.ofString "d/x"))) [] (.ofString "d/x") {}
          (run (List.replicate 20 none) {} (.start (build []) (.ofString "d/x"))).1 result) ∧
    Stands [([], .ofString "x"), ([{ path := .ofString "/f/a.ttf", index := 0 }], .ofString "./x")] (some (Text.encode "x")) {}
      [(0, none), (1, none), (1, some .denied), (0, none)] [Text.encode "x"] :=
  ⟨save_atomic.1 [] (.ofString "d/x") {} (List.replicate 20 none) (by decide),
    save_atomic.2 [([], .ofString "x"), ([{ path := .ofString "/f/a.ttf", index := 0 }], .ofString "./x")]
      (some (Text.encode "x")) (by decide) {} [(0, none), (1, none), (1, some .denied), (0, none)]
      [Text.encode "x"]⟩

/-- A tree with a link in which `x/../x` names the link and goes through it. -/
def linkedTree : FileTree where
  nodes := [([Text.encode "d"], .directory), ([Text.encode "x"], .link (.ofString "d"))]

/-- A link that the path itself goes through gives way to the file, which then cannot be read; and a directory on
the way that has the name of the file takes its place. -/
theorem save_through_target :
    ((save (build []) linkedTree (.ofString "x/../x")).2 = .ok () ∧
      load (save (build []) linkedTree (.ofString "x/../x")).1 (.ofString "x/../x") =
        .error (.io (.ofString "x/../x") .notDirectory)) ∧
    ((save (build []) {} (.ofString "a/../a")).2 = .error ⟨.ofString "a/../a", .io .isDirectory⟩ ∧
      ({} : FileTree).get? [Text.encode "a"] = none ∧
      (save (build []) {} (.ofString "a/../a")).1.get? [Text.encode "a"] = some .directory) := by
  have hread : (save (build []) linkedTree (.ofString "x/../x")).1.read (.ofString "x/../x") = .error .notDirectory := by
    decide +kernel
  have hload : load (save (build []) linkedTree (.ofString "x/../x")).1 (.ofString "x/../x") =
      .error (.io (.ofString "x/../x") .notDirectory) := by
    rw [load, hread]
  exact ⟨⟨by decide +kernel, hload⟩, by decide +kernel⟩

end FontCatalog.Catalog
