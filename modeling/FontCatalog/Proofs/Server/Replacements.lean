import FontCatalog.Server
import Mathlib.Data.List.Infix

/-! The replacements of a server's catalog. The catalogs that are asked for, one after another, are the
versions of what is served. If each replacement is asked for when all before it are done, then the
version that is installed never goes back, and the generation tells how many replacements are done. -/
namespace FontCatalog
set_option autoImplicit false

namespace Replacement

def catalog : Replacement → Catalog
  | .asked c | .installed c | .counted c _ => c

def isInstalled : Replacement → Bool
  | .asked _ => false
  | .installed _ | .counted _ _ => true

def isCounted : Replacement → Bool
  | .asked _ | .installed _ => false
  | .counted _ _ => true

theorem isInstalled_of_isCounted {r : Replacement} (h : r.isCounted = true) : r.isInstalled = true := by
  cases r with
  | asked c | installed c => cases h
  | counted c generation => rfl

theorem step_catalog (s : Service) (r : Replacement) : (r.step s).2.catalog = r.catalog := by
  cases r <;> rfl

theorem step_isInstalled (s : Service) (r : Replacement) : (r.step s).2.isInstalled = true := by
  cases r <;> rfl

/-- A replacement that is done changes nothing any more. -/
theorem step_counted (s : Service) {r : Replacement} (h : r.isCounted = true) : r.step s = (s, r) := by
  cases r with
  | asked c | installed c => cases h
  | counted c generation => rfl

end Replacement

namespace Server

/-- No replacement is under way. -/
def Still (s : Server) : Prop := ∀ r ∈ s.replacements, r.isCounted = true

/-- Each replacement is asked for when all before it are done. -/
def Sequential : Server → List ServerMove → Prop
  | _, [] => True
  | s, m :: moves => (∀ c, m = .ask c → s.Still) ∧ Sequential (s.step m) moves

/-- What was served at first, and all that was asked for since. -/
def versions (c : Catalog) (s : Server) : List Catalog := c :: s.replacements.map (·.catalog)

/-- How many of the catalogs that were asked for have been installed. -/
def version (s : Server) : Nat := s.replacements.countP (·.isInstalled)

/-! ## Steps -/

/-- A move asks for a replacement, is a step of one, or does not concern them. -/
theorem step_cases (s : Server) (m : ServerMove) :
    ((s.step m).replacements = s.replacements ∧ (s.step m).service.catalog = s.service.catalog ∧
      (s.step m).service.generation = s.service.generation) ∨
    (∃ c, m = .ask c ∧ s.step m = { s with replacements := s.replacements ++ [.asked c] }) ∨
    ∃ before r after, s.replacements = before ++ r :: after ∧
      s.step m = { s with
        service := (r.step s.service).1
        replacements := before ++ (r.step s.service).2 :: after } := by
  cases m with
  | accept =>
    refine .inl ?_
    rw [step]
    split <;> exact ⟨rfl, rfl, rfl⟩
  | ask c => exact .inr (.inl ⟨c, rfl, rfl⟩)
  | replace number =>
    cases hr : s.replacements[number]? with
    | none =>
      have hstep : s.step (.replace number) = s := by rw [step, hr]
      rw [hstep]
      exact .inl ⟨rfl, rfl, rfl⟩
    | some r =>
      obtain ⟨hnumber, hr'⟩ := List.getElem?_eq_some_iff.1 hr
      refine .inr (.inr ⟨s.replacements.take number, r, s.replacements.drop (number + 1), ?_, ?_⟩)
      · rw [← hr', List.getElem_cons_drop, List.take_append_drop]
      · rw [step, hr]
        dsimp only
        rw [List.set_eq_take_append_cons_drop, if_pos hnumber]
  | deliver | hangUp | collect | advance | notice | cancel => exact .inl ⟨rfl, rfl, rfl⟩

theorem step_version (s : Server) (m : ServerMove) : s.version ≤ (s.step m).version := by
  unfold version
  rcases step_cases s m with ⟨hsame, -, -⟩ | ⟨c, -, hstep⟩ | ⟨before, r, after, hparts, hstep⟩
  · rw [hsame]
  · rw [hstep, List.countP_append]
    exact Nat.le_add_right ..
  · rw [hstep, hparts, List.countP_append, List.countP_append, List.countP_cons, List.countP_cons,
      if_pos (r.step_isInstalled s.service)]
    split <;> omega

theorem step_versions (c : Catalog) (s : Server) (m : ServerMove) : s.versions c <+: (s.step m).versions c := by
  unfold versions
  rcases step_cases s m with ⟨hsame, -, -⟩ | ⟨d, -, hstep⟩ | ⟨before, r, after, hparts, hstep⟩
  · rw [hsame]
  · rw [hstep, List.map_append]
    exact ⟨_, rfl⟩
  · rw [hstep, hparts, List.map_append, List.map_append, List.map_cons, List.map_cons, Replacement.step_catalog]

/-- The generation is the number of replacements that are done. -/
theorem step_generation {s : Server} (h : s.service.generation = s.replacements.countP (·.isCounted))
    (m : ServerMove) :
    (s.step m).service.generation = (s.step m).replacements.countP (·.isCounted) := by
  rcases step_cases s m with ⟨hsame, -, hgeneration⟩ | ⟨c, -, hstep⟩ | ⟨before, r, after, hparts, hstep⟩
  · rw [hsame, hgeneration, h]
  · rw [hstep, List.countP_append, ← h]
    rfl
  · rw [hparts, List.countP_append, List.countP_cons] at h
    rw [hstep, List.countP_append, List.countP_cons]
    cases r with
    | asked c => exact h
    | installed c => exact congrArg (· + 1) h
    | counted c generation => exact h

/-- All replacements but the last are done, and the version that was installed last is served. -/
structure Current (c : Catalog) (s : Server) : Prop where
  past : ∀ r ∈ s.replacements.dropLast, r.isCounted = true
  installed : (s.versions c)[s.version]? = some s.service.catalog

theorem getElem?_of_prefix {cs ds : List Catalog} (h : cs <+: ds) {i : Nat} {c : Catalog}
    (hc : cs[i]? = some c) : ds[i]? = some c := by
  obtain ⟨hi, rfl⟩ := List.getElem?_eq_some_iff.1 hc
  exact List.prefix_iff_getElem?.1 h i hi

theorem countP_isInstalled {rs : List Replacement} (h : ∀ r ∈ rs, r.isCounted = true) :
    rs.countP (·.isInstalled) = rs.length :=
  List.countP_eq_length.2 fun r hr => r.isInstalled_of_isCounted (h r hr)

theorem step_current {c : Catalog} {s : Server} (h : s.Current c) {m : ServerMove}
    (hm : ∀ d, m = .ask d → s.Still) : (s.step m).Current c := by
  rcases step_cases s m with ⟨hsame, hcatalog, -⟩ | ⟨d, hd, hstep⟩ | ⟨before, r, after, hparts, hstep⟩
  · constructor
    · rw [hsame]
      exact h.past
    · rw [versions, version, hsame, hcatalog]
      exact h.installed
  · rw [hstep]
    constructor
    · rw [List.dropLast_concat]
      exact hm d hd
    · have hversion : version { s with replacements := s.replacements ++ [.asked d] } = s.version := by
        rw [version, List.countP_append]
        rfl
      have hlonger := step_versions c s m
      rw [hstep] at hlonger
      rw [hversion]
      exact getElem?_of_prefix hlonger h.installed
  · by_cases hcounted : r.isCounted = true
    · have hsame : s.step m = s := by
        rw [hstep, Replacement.step_counted s.service hcounted, ← hparts]
      rwa [hsame]
    · -- only the last replacement may still be under way
      obtain rfl : after = [] := by
        by_contra hafter
        refine hcounted (h.past r ?_)
        rw [hparts, List.dropLast_append_cons, List.dropLast_cons_of_ne_nil hafter]
        exact List.mem_append_right _ List.mem_cons_self
      obtain ⟨hpast, hinstalled⟩ := h
      rw [hparts, List.dropLast_concat] at hpast
      have hbefore := countP_isInstalled hpast
      rw [versions, version, hparts, List.countP_append, hbefore, List.map_append] at hinstalled
      rw [hstep]
      constructor
      · rw [List.dropLast_concat]
        exact hpast
      · rw [versions, version, List.countP_append, hbefore, List.map_append]
        cases r with
        | asked d => simp [Replacement.step, Replacement.isInstalled, Replacement.catalog, Service.install]
        | installed d => exact hinstalled
        | counted d generation => exact absurd rfl hcounted

/-! ## Runs -/

theorem run_concat (s : Server) (moves : List ServerMove) (m : ServerMove) :
    s.run (moves ++ [m]) = (s.run moves).step m := List.foldl_concat ..

theorem run_append (s : Server) (moves more : List ServerMove) :
    s.run (moves ++ more) = (s.run moves).run more := List.foldl_append

theorem run_version (s : Server) (moves : List ServerMove) : s.version ≤ (s.run moves).version := by
  induction moves generalizing s with
  | nil => exact Nat.le_refl _
  | cons m moves ih => exact Nat.le_trans (step_version s m) (ih (s.step m))

theorem run_versions (c : Catalog) (s : Server) (moves : List ServerMove) :
    s.versions c <+: (s.run moves).versions c := by
  induction moves generalizing s with
  | nil => exact List.prefix_refl _
  | cons m moves ih => exact (step_versions c s m).trans (ih (s.step m))

theorem run_generation {s : Server} (h : s.service.generation = s.replacements.countP (·.isCounted))
    (moves : List ServerMove) :
    (s.run moves).service.generation = (s.run moves).replacements.countP (·.isCounted) := by
  induction moves generalizing s with
  | nil => exact h
  | cons m moves ih => exact ih (step_generation h m)

theorem run_current {c : Catalog} {s : Server} (h : s.Current c) {moves : List ServerMove}
    (hmoves : s.Sequential moves) : (s.run moves).Current c := by
  induction moves generalizing s with
  | nil => exact h
  | cons m moves ih => exact ih (step_current h hmoves.1) hmoves.2

theorem Sequential.take {s : Server} {moves : List ServerMove} (h : s.Sequential moves) (t : Nat) :
    s.Sequential (moves.take t) := by
  induction moves generalizing s t with
  | nil => rwa [List.take_nil]
  | cons m moves ih =>
    cases t with
    | zero => trivial
    | succ t => exact ⟨h.1, ih h.2 t⟩

theorem take_append (moves : List ServerMove) {t u : Nat} (h : t ≤ u) :
    moves.take t ++ (moves.take u).drop t = moves.take u := by
  have htake : (moves.take u).take t = moves.take t := by rw [List.take_take, Nat.min_eq_left h]
  rw [← htake, List.take_append_drop]

/-- What is served at a time is the version of that time. -/
theorem version_served {c : Catalog} {max : Nat} {moves : List ServerMove}
    (h : (serving c max).Sequential moves) (t : Nat) :
    (((serving c max).run moves).versions c)[((serving c max).run (moves.take t)).version]? =
      some ((serving c max).run (moves.take t)).service.catalog := by
  have hstart : (serving c max).Current c := ⟨nofun, rfl⟩
  have hlonger := run_versions c ((serving c max).run (moves.take t)) (moves.drop t)
  rw [← run_append, List.take_append_drop] at hlonger
  exact getElem?_of_prefix hlonger (run_current hstart (h.take t)).installed

theorem version_mono (s : Server) (moves : List ServerMove) {t u : Nat} (h : t ≤ u) :
    (s.run (moves.take t)).version ≤ (s.run (moves.take u)).version := by
  have hlater := run_version (s.run (moves.take t)) ((moves.take u).drop t)
  rw [← run_append, take_append moves h] at hlater
  exact hlater

/-- While no replacement is under way the generation is the number of all of them. -/
theorem generation_eq {c : Catalog} {max : Nat} {moves : List ServerMove}
    (h : ((serving c max).run moves).Still) :
    ((serving c max).run moves).service.generation = ((serving c max).run moves).replacements.length := by
  rw [run_generation rfl]
  exact List.countP_eq_length.2 h

end Server

end FontCatalog
