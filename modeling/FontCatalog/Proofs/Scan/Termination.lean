import FontCatalog.Proofs.Scan.Worker
import FontCatalog.Proofs.Search.Copies
import Mathlib.Algebra.GroupWithZero.Nat
import Mathlib.Algebra.Order.BigOperators.Group.List
import Mathlib.Algebra.Order.Group.Nat

/-! Every scan ends. Each part has a number of steps that it may still take, and each file that is left in
the search stands for the steps of the worker that will read it; the part whose turn it is always makes
the sum smaller. -/
namespace FontCatalog
set_option autoImplicit false

/-! ## Work in a finder -/

namespace Finder

def itemWork (cost : Path → Nat) : FileTree.WalkItem → Nat
  | .entry p true _ => cost p
  | _ => 16

/-- The steps that a finder stands for when each of its files takes `cost`; an error takes fewer than four. -/
def work (cost : Path → Nat) (f : Finder) : Nat :=
  (match f.source with
    | .listed paths => (paths.map cost).sum
    | .walking _ items => (items.map (itemWork cost)).sum) + 4 * f.errors.length

theorem work_mono {c d : Path → Nat} (h : ∀ p, c p ≤ d p) (f : Finder) : f.work c ≤ f.work d := by
  have hitem (item : FileTree.WalkItem) : itemWork c item ≤ itemWork d item := by
    unfold itemWork
    split
    · exact h _
    · exact Nat.le_refl _
  unfold work
  apply Nat.add_le_add_right
  cases f.source with
  | listed paths => exact List.sum_le_sum fun p _ => h p
  | walking accepts items => exact List.sum_le_sum fun item _ => hitem item

section
variable {cost : Path → Nat} (hcost : ∀ p, 4 ≤ cost p)
include hcost

theorem advance_work (accepts : Path → Bool) (items : List FileTree.WalkItem) :
    ∀ (seen : List FileTree.FileKey) (errors : List SearchError),
      ((advance accepts seen errors items).2.2.2.map (itemWork cost)).sum +
          4 * (advance accepts seen errors items).2.2.1.length +
          (advance accepts seen errors items).1.elim 0 cost ≤
        (items.map (itemWork cost)).sum + 4 * errors.length := by
  induction items with
  | nil =>
    intro seen errors
    simp [advance]
  | cons item rest ih =>
    intro seen errors
    cases item with
    | failure e =>
      have hrest := ih seen (errors ++ [e])
      simp only [advance, List.map_cons, List.sum_cons, itemWork, List.length_append, List.length_singleton]
        at hrest ⊢
      omega
    | entry p isFile key =>
      have hitem : 4 ≤ itemWork cost (.entry p isFile key) := by
        cases isFile
        · simp [itemWork]
        · exact hcost p
      by_cases hskip : (!isFile || !accepts p || seen.contains key) = true
      · have hrest := ih seen errors
        rw [advance, if_pos hskip, List.map_cons, List.sum_cons]
        omega
      by_cases htext : p.text?.isSome = true
      · have hfile : itemWork cost (.entry p isFile key) = cost p := by
          cases isFile
          · simp at hskip
          · rfl
        rw [advance, if_neg hskip, if_pos htext, List.map_cons, List.sum_cons, hfile]
        dsimp only [Option.elim]
        omega
      · have hrest := ih (key :: seen) (errors ++ [.notText p])
        rw [advance, if_neg hskip, if_neg htext, List.map_cons, List.sum_cons]
        rw [List.length_append, List.length_singleton] at hrest
        omega

theorem claim_work (f : Finder) : f.claim.2.work cost + f.claim.1.elim 0 cost ≤ f.work cost := by
  obtain ⟨source, seen, errors, claimed, total⟩ := f
  cases source with
  | listed paths =>
    cases paths with
    | nil => exact Nat.le_refl _
    | cons p rest =>
      simp only [claim, pull, work, List.map_cons, List.sum_cons, Option.elim]
      omega
  | walking accepts items =>
    have hadvance := advance_work hcost accepts items seen errors
    rcases hnext : advance accepts seen errors items with ⟨_ | p, seen', errors', rest⟩ <;>
      rw [hnext] at hadvance <;>
      simpa only [claim, pull, work, hnext] using hadvance

theorem claimMany_work (fuel : Nat) (f : Finder) :
    ((claimMany fuel f).1.map cost).sum + (claimMany fuel f).2.work cost ≤ f.work cost := by
  induction fuel generalizing f with
  | zero => simp [claimMany]
  | succ fuel ih =>
    have hclaim := claim_work hcost f
    rcases hnext : f.claim with ⟨_ | p, g⟩ <;> rw [hnext] at hclaim
    · simpa [claimMany, hnext] using hclaim
    · have hrest := ih g
      simp only [claimMany, hnext, List.map_cons, List.sum_cons]
      dsimp only [Option.elim] at hclaim
      omega

theorem drain_work (f : Finder) :
    (f.left.map cost).sum + f.drain.2.work cost ≤ f.work cost := by
  rw [← drain_eq_left]
  exact claimMany_work hcost _ f

theorem precounted_work (f : Finder) : f.precounted.work cost ≤ f.work cost := by
  have hdrain := drain_work hcost f
  have hwork : f.precounted.work cost = (f.left.map cost).sum + 4 * f.drain.2.errors.length := by
    rw [← drain_eq_left]
    rfl
  have herrors : 4 * f.drain.2.errors.length ≤ f.drain.2.work cost := Nat.le_add_left ..
  omega

theorem storable_work (paths : List Path) :
    ((storable paths).1.map cost).sum + 4 * (storable paths).2.length ≤ (paths.map cost).sum := by
  induction paths with
  | nil => exact Nat.le_refl _
  | cons p rest ih =>
    have hp := hcost p
    rcases hrest : storable rest with ⟨kept, errors⟩
    rw [hrest] at ih
    dsimp only at ih
    simp only [storable, hrest, List.map_cons, List.sum_cons]
    split
    · simp only [List.map_cons, List.sum_cons]
      omega
    · simp only [List.length_cons]
      omega

theorem ofPaths_work (paths : List Path) : (ofPaths paths).work cost ≤ (paths.map cost).sum :=
  storable_work hcost paths

end

theorem takeErrors_work (cost : Path → Nat) (f : Finder) :
    f.takeErrors.2.work cost + 4 * f.takeErrors.1.length = f.work cost := rfl

end Finder

/-! ## Steps of a worker -/

namespace Worker

/-- The steps from opening a file until the worker has stopped, if it finds no other. -/
def readSteps (x : Extractor) (p : Path) : Nat :=
  match x p with
  | .error _ => 8
  | .ok file => 4 * file.faceCount + 8

theorem eight_le_readSteps (x : Extractor) (p : Path) : 8 ≤ readSteps x p := by
  unfold readSteps
  split <;> omega

theorem readSteps_add (x : Extractor) (p : Path) : readSteps x p + 8 = fileSteps x p := by
  unfold readSteps fileSteps
  cases x p with
  | error e => rfl
  | ok file =>
    dsimp only
    omega

def stageSteps (x : Extractor) : WorkerStage → Nat
  | .look => 4
  | .claim => 3
  | .learn none => 2
  | .learn (some p) => readSteps x p + 3
  | .read p => readSteps x p
  | .face _ file index _ => 4 * (file.faceCount - index) + 7
  | .stopped => 0

def stepsLeft (x : Extractor) (w : Worker) : Nat := w.moves.length + stageSteps x w.stage

/-- What a worker still has to do, with the files that are left, becomes less by every step. -/
theorem step_stepsLeft {x : Extractor} {cost : Path → Nat} (hcost : ∀ p, readSteps x p < cost p)
    (s : ScanState) {w : Worker} (hbusy : w.isStopped = false) :
    stepsLeft x (w.step x s).2 + (w.step x s).1.finder.work cost < stepsLeft x w + s.finder.work cost := by
  obtain ⟨moves, stage⟩ := w
  cases moves with
  | cons m rest =>
    simp only [step_cons, ScanMove.apply_finder, stepsLeft, List.length_cons]
    omega
  | nil =>
    rw [step_nil, proceed_state]
    cases stage with
    | look =>
      cases hcancelled : s.cancelled <;> simp [proceed, hcancelled, stepsLeft, stageSteps]
    | claim =>
      have hfour : ∀ p, 4 ≤ cost p := by
        intro p
        have hread := eight_le_readSteps x p
        have hless := hcost p
        omega
      have hwork := Finder.claim_work hfour s.finder
      rcases hclaim : s.finder.claim with ⟨_ | p, f⟩ <;> rw [hclaim] at hwork <;>
        simp only [proceed, hclaim, stepsLeft, stageSteps, List.length_nil, Option.elim] at hwork ⊢
      · omega
      · have := hcost p
        omega
    | learn next =>
      cases next with
      | none => cases htotal : s.finder.total <;> simp [proceed, htotal, stepsLeft, stageSteps]
      | some p =>
        cases htotal : s.finder.total <;>
          simp only [proceed, htotal, stepsLeft, stageSteps, List.length_append, List.length_cons, List.length_nil] <;>
          omega
    | read p =>
      cases hx : x p <;> simp [proceed, hx, stepsLeft, stageSteps, readSteps, ScanMove.report]
    | face p file index found =>
      by_cases hindex : index < file.faceCount
      · cases hface : file.face p index <;>
          simp [proceed, hindex, hface, stepsLeft, stageSteps, ScanMove.report] <;> omega
      · by_cases hfound : found = [] <;> simp [proceed, hindex, hfound, stepsLeft, stageSteps]
    | stopped => cases hbusy

end Worker

/-! ## Steps of a scan -/

namespace Scan

/-- What a file in the finder stands for. Until the files are collected it may also be compared. -/
def fileCost (x : Extractor) : LeadStage → Path → Nat
  | .start | .discover | .choose | .collect => Worker.fileSteps x
  | .adopt _ | .extract | .release | .wait | .forward | .close | .done _ => fun p => Worker.readSteps x p + 1

theorem readSteps_lt_fileCost (x : Extractor) (stage : LeadStage) (p : Path) :
    Worker.readSteps x p < fileCost x stage p := by
  have hread := Worker.readSteps_add x p
  unfold fileCost
  split <;> omega

/-- The steps of the leading part, and of the workers that it has not released. -/
def leadSteps (x : Extractor) (workers : Nat) : LeadStage → Nat
  | .start => 4 * workers + 25
  | .discover => 4 * workers + 20
  | .choose => 4 * workers + 19
  | .collect => 4 * workers + 18
  | .adopt paths => 4 * workers + 13 + (paths.map fun p => Worker.readSteps x p + 1).sum
  | .extract => 4 * workers + 12
  | .release => 4 * workers + 7
  | .wait => 6
  | .forward => 5
  | .close => 4
  | .done _ => 0

def stepsLeft (x : Extractor) (s : Scan) : Nat :=
  s.lead.moves.length + leadSteps x (workerCount s.options) s.lead.stage +
    (s.workers.map (Worker.stepsLeft x)).sum + s.state.finder.work (fileCost x s.lead.stage)

variable {x : Extractor} {s : Scan}

theorem worker_stepsLeft {number : Nat} {w : Worker} (hw : s.workers[number]? = some w)
    (hbusy : w.isStopped = false) : stepsLeft x (s.step x (.worker number)) < stepsLeft x s := by
  obtain ⟨before, behind, hworkers, hstep⟩ := step_worker (x := x) hw
  have hless := Worker.step_stepsLeft (readSteps_lt_fileCost x s.lead.stage) s.state hbusy
  rw [hstep]
  simp only [stepsLeft, hworkers, List.map_append, List.map_cons, List.sum_append, List.sum_cons]
  omega

theorem move_stepsLeft {m : ScanMove} {rest : List ScanMove} (hmoves : s.lead.moves = m :: rest) :
    stepsLeft x (s.step x .lead) < stepsLeft x s := by
  have hstep : s.step x .lead = { s with state := m.apply s.state, lead := ⟨rest, s.lead.stage⟩ } := by
    rw [step, hmoves]
  rw [hstep]
  simp only [stepsLeft, ScanMove.apply_finder, hmoves, List.length_cons]
  omega

theorem length_reportErrors (errors : List SearchError) :
    (ScanMove.reportErrors errors).length = 3 * errors.length := by
  simp [ScanMove.reportErrors, ScanMove.report, Nat.mul_comm]

/-- The comparison of files is paid for by what they cost less afterwards. -/
theorem collect_work (x : Extractor) (paths : List Path) :
    (paths.map fun p => Worker.readSteps x p + 1).sum + paths.length ≤
      (paths.map (Worker.fileSteps x)).sum := by
  induction paths with
  | nil => exact Nat.le_refl _
  | cons p rest ih =>
    have hread := Worker.readSteps_add x p
    simp only [List.map_cons, List.sum_cons, List.length_cons]
    omega

theorem proceed_stepsLeft (hmoves : s.lead.moves = [])
    (hstopped : s.lead.stage = .wait → ∀ w ∈ s.workers, w.isStopped = true)
    (hopen : s.outcome? = none) : stepsLeft x (s.proceed s.lead.stage) < stepsLeft x s := by
  have hcost (stage : LeadStage) (p : Path) : 4 ≤ fileCost x stage p := by
    have hread := Worker.eight_le_readSteps x p
    have hless := readSteps_lt_fileCost x stage p
    omega
  have hlater (f : Finder) : f.work (fun p => Worker.readSteps x p + 1) ≤ f.work (Worker.fileSteps x) := by
    apply Finder.work_mono
    intro p
    have hread := Worker.readSteps_add x p
    omega
  obtain ⟨tree, options, input, state, ⟨moves, stage⟩, workers, digest⟩ := s
  dsimp only at *
  subst hmoves
  have hfinder := hlater state.finder
  cases stage with
  | start =>
    cases input with
    | given f =>
      simp only [proceed, stepsLeft, leadSteps, fileCost, List.length_nil]
      omega
    | search f =>
      by_cases hfirst : (options.precount || options.dedup) = true
      · simp only [proceed, hfirst, if_true, stepsLeft, leadSteps, fileCost, List.length_nil, ScanMove.enter,
          List.length_cons]
        omega
      · simp only [proceed, hfirst, Bool.false_eq_true, if_false, stepsLeft, leadSteps, fileCost, List.length_nil]
        omega
  | discover =>
    have hwork := Finder.precounted_work (hcost .discover) state.finder
    have herrors := Finder.takeErrors_work (fileCost x .discover) state.finder.precounted
    simp only [proceed, stepsLeft, leadSteps, length_reportErrors, List.length_nil]
    simp only [fileCost] at hwork herrors ⊢
    omega
  | choose =>
    by_cases hdedup : (options.dedup && !state.cancelled) = true
    · simp only [proceed, hdedup, if_true, stepsLeft, leadSteps, fileCost, List.length_nil]
      omega
    · simp only [proceed, hdedup, Bool.false_eq_true, if_false, stepsLeft, leadSteps, fileCost, List.length_nil]
      omega
  | collect =>
    have hwork := Finder.drain_work (hcost .collect) state.finder
    have hcompared := collect_work x state.finder.left
    have hdrained := hlater state.finder.drain.2
    simp only [proceed, stepsLeft, leadSteps, Finder.drain_eq_left, Copies.examined_eq, ScanMove.enter,
      List.length_append, List.length_replicate, List.length_nil, List.length_cons]
    simp only [fileCost] at hwork ⊢
    omega
  | adopt paths =>
    have hwork := Finder.ofPaths_work (hcost .extract) (Copies.uniqueBy digest tree paths)
    have hfewer := ((Copies.uniqueBy_sublist digest tree paths).map (fileCost x .extract)).sum_le_sum
      (fun _ _ => Nat.zero_le _)
    simp only [proceed, stepsLeft, leadSteps, List.length_nil]
    simp only [fileCost] at hwork hfewer ⊢
    omega
  | extract =>
    simp only [proceed, stepsLeft, leadSteps, fileCost, ScanMove.enter, List.length_nil, List.length_cons]
    omega
  | release =>
    have hfresh : ((List.replicate (workerCount options) Worker.fresh).map (Worker.stepsLeft x)).sum =
        4 * workerCount options := by
      rw [List.map_replicate, List.sum_replicate_nat, Nat.mul_comm]
      rfl
    simp only [proceed, stepsLeft, leadSteps, fileCost, hfresh, List.length_nil]
    omega
  | wait =>
    have hall : workers.all Worker.isStopped = true := List.all_eq_true.2 (hstopped rfl)
    simp only [proceed, hall, if_true, stepsLeft, leadSteps, fileCost, List.length_nil]
    omega
  | forward =>
    have herrors := Finder.takeErrors_work (fileCost x .forward) state.finder
    simp only [proceed, stepsLeft, leadSteps, length_reportErrors, List.length_nil]
    simp only [fileCost] at herrors ⊢
    omega
  | close =>
    simp only [proceed, stepsLeft, leadSteps, fileCost, List.length_nil, List.length_cons]
    omega
  | done o => cases hopen

/-- The part whose turn it is has a step to take, until the scan is done. -/
theorem turn_stepsLeft (hopen : s.outcome? = none) : stepsLeft x (s.step x s.turn) < stepsLeft x s := by
  unfold turn
  cases hbusy : s.busyWorker? with
  | some number =>
    obtain ⟨hnumber, hworker, -⟩ := List.findIdx?_eq_some_iff_getElem.1 hbusy
    apply worker_stepsLeft (List.getElem?_eq_getElem hnumber)
    rwa [Bool.not_eq_true'] at hworker
  | none =>
    have hstopped : ∀ w ∈ s.workers, w.isStopped = true := by
      intro w hw
      have hfalse := List.findIdx?_eq_none_iff.1 hbusy w hw
      rwa [Bool.not_eq_false'] at hfalse
    cases hmoves : s.lead.moves with
    | nil =>
      rw [step, hmoves]
      exact proceed_stepsLeft hmoves (fun _ => hstopped) hopen
    | cons m rest => exact move_stepsLeft hmoves

/-! ## Runs -/

theorem stepBound_eq (x : Extractor) (s : Scan) :
    s.stepBound x = s.state.finder.work (Worker.fileSteps x) + 8 * (workerCount s.options + 8) := by
  unfold stepBound Finder.work
  cases s.state.finder.source with
  | listed paths =>
    have hsum : (paths.map (Worker.fileSteps x)).sum = paths.foldr (fun p n => Worker.fileSteps x p + n) 0 := by
      rw [List.sum_eq_foldr, List.foldr_map]
    dsimp only
    rw [hsum]
  | walking accepts items =>
    have hsum : (items.map (Finder.itemWork (Worker.fileSteps x))).sum =
        items.foldr (fun item n => n + Finder.itemWork (Worker.fileSteps x) item) 0 := by
      rw [List.sum_eq_foldr, List.foldr_map]
      simp only [Nat.add_comm]
    dsimp only
    rw [hsum]
    rfl

theorem stepsLeft_le_stepBound (hlead : s.lead = ⟨[], .start⟩) (hworkers : s.workers = []) :
    stepsLeft x s ≤ s.stepBound x := by
  rw [stepBound_eq]
  simp only [stepsLeft, hlead, hworkers, leadSteps, fileCost, List.length_nil, List.map_nil, List.sum_nil]
  omega

theorem stepsLeft_cancel : stepsLeft x s.cancel = stepsLeft x s := rfl

theorem outcome?_cancel : s.cancel.outcome? = s.outcome? := rfl

/-- A scan comes to its end within its steps, whatever watches it and cancels it. -/
theorem runFor_done {σ : Type} (watch : σ → Scan → σ × Bool) (fuel : Nat) (w : σ) (s : Scan)
    (h : stepsLeft x s ≤ fuel) : ∃ o, (runFor x watch fuel w s).2.outcome? = some o := by
  induction fuel generalizing w s with
  | zero =>
    cases hopen : s.outcome? with
    | some o => exact ⟨o, hopen⟩
    | none =>
      have hless := turn_stepsLeft (x := x) hopen
      omega
  | succ fuel ih =>
    rw [runFor]
    cases hopen : s.outcome? with
    | some o => exact ⟨o, hopen⟩
    | none =>
      dsimp only
      apply ih
      have hcancel : stepsLeft x (if (watch w s).2 then s.cancel else s) = stepsLeft x s := by
        split
        · exact stepsLeft_cancel
        · rfl
      have hstill : (if (watch w s).2 then s.cancel else s).outcome? = none := by
        split
        · rwa [outcome?_cancel]
        · exact hopen
      have hless := turn_stepsLeft (x := x) hstill
      omega

/-- A run that is only watched takes the steps of its parts in some order. -/
theorem runFor_eq_after {σ : Type} (watch : σ → Scan → σ × Bool) (hwatch : ∀ w s, (watch w s).2 = false)
    (fuel : Nat) (w : σ) (s : Scan) : ∃ order, (runFor x watch fuel w s).2 = s.after x order := by
  induction fuel generalizing w s with
  | zero => exact ⟨[], rfl⟩
  | succ fuel ih =>
    rw [runFor]
    cases s.outcome? with
    | some o => exact ⟨[], rfl⟩
    | none =>
      obtain ⟨order, horder⟩ := ih (watch w s).1 (s.step x s.turn)
      refine ⟨s.turn :: order, ?_⟩
      dsimp only
      rw [hwatch]
      exact horder

/-- However far a scan has come, it can go on to its end. -/
theorem exists_outcome (x : Extractor) (s : Scan) : ∃ order o, (s.after x order).outcome? = some o := by
  have hwatch : ∀ (w : Unit) (s : Scan), ((fun _ _ => ((), false) : Unit → Scan → Unit × Bool) w s).2 = false :=
    fun _ _ => rfl
  obtain ⟨o, ho⟩ := runFor_done (x := x) (fun _ _ => ((), false)) (stepsLeft x s) () s (Nat.le_refl _)
  obtain ⟨order, horder⟩ := runFor_eq_after (x := x) _ hwatch (stepsLeft x s) () s
  rw [horder] at ho
  exact ⟨order, o, ho⟩

/-- A run of a new scan takes the steps of its parts in some order, and comes to its end. -/
theorem run_make (x : Extractor) (tree : FileTree) (options : ScanOptions) (input : ScanInput) :
    ∃ order o, ((make tree options input).after x order).outcome? = some o ∧
      run x (make tree options input) = (.ok o, (make tree options input).after x order) := by
  have hwatch : ∀ (w : Unit) (s : Scan), ((fun _ _ => ((), false) : Unit → Scan → Unit × Bool) w s).2 = false :=
    fun _ _ => rfl
  obtain ⟨o, ho⟩ := runFor_done (x := x) (fun _ _ => ((), false)) _ () (make tree options input)
    (stepsLeft_le_stepBound rfl rfl)
  obtain ⟨order, horder⟩ := runFor_eq_after (x := x) _ hwatch ((make tree options input).stepBound x) ()
    (make tree options input)
  refine ⟨order, o, ?_, ?_⟩
  · rwa [horder] at ho
  · have hfresh : (make tree options input).isFresh = true := rfl
    rw [run, if_pos hfresh, runWatched]
    dsimp only
    rw [ho, horder]
    rfl

end Scan

end FontCatalog
