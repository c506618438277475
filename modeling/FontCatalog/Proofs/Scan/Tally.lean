import FontCatalog.Proofs.Scan.Turns
import FontCatalog.Proofs.Search.Claims
import Mathlib.Algebra.BigOperators.Group.List.Basic
import Mathlib.Algebra.Group.Prod
import Mathlib.Algebra.Order.Group.Multiset
import Mathlib.Tactic.Abel

/-! What moves add up to. The records, the failures and the counters of a scan are taken together as a tally; every
move of a worker adds to it, so the tally of the shared state and what the workers still owe grow only by whole
files. Beside it stand the files that are claimed but not yet opened, and the total that a worker makes known
before it stops. -/
namespace FontCatalog
set_option autoImplicit false

/-- The faces and the failures that are kept, and how many faces, failures and files are counted. -/
abbrev Tally := Multiset Face × Multiset ScanFailure × ℕ × ℕ × ℕ

def ScanState.tally (s : ScanState) : Tally := (s.records, s.failures, s.faces, s.failureCount, s.claimed)

/-! ## Moves -/

namespace ScanMove

def tally : ScanMove → Tally
  | .addClaimed => (0, 0, 0, 0, 1)
  | .addFailure => (0, 0, 0, 1, 0)
  | .keepFailure f => (0, {f}, 0, 0, 0)
  | .addFaces n => (0, 0, n, 0, 0)
  | .keepRecords faces => (faces, 0, 0, 0, 0)
  | .setClaimed _ | .setTotal _ | .setPhase _ | .emit _ => 0

def talliesOf (moves : List ScanMove) : Tally := (moves.map tally).sum

def ofWorker : ScanMove → Bool
  | .setClaimed _ | .setPhase _ | .emit (.phase _) | .emit (.finished ..) => false
  | _ => true

@[simp] theorem talliesOf_nil : talliesOf [] = 0 := rfl

@[simp] theorem talliesOf_cons (m : ScanMove) (moves : List ScanMove) :
    talliesOf (m :: moves) = m.tally + talliesOf moves := List.sum_cons

@[simp] theorem talliesOf_append (first second : List ScanMove) :
    talliesOf (first ++ second) = talliesOf first + talliesOf second := by
  simp [talliesOf]

theorem tally_apply {m : ScanMove} (hm : m.ofWorker = true) (s : ScanState) :
    (m.apply s).tally = s.tally + m.tally := by
  cases m with
  | emit e =>
    show (s.emit e).tally = s.tally + 0
    unfold ScanState.emit
    split <;> exact (add_zero _).symm
  | setClaimed n => cases hm
  | _ => simp [apply, ScanState.tally, tally, ← Multiset.coe_add, Multiset.coe_singleton]

theorem phase_apply {m : ScanMove} (hm : m.ofWorker = true) (s : ScanState) : (m.apply s).phase = s.phase := by
  cases m with
  | emit e =>
    show (s.emit e).phase = s.phase
    unfold ScanState.emit
    split <;> rfl
  | setPhase p => cases hm
  | _ => rfl

theorem total_apply (m : ScanMove) (s : ScanState) :
    (m.apply s).total = s.total ∨ m = .setTotal (m.apply s).total := by
  cases m with
  | emit e =>
    left
    show (s.emit e).total = s.total
    unfold ScanState.emit
    split <;> rfl
  | setTotal n => exact .inr rfl
  | _ => exact .inl rfl

theorem talliesOf_reports (failures : List ScanFailure) :
    talliesOf (failures.flatMap report) = ((0, failures, 0, failures.length, 0) : Tally) := by
  induction failures with
  | nil => rfl
  | cons f rest ih =>
    rw [List.flatMap_cons, talliesOf_append, ih]
    simp [talliesOf, report, tally, ← Multiset.cons_coe, Nat.add_comm]

theorem ofWorker_report {f : ScanFailure} {m : ScanMove} (hm : m ∈ report f) : m.ofWorker = true := by
  simp only [report, List.mem_cons, List.not_mem_nil, or_false] at hm
  rcases hm with rfl | rfl | rfl <;> rfl

theorem ofWorker_reportErrors {errors : List SearchError} {m : ScanMove} (hm : m ∈ reportErrors errors) :
    m.ofWorker = true := by
  obtain ⟨e, -, hm⟩ := List.mem_flatMap.1 hm
  exact ofWorker_report hm

end ScanMove

/-! ## Files -/

/-- What goes wrong with a file: it cannot be opened, or some of its faces cannot be read. -/
def Extractor.failures (x : Extractor) (p : Path) : List ScanFailure :=
  match x p with
  | .error e => [.ofDecode e]
  | .ok file => ((List.range file.faceCount).filterMap fun index => Worker.failure? (file.face p index)).map .ofDecode

def Extractor.tally (x : Extractor) (p : Path) : Tally :=
  (x.faces p, x.failures p, (x.faces p).length, (x.failures p).length, 1)

def SearchError.tally (errors : List SearchError) : Tally :=
  (0, errors.map ScanFailure.ofSearch, 0, errors.length, 0)

theorem SearchError.tally_append (first second : List SearchError) :
    SearchError.tally (first ++ second) = SearchError.tally first + SearchError.tally second := by
  simp [SearchError.tally, ← Multiset.coe_add]

theorem ScanMove.talliesOf_reportErrors (errors : List SearchError) :
    talliesOf (reportErrors errors) = SearchError.tally errors := by
  have hflat : reportErrors errors = (errors.map ScanFailure.ofSearch).flatMap report := by
    rw [List.flatMap_map]
    rfl
  rw [hflat, talliesOf_reports, List.length_map]
  rfl

theorem ScanMove.tally_reportErrors (errors : List SearchError) (s : ScanState) :
    (makeAll (reportErrors errors) s).tally = s.tally + SearchError.tally errors := by
  have hmade (moves : List ScanMove) (h : ∀ m ∈ moves, m.ofWorker = true) :
      ∀ s : ScanState, (makeAll moves s).tally = s.tally + talliesOf moves := by
    induction moves with
    | nil => exact fun s => (add_zero _).symm
    | cons m rest ih =>
      intro s
      obtain ⟨hm, hrest⟩ := List.forall_mem_cons.1 h
      rw [talliesOf_cons, ← add_assoc, ← tally_apply hm]
      exact ih hrest (m.apply s)
  rw [← talliesOf_reportErrors]
  exact hmade _ (fun _ => ofWorker_reportErrors) s

theorem Extractor.sum_tally (x : Extractor) (files : List Path) :
    (files.map x.tally).sum =
      (((files.flatMap x.faces : List Face), (files.flatMap x.failures : List ScanFailure),
        (files.flatMap x.faces).length, (files.flatMap x.failures).length, files.length) : Tally) := by
  induction files with
  | nil => rfl
  | cons p rest ih =>
    rw [List.map_cons, List.sum_cons, ih]
    simp [Extractor.tally, ← Multiset.coe_add, Nat.add_comm]

namespace Worker
open ScanMove

theorem talliesOf_keepAll (found : List Face) :
    talliesOf (keepAll found) = ((found, 0, found.length, 0, 0) : Tally) := by
  unfold keepAll
  split
  · next h =>
    subst h
    rfl
  · simp [ScanMove.tally]

theorem talliesOf_fileMoves (x : Extractor) (p : Path) :
    talliesOf (.addClaimed :: fileMoves x p) = x.tally p := by
  rw [talliesOf_cons, Extractor.tally, Extractor.failures, Extractor.faces, fileMoves]
  cases x p with
  | error e =>
    have hreport := talliesOf_reports [.ofDecode e]
    rw [List.flatMap_singleton] at hreport
    rw [hreport]
    rfl
  | ok file =>
    have hfaces : ((List.range' 0 (file.faceCount - 0)).map (file.face p)).filterMap Except.toOption =
        (List.range file.faceCount).filterMap fun index => (file.face p index).toOption := by
      rw [List.filterMap_map, List.range_eq_range']
      rfl
    have hfailures : ((List.range' 0 (file.faceCount - 0)).map (file.face p)).filterMap failure? =
        (List.range file.faceCount).filterMap fun index => failure? (file.face p index) := by
      rw [List.filterMap_map, List.range_eq_range']
      rfl
    dsimp only
    rw [faceMoves, hfaces, hfailures, talliesOf_append, List.nil_append, talliesOf_keepAll,
      ← List.flatMap_map, talliesOf_reports]
    simp [ScanMove.tally]

/-! ## Workers -/

def owed (x : Extractor) (w : Worker) : Tally := talliesOf (due x w)

/-- The files that a worker has claimed and not yet opened. -/
def toOpen (w : Worker) : Multiset Path :=
  match w.stage with
  | .learn (some p) | .read p => {p}
  | _ => 0

theorem owed_of_isStopped (x : Extractor) {w : Worker} (h : w.isStopped = true) : owed x w = 0 := by
  rw [isStopped_iff.1 h]
  rfl

theorem toOpen_of_isStopped {w : Worker} (h : w.isStopped = true) : toOpen w = 0 := by
  rw [isStopped_iff.1 h]
  rfl

/-- What one worker pays and takes on shows in the sum over all. -/
theorem add_sum_step {M : Type} [AddCommMonoid M] {paid paid' owed more : M} (g : Worker → M) {w w' : Worker}
    {before behind : List Worker} (hstep : paid' + g w' = paid + g w + more)
    (h : paid + ((before ++ w :: behind).map g).sum = owed) :
    paid' + ((before ++ w' :: behind).map g).sum = owed + more := by
  simp only [List.map_append, List.map_cons, List.sum_append, List.sum_cons] at h ⊢
  calc paid' + ((before.map g).sum + (g w' + (behind.map g).sum))
      = paid' + g w' + ((before.map g).sum + (behind.map g).sum) := by abel
    _ = paid + g w + more + ((before.map g).sum + (behind.map g).sum) := by rw [hstep]
    _ = paid + ((before.map g).sum + (g w + (behind.map g).sum)) + more := by abel
    _ = owed + more := by rw [h]

theorem forall_mem_step {P P' : Worker → Prop} {w w' : Worker} {before behind : List Worker}
    (hothers : ∀ v, P v → P' v) (hown : P' w') (h : ∀ v ∈ before ++ w :: behind, P v) :
    ∀ v ∈ before ++ w' :: behind, P' v := by
  obtain ⟨hbefore, -, hbehind⟩ : (∀ v ∈ before, P v) ∧ P w ∧ ∀ v ∈ behind, P v := by
    simpa only [List.forall_mem_append, List.forall_mem_cons] using h
  exact List.forall_mem_append.2
    ⟨fun v hv => hothers v (hbefore v hv), List.forall_mem_cons.2 ⟨hown, fun v hv => hothers v (hbehind v hv)⟩⟩

variable (x : Extractor) (s : ScanState) (w : Worker)

theorem step_ofWorker (hw : ∀ m ∈ w.moves, m.ofWorker = true) :
    ∀ m ∈ (w.step x s).2.moves, m.ofWorker = true := by
  obtain ⟨moves, stage⟩ := w
  cases moves with
  | cons m rest =>
    intro m' hm'
    exact hw m' (List.mem_cons_of_mem m hm')
  | nil =>
    rw [step_nil]
    cases stage with
    | read p =>
      cases hx : x p with
      | error e =>
        intro m hm
        simp only [proceed, hx] at hm
        exact ofWorker_report hm
      | ok file => simp [proceed, hx]
    | face p file index found =>
      by_cases hindex : index < file.faceCount
      · cases hface : file.face p index with
        | error e =>
          intro m hm
          simp only [proceed, hindex, hface, if_true] at hm
          exact ofWorker_report hm
        | ok f => simp [proceed, hindex, hface]
      · by_cases hfound : found = [] <;> simp [proceed, hindex, hfound, ofWorker]
    | learn next =>
      cases htotal : s.finder.total <;> cases next <;> simp [proceed, htotal, ofWorker]
    | _ => simp [proceed]

/-- By a step of a worker the tally and what the worker owes grow by the file that it claims. -/
theorem owed_step (hw : ∀ m ∈ w.moves, m.ofWorker = true) :
    (w.step x s).1.tally + owed x (w.step x s).2 =
      s.tally + owed x w + ((w.claiming s).toList.map x.tally).sum := by
  -- Setting the total is left out of the account of what is due, and adds nothing.
  let counted (m : ScanMove) : List Tally := if m matches .setTotal _ then [] else [m.tally]
  have hcounted (moves : List ScanMove) : (moves.flatMap counted).sum = talliesOf moves := by
    induction moves with
    | nil => rfl
    | cons m rest ih =>
      rw [List.flatMap_cons, List.sum_append, ih, talliesOf_cons]
      congr 1
      cases m <;> simp [counted, ScanMove.tally]
  have hmade : (w.step x s).1.tally = s.tally + talliesOf w.next := by
    obtain ⟨moves, stage⟩ := w
    cases moves with
    | nil =>
      rw [step_nil, proceed_state]
      cases stage <;> exact (add_zero _).symm
    | cons m rest =>
      have hm := tally_apply (hw m List.mem_cons_self) s
      simpa [ScanPart.next] using hm
  have hdue := congrArg List.sum (due_step x s w counted fun _ => rfl)
  have hclaimed : ((w.claiming s).toList.flatMap fun p => (.addClaimed :: fileMoves x p).flatMap counted).sum =
      ((w.claiming s).toList.map x.tally).sum := by
    cases w.claiming s with
    | none => rfl
    | some p =>
      rw [Option.toList_some, List.flatMap_singleton, hcounted, talliesOf_fileMoves]
      simp
  rw [List.sum_append, List.sum_append, hclaimed, hcounted, hcounted, hcounted] at hdue
  rw [hmade, owed, add_assoc, hdue, owed, add_assoc]

theorem toOpen_step :
    (w.opening.toList : Multiset Path) + toOpen (w.step x s).2 = toOpen w + (w.claiming s).toList := by
  obtain ⟨moves, stage⟩ := w
  cases moves with
  | cons m rest => simp [opening, claiming, toOpen]
  | nil =>
    rw [step_nil]
    cases stage with
    | look => cases hcancelled : s.cancelled <;> simp [proceed, hcancelled, opening, claiming, claimAt, toOpen]
    | claim => rcases hclaim : s.finder.claim with ⟨_ | p, f⟩ <;> simp [proceed, hclaim, opening, claiming, claimAt, toOpen]
    | learn next => cases next <;> simp [proceed, opening, claiming, claimAt, toOpen]
    | read p => cases hx : x p <;> simp [proceed, hx, opening, claiming, claimAt, toOpen]
    | face p file index found =>
      by_cases hindex : index < file.faceCount
      · cases hface : file.face p index <;> simp [proceed, hindex, hface, opening, claiming, claimAt, toOpen]
      · by_cases hfound : found = [] <;> simp [proceed, hindex, hfound, opening, claiming, claimAt, toOpen]
    | stopped => simp [proceed, opening, claiming, claimAt, toOpen]

theorem step_phase (hw : ∀ m ∈ w.moves, m.ofWorker = true) : (w.step x s).1.phase = s.phase := by
  obtain ⟨moves, stage⟩ := w
  cases moves with
  | nil =>
    rw [step_nil, proceed_state]
    cases stage <;> rfl
  | cons m rest => exact phase_apply (hw m List.mem_cons_self) s

theorem step_finder :
    (w.claiming s = s.finder.claim.1 ∧ (w.step x s).1.finder = s.finder.claim.2) ∨
      (w.claiming s = none ∧ (w.step x s).1.finder = s.finder) := by
  obtain ⟨moves, stage⟩ := w
  cases moves with
  | nil =>
    rw [step_nil, proceed_state]
    cases stage with
    | claim => exact .inl ⟨rfl, rfl⟩
    | _ => exact .inr ⟨rfl, rfl⟩
  | cons m rest => exact .inr ⟨rfl, m.apply_finder s⟩

theorem step_exhausted (h : s.finder.Exhausted) : (w.step x s).1.finder.Exhausted := by
  obtain ⟨-, hfinder⟩ | ⟨-, hfinder⟩ := step_finder x s w
  · rw [hfinder, h.claim]
    exact h
  · rwa [hfinder]

/-! ## The total -/

/-- A worker makes known this total alone, and has planned to if it stops with nothing left to claim. -/
structure Publishes (total : ℕ) (cancelled : Bool) (known : Option ℕ) (w : Worker) : Prop where
  planned : ∀ n, .setTotal n ∈ w.moves → n = some total
  stopped : cancelled = false → w.stage = .stopped → .setTotal (some total) ∈ w.moves ∨ known = some total

variable {x s w} {total : ℕ} {cancelled : Bool} {known : Option ℕ}

theorem step_total (h : Publishes total cancelled known w) :
    (w.step x s).1.total = s.total ∨ (w.step x s).1.total = some total := by
  obtain ⟨moves, stage⟩ := w
  cases moves with
  | nil =>
    left
    rw [step_nil, proceed_state]
    cases stage <;> rfl
  | cons m rest =>
    rw [step_cons]
    refine (m.total_apply s).imp_right fun hm => h.planned _ ?_
    rw [← hm]
    exact List.mem_cons_self

/-- What another worker publishes does no harm. -/
theorem Publishes.mono (h : Publishes total cancelled known w) {cancelled' : Bool} {known' : Option ℕ}
    (hcancelled : cancelled' = false → cancelled = false) (hknown : known' = known ∨ known' = some total) :
    Publishes total cancelled' known' w := by
  refine ⟨h.planned, fun huncancelled hstage => ?_⟩
  refine (h.stopped (hcancelled huncancelled) hstage).imp_right fun hpublished => ?_
  rcases hknown with hknown | hknown
  · rw [hknown, hpublished]
  · exact hknown

theorem Publishes.step (h : Publishes total s.cancelled s.total w)
    (hfinder : ∀ n, s.finder.total = some n → n = total)
    (hidle : s.cancelled = false → w.idle → s.finder.Exhausted) :
    Publishes total s.cancelled (w.step x s).1.total (w.step x s).2 := by
  have hknown := step_total (x := x) (s := s) h
  obtain ⟨moves, stage⟩ := w
  cases moves with
  | cons m rest =>
    refine ⟨fun n hn => h.planned n (List.mem_cons_of_mem m hn), fun huncancelled hstage => ?_⟩
    rcases h.stopped huncancelled hstage with hmem | hpublished
    · rcases List.mem_cons.1 hmem with rfl | hmem
      · exact .inr rfl
      · exact .inl hmem
    · rcases hknown with hknown | hknown
      · exact .inr (hknown.trans hpublished)
      · exact .inr hknown
  | nil =>
    rw [step_nil]
    cases stage with
    | learn next =>
      cases htotal : s.finder.total with
      | none =>
        cases next with
        | none =>
          refine ⟨by simp [proceed, htotal], fun huncancelled _ => ?_⟩
          have hexhausted := (hidle huncancelled (.inl rfl)).total
          rw [htotal] at hexhausted
          cases hexhausted
        | some p => exact ⟨by simp [proceed, htotal], by simp [proceed]⟩
      | some n =>
        obtain rfl := hfinder n htotal
        cases next with
        | none => exact ⟨by simp [proceed, htotal], by simp [proceed, htotal]⟩
        | some p => exact ⟨by simp [proceed, htotal], by simp [proceed]⟩
    | look => cases hflag : s.cancelled <;> exact ⟨by simp [proceed, hflag], by simp [proceed, hflag]⟩
    | claim => exact ⟨by simp [proceed], by simp [proceed]⟩
    | read p => cases hx : x p <;> exact ⟨by simp [proceed, hx, report], by simp [proceed, hx]⟩
    | face p file index found =>
      by_cases hindex : index < file.faceCount
      · cases hface : file.face p index <;>
          exact ⟨by simp [proceed, hindex, hface, report], by simp [proceed, hindex, hface]⟩
      · by_cases hfound : found = [] <;>
          exact ⟨by simp [proceed, hindex, hfound], by simp [proceed, hindex, hfound]⟩
    | stopped => exact h

end Worker

end FontCatalog
