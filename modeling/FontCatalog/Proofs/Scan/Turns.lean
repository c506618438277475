import FontCatalog.Proofs.Scan.Worker

/-! Runs of a scan in its surroundings. Between the steps of its parts a scan may be cancelled, and a reader may
take an event from the channel; a run is a list of such turns. What the leading part has planned is as good as
done: a scan at rest has made those moves, and its channel is left out of sight. -/
namespace FontCatalog
set_option autoImplicit false

/-! ## Moves out of the channel's sight -/

def ScanState.mute (s : ScanState) : ScanState := { s with events := [] }

@[simp] theorem ScanState.mute_emit (s : ScanState) (e : ScanEvent) : (s.emit e).mute = s.mute := by
  unfold emit
  split <;> rfl

namespace ScanMove

def makeAll (moves : List ScanMove) (s : ScanState) : ScanState := moves.foldl (fun s m => m.apply s) s

theorem mute_apply (m : ScanMove) (s : ScanState) : (m.apply s).mute = (m.apply s.mute).mute := by
  cases m with
  | emit e =>
    show (s.emit e).mute = (s.mute.emit e).mute
    rw [ScanState.mute_emit, ScanState.mute_emit]
    rfl
  | _ => rfl

theorem mute_makeAll (moves : List ScanMove) (s : ScanState) :
    (makeAll moves s.mute).mute = (makeAll moves s).mute := by
  have hcongr {s t : ScanState} (h : s.mute = t.mute) : (makeAll moves s).mute = (makeAll moves t).mute := by
    induction moves generalizing s t with
    | nil => exact h
    | cons m rest ih => exact ih (by rw [mute_apply, h, ← mute_apply])
  exact hcongr rfl

theorem makeAll_append (first second : List ScanMove) (s : ScanState) :
    makeAll (first ++ second) s = makeAll second (makeAll first s) := List.foldl_append

theorem mute_enter (p : ScanPhase) (total : Option Nat) (s : ScanState) :
    (makeAll (enter p total) s).mute = { s with claimed := 0, total := total, phase := p }.mute :=
  ScanState.mute_emit _ _

theorem mute_reportErrors (errors : List SearchError) (s : ScanState) :
    (makeAll (reportErrors errors) s).mute =
      { s with
        failureCount := s.failureCount + errors.length
        failures := s.failures ++ errors.map ScanFailure.ofSearch }.mute := by
  induction errors generalizing s with
  | nil => simp [makeAll, reportErrors]
  | cons e rest ih =>
    have hreport : (makeAll (report (.ofSearch e)) s).mute =
        { s with failureCount := s.failureCount + 1, failures := s.failures ++ [ScanFailure.ofSearch e] }.mute := by
      simp only [makeAll, report, List.foldl_cons, List.foldl_nil, apply, ScanState.emit]
      split <;> rfl
    have hrest : reportErrors (e :: rest) = report (.ofSearch e) ++ reportErrors rest := List.flatMap_cons
    rw [hrest, makeAll_append, ← mute_makeAll, hreport, mute_makeAll, ih, List.length_cons, List.map_cons]
    simp [Nat.add_assoc, Nat.add_comm 1]

theorem makeAll_addClaimed (count : Nat) (s : ScanState) :
    makeAll (List.replicate count .addClaimed) s = { s with claimed := s.claimed + count } := by
  induction count generalizing s with
  | zero => rfl
  | succ count ih =>
    rw [List.replicate_succ, makeAll, List.foldl_cons]
    rw [← makeAll, ih, apply, Nat.add_assoc, Nat.add_comm 1]

theorem makeAll_cancel (moves : List ScanMove) (s : ScanState) :
    makeAll moves { s with cancelled := true } = { makeAll moves s with cancelled := true } := by
  have happly (m : ScanMove) (s : ScanState) :
      m.apply { s with cancelled := true } = { m.apply s with cancelled := true } := by
    cases m with
    | emit e =>
      show ScanState.emit _ e = { s.emit e with cancelled := true }
      unfold ScanState.emit
      split <;> rfl
    | _ => rfl
  induction moves generalizing s with
  | nil => rfl
  | cons m rest ih =>
    rw [makeAll, List.foldl_cons, happly]
    exact ih (m.apply s)

end ScanMove

/-- A worker does not look into the channel. -/
theorem Worker.step_mute (x : Extractor) (s : ScanState) (w : Worker) :
    (w.step x s.mute).2 = (w.step x s).2 ∧ (w.step x s.mute).1.mute = (w.step x s).1.mute := by
  obtain ⟨moves, stage⟩ := w
  cases moves with
  | cons m rest => exact ⟨rfl, (m.mute_apply s).symm⟩
  | nil =>
    simp only [step_nil]
    cases stage with
    | read p => cases hx : x p <;> exact ⟨by simp only [proceed, hx], by simp only [proceed, hx]; rfl⟩
    | face p file index found =>
      simp only [proceed]
      split
      · split <;> exact ⟨rfl, rfl⟩
      · split <;> exact ⟨rfl, rfl⟩
    | learn next => cases next <;> exact ⟨rfl, rfl⟩
    | _ => exact ⟨rfl, rfl⟩

/-! ## Turns -/

inductive ScanTurn where
  | part (actor : ScanActor)
  | cancel
  /-- A reader takes the event that has waited longest. -/
  | receive
  deriving DecidableEq, Repr

namespace Scan

def receive (s : Scan) : Scan := { s with state := { s.state with events := s.state.events.tail } }

def act (x : Extractor) (s : Scan) : ScanTurn → Scan
  | .part a => s.step x a
  | .cancel => s.cancel
  | .receive => s.receive

def played (x : Extractor) (s : Scan) (turns : List ScanTurn) : Scan := turns.foldl (act x) s

/-- What is noticed along a run, when `notice` looks at each turn before it is taken. -/
def noticed {β : Type} (notice : Scan → ScanTurn → List β) (x : Extractor) (s : Scan) :
    List ScanTurn → List β
  | [] => []
  | t :: turns => notice s t ++ noticed notice x (s.act x t) turns

section
variable {β : Type} (notice : Scan → ScanTurn → List β) (x : Extractor) (s : Scan) (turns more : List ScanTurn)

theorem played_append : s.played x (turns ++ more) = (s.played x turns).played x more := List.foldl_append

theorem played_concat (t : ScanTurn) : s.played x (turns ++ [t]) = (s.played x turns).act x t := by
  rw [played_append]
  rfl

theorem noticed_append :
    noticed notice x s (turns ++ more) = noticed notice x s turns ++ noticed notice x (s.played x turns) more := by
  induction turns generalizing s with
  | nil => rfl
  | cons t turns ih =>
    rw [List.cons_append, noticed, noticed, ih, List.append_assoc]
    rfl

theorem noticed_concat (t : ScanTurn) :
    noticed notice x s (turns ++ [t]) = noticed notice x s turns ++ notice (s.played x turns) t := by
  rw [noticed_append, noticed, noticed, List.append_nil]

end

def claiming (s : Scan) : ScanTurn → List Path
  | .part (.worker number) => (s.workers[number]?.bind (Worker.claiming s.state)).toList
  | _ => []

def opening (s : Scan) : ScanTurn → List Path
  | .part (.worker number) => (s.workers[number]?.bind Worker.opening).toList
  | _ => []

/-- The files handed to workers along a run, in order. -/
def handed : Extractor → Scan → List ScanTurn → List Path := noticed claiming

def opened : Extractor → Scan → List ScanTurn → List Path := noticed opening

/-! ## What stays -/

/-- A new stage changes the state in what was found and in what is left to find, and only the release of the
workers changes these. -/
theorem proceed_fixed (s : Scan) (stage : LeadStage) :
    ∃ finder records failures lead workers,
      s.proceed stage =
        { s with
          state := { s.state with finder := finder, records := records, failures := failures }
          lead := lead
          workers := workers } ∧
      (stage ≠ .release → workers = s.workers) := by
  cases stage with
  | start =>
    simp only [proceed]
    split
    · exact ⟨_, _, _, _, _, rfl, fun _ => rfl⟩
    · split <;> exact ⟨_, _, _, _, _, rfl, fun _ => rfl⟩
  | wait =>
    simp only [proceed]
    split <;> exact ⟨_, _, _, _, _, rfl, fun _ => rfl⟩
  | release => exact ⟨_, _, _, _, _, rfl, absurd rfl⟩
  | _ => exact ⟨_, _, _, _, _, rfl, fun _ => rfl⟩

theorem act_fixed (x : Extractor) (s : Scan) (t : ScanTurn) :
    ∃ state lead workers, s.act x t = { s with state := state, lead := lead, workers := workers } := by
  cases t with
  | cancel | receive => exact ⟨_, _, _, rfl⟩
  | part a =>
    rw [act, step.eq_def]
    cases a with
    | lead =>
      dsimp only
      cases s.lead.moves with
      | nil =>
        obtain ⟨_, _, _, _, _, hproceed, -⟩ := s.proceed_fixed s.lead.stage
        exact ⟨_, _, _, hproceed⟩
      | cons m rest => exact ⟨_, _, _, rfl⟩
    | worker number =>
      dsimp only
      cases s.workers[number]? <;> exact ⟨_, _, _, rfl⟩

theorem played_fixed (x : Extractor) (s : Scan) (turns : List ScanTurn) :
    ∃ state lead workers, s.played x turns = { s with state := state, lead := lead, workers := workers } := by
  induction turns generalizing s with
  | nil => exact ⟨_, _, _, rfl⟩
  | cons t turns ih =>
    obtain ⟨state, lead, workers, hact⟩ := act_fixed x s t
    obtain ⟨state', lead', workers', hrest⟩ := ih (s.act x t)
    refine ⟨state', lead', workers', ?_⟩
    rw [played, List.foldl_cons, ← played, hrest, hact]

theorem act_lead (x : Extractor) (s : Scan) {t : ScanTurn} (h : t ≠ .part .lead) : (s.act x t).lead = s.lead := by
  cases t with
  | cancel | receive => rfl
  | part a =>
    cases a with
    | lead => exact absurd rfl h
    | worker number =>
      rw [act, step]
      cases s.workers[number]? <;> rfl

/-! ## At rest -/

def quiet (s : Scan) : Scan := { s with state := s.state.mute }

/-- The scan when its leading part has made the moves that it has planned. -/
def atRest (s : Scan) : Scan :=
  { s with state := (ScanMove.makeAll s.lead.moves s.state).mute, lead := ⟨[], s.lead.stage⟩ }

variable {x : Extractor} {s : Scan}

theorem atRest_quiet (s : Scan) : s.quiet.atRest = s.atRest := by
  unfold atRest
  rw [← ScanMove.mute_makeAll s.lead.moves s.state]
  rfl

theorem atRest_of_planless (hmoves : s.lead.moves = []) : s.atRest = s.quiet := by
  obtain ⟨tree, options, input, state, ⟨moves, stage⟩, workers, digest⟩ := s
  obtain rfl : moves = [] := hmoves
  rfl

theorem proceed_quiet (s : Scan) (stage : LeadStage) : (s.proceed stage).quiet = s.quiet.proceed stage := by
  cases stage with
  | start =>
    simp only [proceed]
    cases hinput : s.input with
    | given f => simp only [quiet, hinput]
    | search f =>
      simp only [quiet, hinput]
      split <;> rfl
  | wait =>
    simp only [proceed]
    split <;> simp_all only [quiet, if_true, if_false, Bool.false_eq_true]
  | _ => rfl

theorem worker_quiet (s : Scan) (number : Nat) :
    (s.step x (.worker number)).quiet = (s.quiet.step x (.worker number)).quiet := by
  obtain ⟨tree, options, input, state, lead, workers, digest⟩ := s
  simp only [step, quiet]
  cases workers[number]? with
  | none => rfl
  | some w =>
    obtain ⟨hworker, hstate⟩ := w.step_mute x state
    simp only [hworker, hstate]

theorem atRest_receive : s.receive.atRest = s.atRest := by
  rw [← atRest_quiet, ← atRest_quiet s]
  rfl

theorem atRest_cancel : s.cancel.atRest = s.atRest.cancel := by
  unfold atRest
  simp only [cancel, ScanMove.makeAll_cancel]
  rfl

theorem atRest_move {m : ScanMove} {rest : List ScanMove} (hmoves : s.lead.moves = m :: rest) :
    (s.step x .lead).atRest = s.atRest := by
  rw [step, hmoves, atRest, atRest, hmoves]
  rfl

theorem atRest_proceed (hmoves : s.lead.moves = []) :
    (s.step x .lead).atRest = (s.atRest.proceed s.atRest.lead.stage).atRest := by
  have hstage : s.atRest.lead.stage = s.lead.stage := rfl
  rw [step, hmoves, ← atRest_quiet, proceed_quiet, hstage, atRest_of_planless hmoves]

theorem atRest_worker (hmoves : s.lead.moves = []) (number : Nat) :
    (s.step x (.worker number)).atRest = (s.atRest.step x (.worker number)).atRest := by
  rw [← atRest_quiet, worker_quiet, atRest_quiet, atRest_of_planless hmoves]

end Scan

end FontCatalog
