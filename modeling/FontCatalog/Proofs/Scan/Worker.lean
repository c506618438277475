import FontCatalog.Proofs.Search.Finder
import FontCatalog.Scan

/-! What a worker owes. From the moment it claims a file until it looks for the next one, the moves that it
will make are fixed: those already planned, and those that reading the rest of the file gives. A step
makes one of them or leaves them as they are; only a claim adds to them. -/
namespace FontCatalog
set_option autoImplicit false

/-! ## Moves -/

namespace ScanMove

@[simp] theorem apply_finder (m : ScanMove) (s : ScanState) : (m.apply s).finder = s.finder := by
  cases m with
  | emit e =>
    show (s.emit e).finder = s.finder
    unfold ScanState.emit
    split <;> rfl
  | _ => rfl

@[simp] theorem apply_cancelled (m : ScanMove) (s : ScanState) :
    (m.apply s).cancelled = s.cancelled := by
  cases m with
  | emit e =>
    show (s.emit e).cancelled = s.cancelled
    unfold ScanState.emit
    split <;> rfl
  | _ => rfl

end ScanMove

/-- The move that the next step makes, if one is planned. -/
def ScanPart.next {σ : Type} (p : ScanPart σ) : List ScanMove := p.moves.take 1

/-! ## Files -/

/-- The faces of a file that can be read. -/
def Extractor.faces (x : Extractor) (p : Path) : List Face :=
  match x p with
  | .error _ => []
  | .ok file => (List.range file.faceCount).filterMap fun index => (file.face p index).toOption

namespace Worker

def failure? : Except DecodeError Face → Option DecodeError
  | .error e => some e
  | .ok _ => none

def keepAll (found : List Face) : List ScanMove :=
  if found = [] then [] else [.addFaces found.length, .keepRecords found]

/-- The moves that come of reading the faces from `index` on. -/
def faceMoves (p : Path) (file : FontFile) (index : Nat) (found : List Face) : List ScanMove :=
  let results := (List.range' index (file.faceCount - index)).map (file.face p)
  (results.filterMap failure?).flatMap (fun e => ScanMove.report (.ofDecode e)) ++
    keepAll (found ++ results.filterMap Except.toOption)

/-- The moves that come of reading a file. -/
def fileMoves (x : Extractor) (p : Path) : List ScanMove :=
  match x p with
  | .error e => ScanMove.report (.ofDecode e)
  | .ok file => faceMoves p file 0 []

theorem faceMoves_end {p : Path} {file : FontFile} {index : Nat} (h : ¬index < file.faceCount)
    (found : List Face) : faceMoves p file index found = keepAll found := by
  have hnone : file.faceCount - index = 0 := by omega
  simp [faceMoves, hnone]

theorem faceMoves_ok {p : Path} {file : FontFile} {index : Nat} {f : Face} (h : index < file.faceCount)
    (hf : file.face p index = .ok f) (found : List Face) :
    faceMoves p file index found = faceMoves p file (index + 1) (found ++ [f]) := by
  have hmore : file.faceCount - index = (file.faceCount - (index + 1)) + 1 := by omega
  simp [faceMoves, hmore, List.range'_succ, hf, List.filterMap_cons, failure?, Except.toOption]

theorem faceMoves_error {p : Path} {file : FontFile} {index : Nat} {e : DecodeError}
    (h : index < file.faceCount) (he : file.face p index = .error e) (found : List Face) :
    faceMoves p file index found =
      ScanMove.report (.ofDecode e) ++ faceMoves p file (index + 1) found := by
  have hmore : file.faceCount - index = (file.faceCount - (index + 1)) + 1 := by omega
  simp [faceMoves, hmore, List.range'_succ, he, List.filterMap_cons, failure?, Except.toOption]

/-! ## What is due -/

/-- The moves that a stage leads to before the worker looks for another file. -/
def stageMoves (x : Extractor) : WorkerStage → List ScanMove
  | .learn (some p) => .addClaimed :: fileMoves x p
  | .read p => fileMoves x p
  | .face p file index found => faceMoves p file index found
  | .look | .claim | .learn none | .stopped => []

def due (x : Extractor) (w : Worker) : List ScanMove := w.moves ++ stageMoves x w.stage

/-- The file that is claimed at a stage. -/
def claimAt (s : ScanState) : WorkerStage → Option Path
  | .claim => s.finder.claim.1
  | _ => none

/-- The file that the next step claims. -/
def claiming (s : ScanState) (w : Worker) : Option Path :=
  match w.moves with
  | [] => claimAt s w.stage
  | _ :: _ => none

/-- The file that the next step opens. -/
def opening (w : Worker) : Option Path :=
  match w.moves, w.stage with
  | [], .read p => some p
  | _, _ => none

variable (x : Extractor) (s : ScanState)

/-- A new stage leads to the moves of the old one, and to those of a file that is claimed. Setting the total
is left out of the account: whether a worker does depends on what the others have done. -/
theorem due_proceed {β : Type} (g : ScanMove → List β) (hg : ∀ n, g (.setTotal n) = [])
    (stage : WorkerStage) :
    (due x (proceed x s stage).2).flatMap g =
      (stageMoves x stage).flatMap g ++
        (claimAt s stage).toList.flatMap fun p => (.addClaimed :: fileMoves x p).flatMap g := by
  cases stage with
  | look => cases hcancelled : s.cancelled <;> simp [proceed, hcancelled, due, stageMoves, claimAt]
  | stopped => simp [proceed, due, stageMoves, claimAt]
  | claim => rcases hclaim : s.finder.claim with ⟨_ | p, f⟩ <;> simp [proceed, hclaim, due, stageMoves, claimAt]
  | learn next =>
    cases htotal : s.finder.total <;> cases next <;> simp [proceed, htotal, due, stageMoves, claimAt, hg]
  | read p => cases hx : x p <;> simp [proceed, hx, due, stageMoves, claimAt, fileMoves]
  | face p file index found =>
    by_cases hindex : index < file.faceCount
    · cases hface : file.face p index with
      | ok f => simp [proceed, hindex, hface, due, stageMoves, claimAt, faceMoves_ok hindex hface]
      | error e => simp [proceed, hindex, hface, due, stageMoves, claimAt, faceMoves_error hindex hface]
    · by_cases hfound : found = [] <;>
        simp [proceed, hindex, hfound, due, stageMoves, claimAt, faceMoves_end hindex, keepAll]

@[simp] theorem step_nil (stage : WorkerStage) : step x s ⟨[], stage⟩ = proceed x s stage := rfl

@[simp] theorem step_cons (m : ScanMove) (rest : List ScanMove) (stage : WorkerStage) :
    step x s ⟨m :: rest, stage⟩ = (m.apply s, ⟨rest, stage⟩) := rfl

variable (w : Worker)

/-- A step makes a move that is due, or leaves them and adds those of a file. -/
theorem due_step {β : Type} (g : ScanMove → List β) (hg : ∀ n, g (.setTotal n) = []) :
    w.next.flatMap g ++ (due x (w.step x s).2).flatMap g =
      (due x w).flatMap g ++
        (w.claiming s).toList.flatMap fun p => (.addClaimed :: fileMoves x p).flatMap g := by
  obtain ⟨moves, stage⟩ := w
  cases moves with
  | nil =>
    have hproceed := due_proceed x s g hg stage
    simpa only [ScanPart.next, step_nil, due, claiming, List.take_nil, List.flatMap_nil, List.nil_append]
      using hproceed
  | cons m rest => simp [ScanPart.next, due, claiming]

/-! ## The shared state -/

theorem proceed_state (stage : WorkerStage) :
    (proceed x s stage).1 = match stage with
      | .claim => { s with finder := s.finder.claim.2 }
      | _ => s := by
  cases stage with
  | learn next => cases next <;> rfl
  | read p =>
    rw [proceed]
    cases x p <;> rfl
  | face p file index found =>
    rw [proceed]
    split
    · cases file.face p index <;> rfl
    · split <;> rfl
  | _ => rfl

theorem step_cancelled : (w.step x s).1.cancelled = s.cancelled := by
  obtain ⟨moves, stage⟩ := w
  cases moves with
  | nil =>
    rw [step_nil, proceed_state]
    cases stage <;> rfl
  | cons m rest => exact m.apply_cancelled s

/-! ## The end -/

/-- Whether a worker has found nothing to claim. -/
def idle (w : Worker) : Prop := w.stage = .learn none ∨ w.stage = .stopped

/-- Unless the scan is cancelled, a worker stops only when no file is left: what holds of a finder that has
nothing to claim holds then. -/
theorem step_idle {P : Finder → Prop} (hnothing : ∀ f : Finder, f.claim.1 = none → P f.claim.2)
    (huncancelled : s.cancelled = false) (hidle : w.idle → P s.finder) (hnext : (w.step x s).2.idle) :
    P (w.step x s).1.finder := by
  obtain ⟨moves, stage⟩ := w
  cases moves with
  | cons m rest =>
    rw [step_cons, ScanMove.apply_finder]
    exact hidle hnext
  | nil =>
    rw [step_nil] at hnext ⊢
    rw [proceed_state]
    cases stage with
    | look => simp [proceed, huncancelled, idle] at hnext
    | claim =>
      cases hclaim : s.finder.claim.1 with
      | none => exact hnothing s.finder hclaim
      | some p => simp [proceed, hclaim, idle] at hnext
    | learn next =>
      cases next with
      | none => exact hidle (.inl rfl)
      | some p => simp [proceed, idle] at hnext
    | read p => cases hx : x p <;> simp [proceed, hx, idle] at hnext
    | face p file index found =>
      by_cases hindex : index < file.faceCount
      · cases hface : file.face p index <;> simp [proceed, hindex, hface, idle] at hnext
      · by_cases hfound : found = [] <;> simp [proceed, hindex, hfound, idle] at hnext
    | stopped => exact hidle (.inr rfl)

theorem isStopped_iff {w : Worker} : w.isStopped = true ↔ w = ⟨[], .stopped⟩ := by
  obtain ⟨moves, stage⟩ := w
  cases moves <;> cases stage <;> simp [isStopped]

end Worker

/-! ## Workers of a scan -/

namespace Scan

variable {x : Extractor} {s : Scan}

/-- A worker steps on the shared state and leaves the other workers as they are. -/
theorem step_worker {number : Nat} {w : Worker} (hw : s.workers[number]? = some w) :
    ∃ before behind, s.workers = before ++ w :: behind ∧
      s.step x (.worker number) =
        { s with
          state := (w.step x s.state).1
          workers := before ++ (w.step x s.state).2 :: behind } := by
  obtain ⟨hnumber, rfl⟩ := List.getElem?_eq_some_iff.1 hw
  refine ⟨s.workers.take number, s.workers.drop (number + 1), ?_, ?_⟩
  · rw [List.getElem_cons_drop, List.take_append_drop]
  · rw [step, hw]
    dsimp only
    rw [List.set_eq_take_append_cons_drop, if_pos hnumber]

theorem step_stopped {number : Nat} {w : Worker} (hw : s.workers[number]? = some w)
    (hstopped : w.isStopped = true) : s.step x (.worker number) = s := by
  obtain ⟨before, behind, hworkers, hstep⟩ := step_worker (x := x) hw
  have hsame : w.step x s.state = (s.state, w) := by
    rw [Worker.isStopped_iff.1 hstopped]
    rfl
  rw [hstep, hsame, ← hworkers]

/-- The scan after its parts have taken steps in this order. -/
def after (x : Extractor) (s : Scan) (order : List ScanActor) : Scan := order.foldl (step x) s

theorem after_append (order more : List ScanActor) :
    s.after x (order ++ more) = (s.after x order).after x more := List.foldl_append

end Scan

end FontCatalog
