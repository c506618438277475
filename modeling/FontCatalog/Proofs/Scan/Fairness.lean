import FontCatalog.Proofs.Scan.Termination
import FontCatalog.Proofs.Scan.Turns

/-! Fair runs end. A turn that brings a scan no nearer to its end leaves the part whose turn is needed as it is;
since that part gets its turn again and again, every run comes to an outcome, whenever it is cancelled and whether
or not anybody reads the events. -/
namespace FontCatalog.Scan
set_option autoImplicit false

def parts (o : ScanOptions) : List ScanActor := .lead :: (List.range (workerCount o)).map .worker

/-- Each part gets its turn again and again. -/
def Fair (s : Scan) (schedule : ℕ → ScanTurn) : Prop :=
  ∀ a ∈ parts s.options, ∀ n, ∃ m ≥ n, schedule m = .part a

variable {x : Extractor} {s : Scan}

/-! ## Parts -/

theorem act_workers (h : s.workers.length ≤ workerCount s.options) (t : ScanTurn) :
    (s.act x t).workers.length ≤ workerCount s.options := by
  cases t with
  | cancel | receive => exact h
  | part a =>
    cases a with
    | lead =>
      rw [act, step]
      cases s.lead.moves with
      | cons m rest => exact h
      | nil =>
        cases hstage : s.lead.stage with
        | release => exact List.length_replicate.le
        | _ =>
          obtain ⟨_, _, _, _, _, hproceed, hworkers⟩ := s.proceed_fixed s.lead.stage
          rw [hstage] at hproceed hworkers
          rw [hproceed, hworkers (by simp)]
          exact h
    | worker number =>
      rw [act, step]
      cases s.workers[number]? with
      | none => exact h
      | some w => simpa using h

theorem turn_mem_parts (h : s.workers.length ≤ workerCount s.options) : s.turn ∈ parts s.options := by
  unfold turn parts
  cases hbusy : s.busyWorker? with
  | none => exact List.mem_cons_self
  | some number =>
    obtain ⟨hnumber, -⟩ := List.findIdx?_eq_some_iff_getElem.1 hbusy
    exact List.mem_cons_of_mem _ (List.mem_map.2 ⟨number, List.mem_range.2 (by omega), rfl⟩)

/-! ## Turns -/

/-- A turn makes a scan come nearer to its end, or leaves its parts as they are. -/
theorem act_stepsLeft (t : ScanTurn) :
    stepsLeft x (s.act x t) < stepsLeft x s ∨
      (stepsLeft x (s.act x t) = stepsLeft x s ∧ (s.act x t).lead = s.lead ∧ (s.act x t).workers = s.workers) := by
  cases t with
  | cancel | receive => exact .inr ⟨rfl, rfl, rfl⟩
  | part a =>
    rw [act]
    cases a with
    | worker number =>
      cases hw : s.workers[number]? with
      | none =>
        right
        rw [step, hw]
        exact ⟨rfl, rfl, rfl⟩
      | some w =>
        cases hbusy : w.isStopped with
        | false => exact .inl (worker_stepsLeft hw hbusy)
        | true =>
          right
          rw [step_stopped hw hbusy]
          exact ⟨rfl, rfl, rfl⟩
    | lead =>
      cases hmoves : s.lead.moves with
      | cons m rest => exact .inl (move_stepsLeft hmoves)
      | nil =>
        rw [step, hmoves]
        dsimp only
        by_cases hdone : s.outcome? = none
        · by_cases hstopped : s.lead.stage = .wait → ∀ w ∈ s.workers, w.isStopped = true
          · exact .inl (proceed_stepsLeft hmoves hstopped hdone)
          · rw [Classical.not_imp] at hstopped
            have hbusy : ¬s.workers.all Worker.isStopped = true := by
              rw [List.all_eq_true]
              exact hstopped.2
            right
            rw [hstopped.1, proceed, if_neg hbusy]
            exact ⟨rfl, rfl, rfl⟩
        · obtain ⟨tree, options, input, state, ⟨moves, stage⟩, workers, digest⟩ := s
          obtain rfl : moves = [] := hmoves
          cases stage with
          | done o => exact .inr ⟨rfl, rfl, rfl⟩
          | _ => exact absurd rfl hdone

/-! ## Schedules -/

/-- The scan after the first `n` turns of a schedule. -/
def during (x : Extractor) (s : Scan) (schedule : ℕ → ScanTurn) (n : ℕ) : Scan :=
  s.played x ((List.range n).map schedule)

variable {schedule : ℕ → ScanTurn}

theorem during_succ (n : ℕ) : s.during x schedule (n + 1) = (s.during x schedule n).act x (schedule n) := by
  rw [during, List.range_succ, List.map_append, List.map_singleton, played_concat]
  rfl

/-- Until the part whose turn is needed gets it, another turn helps or leaves it needed. -/
theorem exists_stepsLeft_lt (wait n : ℕ) (hopen : (s.during x schedule n).outcome? = none)
    (hturn : schedule (n + wait) = .part (s.during x schedule n).turn) :
    ∃ m, stepsLeft x (s.during x schedule m) < stepsLeft x (s.during x schedule n) := by
  -- By induction on how long the part still has to wait for its turn.
  induction wait generalizing n with
  | zero =>
    refine ⟨n + 1, ?_⟩
    rw [during_succ, show schedule n = _ from hturn]
    exact turn_stepsLeft hopen
  | succ wait ih =>
    have hact := act_stepsLeft (x := x) (s := s.during x schedule n) (schedule n)
    rw [← during_succ] at hact
    rcases hact with hless | ⟨hsteps, hlead, hworkers⟩
    · exact ⟨n + 1, hless⟩
    · have hstill : (s.during x schedule (n + 1)).outcome? = none := by
        unfold outcome? at hopen ⊢
        rwa [hlead]
      have hneeded : (s.during x schedule (n + 1)).turn = (s.during x schedule n).turn := by
        unfold turn busyWorker?
        rw [hworkers]
      have hlater : n + 1 + wait = n + (wait + 1) := by omega
      rw [← hsteps]
      exact ih (n + 1) hstill (by rw [hlater, hturn, hneeded])

theorem fair_outcome (hworkers : s.workers.length ≤ workerCount s.options) (hfair : s.Fair schedule) :
    ∃ n o, (s.during x schedule n).outcome? = some o := by
  have hkept (n : ℕ) : (s.during x schedule n).options = s.options ∧
      (s.during x schedule n).workers.length ≤ workerCount (s.during x schedule n).options := by
    induction n with
    | zero => exact ⟨rfl, hworkers⟩
    | succ n ih =>
      rw [during_succ]
      obtain ⟨_, _, _, hact⟩ := act_fixed x (s.during x schedule n) (schedule n)
      have hoptions : ((s.during x schedule n).act x (schedule n)).options = (s.during x schedule n).options := by
        rw [hact]
      rw [hoptions]
      exact ⟨ih.1, act_workers ih.2 _⟩
  have hends (left : ℕ) :
      ∀ n, stepsLeft x (s.during x schedule n) = left → ∃ n o, (s.during x schedule n).outcome? = some o := by
    induction left using Nat.strong_induction_on with
    | _ left ih =>
      intro n hn
      cases hopen : (s.during x schedule n).outcome? with
      | some o => exact ⟨n, o, hopen⟩
      | none =>
        obtain ⟨hoptions, hlength⟩ := hkept n
        obtain ⟨m, hm, hturn⟩ := hfair _ (hoptions ▸ turn_mem_parts hlength) n
        obtain ⟨wait, rfl⟩ := Nat.exists_eq_add_of_le hm
        obtain ⟨m, hless⟩ := exists_stepsLeft_lt wait n hopen hturn
        rw [hn] at hless
        exact ih _ hless m rfl
  exact hends _ 0 rfl

def alternating (n : ℕ) : ScanTurn := .part (if n % 2 = 0 then .lead else .worker 0)

theorem fair_alternating (h : workerCount s.options = 1) : s.Fair alternating := by
  intro a ha n
  simp only [parts, h, List.range_one, List.map_cons, List.map_nil, List.mem_cons, List.not_mem_nil, or_false] at ha
  rcases ha with rfl | rfl
  · refine ⟨2 * n, by omega, ?_⟩
    rw [alternating, if_pos (by omega)]
  · refine ⟨2 * n + 1, by omega, ?_⟩
    rw [alternating, if_neg (by omega)]

end FontCatalog.Scan
