import FontCatalog.Proofs.Scan.Tally
import FontCatalog.Proofs.Search.Copies
import FontCatalog.Proofs.Search.Discovery

/-! The ledger of a scan, kept at every stage and whether or not the scan is cancelled. Before the workers begin,
the errors of a search that is gone through are the only failures. From then on the files that were handed out are
a first part of those that the shared finder has, and what is found and what the workers owe add up to these files
and the errors that were told. -/
namespace FontCatalog.Scan
set_option autoImplicit false

/-! ## Plans -/

/-- The files that are handed to workers. -/
def chosen (digest : Copies.Digest) (tree : FileTree) (dedup : Bool) (paths : List Path) : List Path :=
  if dedup then (Finder.storable (Copies.uniqueBy digest tree paths)).1 else paths

/-- Whether the search is gone through before the workers begin. -/
def gathers (s : Scan) : Bool :=
  match s.input with
  | .given _ => false
  | .search _ => s.options.precount || s.options.dedup

/-- The errors that are told before the workers begin. -/
def foretold (s : Scan) : List SearchError := if s.gathers then s.input.finder.faults else []

/-- The finder that the workers share, with copies left out or not. -/
def shared (s : Scan) (apart : Bool) : Finder :=
  if s.gathers then
    if apart then .ofPaths (Copies.uniqueBy s.digest s.tree s.input.finder.left)
    else .ofAccepted s.input.finder.left []
  else s.input.finder

/-- What has been found so far. -/
def found (s : Scan) : ScanOutcome :=
  match s.lead.stage with
  | .done o => o
  | _ => ⟨s.state.records, s.state.failures, s.state.cancelled⟩

/-- There are workers from the release on, and all have stopped when the leading part goes on. -/
def Crewed (s : Scan) : Prop :=
  match s.lead.stage with
  | .start | .discover | .choose | .collect | .adopt _ | .extract | .release => s.workers = []
  | .wait => s.workers ≠ []
  | .forward | .close | .done _ => s.workers ≠ [] ∧ ∀ w ∈ s.workers, w.isStopped = true

theorem Crewed.stopped {s : Scan} (h : s.Crewed) (hwait : s.lead.stage ≠ .wait) {w : Worker} (hw : w ∈ s.workers) :
    w.isStopped = true := by
  unfold Crewed at h
  split at h
  all_goals first
    | exact h.2 w hw
    | exact absurd ‹s.lead.stage = .wait› hwait
    | exact absurd (h ▸ hw) List.not_mem_nil

/-- Copies are left out as the options say, unless the scan is cancelled first. -/
structure Picks (s : Scan) (apart : Bool) : Prop where
  allowed : apart = true → s.options.dedup = true
  uncancelled : s.found.cancelled = false → apart = s.options.dedup

/-! ## Books -/

def tally (s : Scan) : Tally :=
  (s.found.records, s.found.failures, s.state.faces, s.state.failureCount, s.state.claimed)

/-- Before the workers begin nothing is handed out, and the errors told are all that was found. -/
structure Unread (told : List SearchError) (files opened : List Path) (s : Scan) : Prop where
  files : files = []
  opened : opened = []
  records : s.state.records = []
  failures : s.state.failures = told.map .ofSearch
  faces : s.state.faces = 0
  failureCount : s.state.failureCount = told.length

/-- The books from the release of the workers on: `rest` is what is left of the shared finder. -/
structure Reading (x : Extractor) (apart : Bool) (rest : Finder) (told : List SearchError)
    (files opened : List Path) (s : Scan) : Prop where
  picks : s.Picks apart
  handed : ∃ k, (s.shared apart).claimMany k = (files, rest)
  balance : s.tally + (s.workers.map (Worker.owed x)).sum = SearchError.tally told + (files.map x.tally).sum
  opening : (opened : Multiset Path) + (s.workers.map Worker.toOpen).sum = files
  planned : ∀ w ∈ s.workers, ∀ m ∈ w.moves, m.ofWorker = true
  ended : s.found.cancelled = false → ∀ w ∈ s.workers, w.idle → rest.Exhausted
  published : (s.shared apart).Fresh →
    ∀ w ∈ s.workers, w.Publishes (s.shared apart).left.length s.found.cancelled s.state.total

def Standing (x : Extractor) (files opened : List Path) (s : Scan) : Prop :=
  match s.lead.stage with
  | .start => s.Unread [] files opened ∧ s.state.finder = s.input.finder
  | .discover => s.gathers = true ∧ s.Unread [] files opened ∧ s.state.finder = s.input.finder
  | .choose => s.gathers = true ∧ s.Unread s.foretold files opened ∧ s.state.finder = s.shared false
  | .collect =>
    (s.gathers = true ∧ s.options.dedup = true) ∧ s.Unread s.foretold files opened ∧
      s.state.finder = s.shared false
  | .adopt paths =>
    (s.gathers = true ∧ s.options.dedup = true) ∧ s.Unread s.foretold files opened ∧ paths = s.input.finder.left
  | .extract => s.Unread s.foretold files opened ∧ ∃ apart, s.Picks apart ∧ s.state.finder = s.shared apart
  | .release =>
    (s.Unread s.foretold files opened ∧ ∃ apart, s.Picks apart ∧ s.state.finder = s.shared apart) ∧
      s.state.claimed = 0 ∧ s.state.phase = .extracting
  | .wait | .forward =>
    (∃ apart, s.Reading x apart s.state.finder s.foretold files opened) ∧ s.state.phase = .extracting
  | .close =>
    (∃ apart rest, s.Reading x apart rest (s.foretold ++ rest.errors) files opened) ∧
      s.state.phase = .extracting
  | .done _ =>
    (∃ apart rest, s.Reading x apart rest (s.foretold ++ rest.errors) files opened) ∧ s.state.phase = .finished

/-- The ledger of a scan at rest that has handed out `files`, of which those in `opened` are opened. -/
structure Ledger (x : Extractor) (files opened : List Path) (s : Scan) : Prop where
  crewed : s.Crewed
  standing : s.Standing x files opened

variable {x : Extractor} {files opened : List Path} {s : Scan}

theorem foretold_of_gathers (h : s.gathers = true) : s.foretold = s.input.finder.faults := if_pos h

theorem foretold_of_not_gathers (h : ¬s.gathers = true) : s.foretold = [] := if_neg h

theorem shared_of_not_gathers (h : ¬s.gathers = true) (apart : Bool) : s.shared apart = s.input.finder :=
  if_neg h

theorem shared_false (h : s.gathers = true) : s.shared false = .ofAccepted s.input.finder.left [] := if_pos h

theorem shared_true (h : s.gathers = true) :
    s.shared true = .ofPaths (Copies.uniqueBy s.digest s.tree s.input.finder.left) := if_pos h

theorem shared_fresh (h : s.input.finder.Fresh) (apart : Bool) : (s.shared apart).Fresh := by
  by_cases hgathers : s.gathers = true
  · cases apart with
    | false =>
      rw [shared_false hgathers]
      exact Finder.fresh_ofAccepted _ _
    | true =>
      rw [shared_true hgathers]
      exact Finder.fresh_ofPaths _
  · rwa [shared_of_not_gathers hgathers]

theorem shared_left (s : Scan) :
    (s.shared s.options.dedup).left = match s.input with
      | .given f => f.left
      | .search f => chosen s.digest s.tree s.options.dedup f.left := by
  obtain ⟨tree, options, input, state, lead, workers, digest⟩ := s
  cases input with
  | given f => rfl
  | search f =>
    cases hdedup : options.dedup with
    | true => simp [shared, gathers, chosen, hdedup, ScanInput.finder]
    | false => cases hprecount : options.precount <;> simp [shared, gathers, chosen, hdedup, hprecount, ScanInput.finder]

/-- Where all paths can be kept in a catalog, the errors are those of the search alone. -/
theorem foretold_faults (h : ∀ p ∈ s.input.finder.left, p.text?.isSome = true) (apart : Bool) :
    s.foretold ++ (s.shared apart).faults = s.input.finder.faults := by
  by_cases hgathers : s.gathers = true
  · have hnone : (s.shared apart).faults = [] := by
      cases apart with
      | false => rw [shared_false hgathers, Finder.faults_ofAccepted]
      | true =>
        have hunique : ∀ p ∈ Copies.uniqueBy s.digest s.tree s.input.finder.left, p.text?.isSome = true :=
          fun p hp => h p ((Copies.uniqueBy_sublist s.digest s.tree s.input.finder.left).subset hp)
        rw [shared_true hgathers, Finder.faults_ofPaths, Finder.storable_of_textual hunique]
    rw [foretold_of_gathers hgathers, hnone, List.append_nil]
  · rw [foretold_of_not_gathers hgathers, shared_of_not_gathers hgathers, List.nil_append]

/-! ## The leading part -/

theorem atRest_start (s : Scan) :
    (s.proceed .start).atRest =
      if s.gathers then
        { s with
          state := { s.state with claimed := 0, total := none, phase := .discovering }.mute
          lead := ⟨[], .discover⟩ }
      else { s with state := s.state.mute, lead := ⟨[], .extract⟩ } := by
  obtain ⟨tree, options, input, state, lead, workers, digest⟩ := s
  cases input with
  | given f => rfl
  | search f =>
    by_cases hfirst : (options.precount || options.dedup) = true
    · simp only [proceed, gathers, hfirst, if_true, atRest, ScanMove.mute_enter]
    · simp only [proceed, gathers, hfirst, if_false, Bool.false_eq_true]
      rfl

theorem start_ledger (h : s.Ledger x files opened) (hstage : s.lead.stage = .start) :
    (s.proceed .start).atRest.Ledger x files opened := by
  obtain ⟨hcrewed, hstanding⟩ := h
  simp only [Crewed, Standing, hstage] at hcrewed hstanding
  obtain ⟨hunread, hfinder⟩ := hstanding
  rw [atRest_start]
  split
  · next hgathers => exact ⟨hcrewed, hgathers, { hunread with }, hfinder⟩
  · next hgathers =>
    rw [← foretold_of_not_gathers hgathers] at hunread
    rw [← shared_of_not_gathers hgathers s.options.dedup] at hfinder
    exact ⟨hcrewed, { hunread with }, s.options.dedup, ⟨id, fun _ => rfl⟩, hfinder⟩

theorem discover_ledger (h : s.Ledger x files opened) (hstage : s.lead.stage = .discover) :
    (s.proceed .discover).atRest.Ledger x files opened := by
  obtain ⟨hcrewed, hstanding⟩ := h
  simp only [Crewed, Standing, hstage] at hcrewed hstanding
  obtain ⟨hgathers, hunread, hfinder⟩ := hstanding
  have hforetold := foretold_of_gathers hgathers
  have htaken : s.state.finder.precounted.takeErrors = (s.foretold, s.shared false) := by
    rw [Finder.precounted_eq, hfinder, hforetold, shared_false hgathers]
    rfl
  simp only [proceed, htaken, atRest, ScanMove.mute_reportErrors]
  refine ⟨hcrewed, hgathers, { hunread with failures := ?_, failureCount := ?_ }, rfl⟩
  · show s.state.failures ++ _ = _
    rw [hunread.failures]
    rfl
  · show s.state.failureCount + _ = _
    rw [hunread.failureCount, List.length_nil, Nat.zero_add]
    rfl

theorem choose_ledger (h : s.Ledger x files opened) (hstage : s.lead.stage = .choose) :
    (s.proceed .choose).atRest.Ledger x files opened := by
  obtain ⟨hcrewed, hstanding⟩ := h
  simp only [Crewed, Standing, hstage] at hcrewed hstanding
  obtain ⟨hgathers, hunread, hfinder⟩ := hstanding
  by_cases hapart : (s.options.dedup && !s.state.cancelled) = true
  · simp only [proceed, hapart, if_true]
    rw [Bool.and_eq_true] at hapart
    exact ⟨hcrewed, ⟨hgathers, hapart.1⟩, { hunread with }, hfinder⟩
  · simp only [proceed, hapart, if_false, Bool.false_eq_true]
    refine ⟨hcrewed, { hunread with }, false, ⟨by simp, ?_⟩, hfinder⟩
    intro huncancelled
    have hflag : s.state.cancelled = false := huncancelled
    rw [hflag, Bool.not_false, Bool.and_true, Bool.not_eq_true] at hapart
    exact hapart.symm

theorem collect_ledger (h : s.Ledger x files opened) (hstage : s.lead.stage = .collect) :
    (s.proceed .collect).atRest.Ledger x files opened := by
  obtain ⟨hcrewed, hstanding⟩ := h
  simp only [Crewed, Standing, hstage] at hcrewed hstanding
  obtain ⟨hplan, hunread, hfinder⟩ := hstanding
  have hpaths : s.state.finder.drain.1 = s.input.finder.left := by
    rw [Finder.drain_eq_left, hfinder, shared_false hplan.1, Finder.left_ofAccepted]
  simp only [proceed, atRest, ScanMove.makeAll_append]
  rw [← ScanMove.mute_makeAll, ScanMove.mute_enter, ScanMove.makeAll_addClaimed]
  exact ⟨hcrewed, hplan, { hunread with }, hpaths⟩

theorem adopt_ledger {paths : List Path} (h : s.Ledger x files opened) (hstage : s.lead.stage = .adopt paths) :
    (s.proceed (.adopt paths)).atRest.Ledger x files opened := by
  obtain ⟨hcrewed, hstanding⟩ := h
  simp only [Crewed, Standing, hstage] at hcrewed hstanding
  obtain ⟨⟨hgathers, hdedup⟩, hunread, rfl⟩ := hstanding
  exact ⟨hcrewed, { hunread with }, true, ⟨fun _ => hdedup, fun _ => hdedup.symm⟩, (shared_true hgathers).symm⟩

theorem extract_ledger (h : s.Ledger x files opened) (hstage : s.lead.stage = .extract) :
    (s.proceed .extract).atRest.Ledger x files opened := by
  obtain ⟨hcrewed, hstanding⟩ := h
  simp only [Crewed, Standing, hstage] at hcrewed hstanding
  obtain ⟨hunread, apart, ⟨hallowed, hpicked⟩, hfinder⟩ := hstanding
  simp only [proceed, atRest, ScanMove.mute_enter]
  have huncancelled : s.state.cancelled = false → apart = s.options.dedup := by
    rwa [found, hstage] at hpicked
  exact ⟨hcrewed, ⟨{ hunread with }, apart, ⟨hallowed, huncancelled⟩, hfinder⟩, rfl, rfl⟩

theorem release_ledger (h : s.Ledger x files opened) (hstage : s.lead.stage = .release) :
    (s.proceed .release).atRest.Ledger x files opened := by
  obtain ⟨-, hstanding⟩ := h
  simp only [Standing, hstage] at hstanding
  obtain ⟨⟨⟨rfl, rfl, hrecords, hfailures, hfaces, hcount⟩, apart, ⟨hallowed, hpicked⟩, hfinder⟩, hclaimed,
    hphase⟩ := hstanding
  have huncancelled : s.state.cancelled = false → apart = s.options.dedup := by
    rwa [found, hstage] at hpicked
  have hfresh {w : Worker} (hw : w ∈ (s.proceed .release).atRest.workers) : w = .fresh :=
    List.eq_of_mem_replicate hw
  have hbooks : s.state.tally = SearchError.tally s.foretold := by
    rw [ScanState.tally, hrecords, hfailures, hfaces, hcount, hclaimed]
    rfl
  refine ⟨?_, ⟨apart, ⟨hallowed, huncancelled⟩, ⟨0, ?_⟩, ?_, ?_, ?_, ?_, ?_⟩, hphase⟩
  · have hcount : workerCount s.options ≠ 0 := by
      unfold workerCount
      omega
    simpa [proceed, Crewed, atRest] using hcount
  · exact congrArg (Prod.mk []) hfinder.symm
  · have howed : ((s.proceed .release).atRest.workers.map (Worker.owed x)).sum = 0 := by
      refine List.sum_eq_zero (List.forall_mem_map.2 fun w hw => ?_)
      rw [hfresh hw]
      rfl
    rw [howed]
    exact congrArg (· + 0) hbooks
  · have hopen : ((s.proceed .release).atRest.workers.map Worker.toOpen).sum = 0 := by
      refine List.sum_eq_zero (List.forall_mem_map.2 fun w hw => ?_)
      rw [hfresh hw]
      rfl
    rw [hopen]
    rfl
  · intro w hw m hm
    rw [hfresh hw] at hm
    cases hm
  · intro _ w hw hidle
    rw [hfresh hw] at hidle
    rcases hidle with hidle | hidle <;> cases hidle
  · intro _ w hw
    rw [hfresh hw]
    exact ⟨by simp [Worker.fresh], by simp [Worker.fresh]⟩

theorem wait_ledger (h : s.Ledger x files opened) (hlead : s.lead = ⟨[], .wait⟩) :
    (s.proceed .wait).atRest.Ledger x files opened := by
  obtain ⟨tree, options, input, state, lead, workers, digest⟩ := s
  dsimp only at hlead
  subst hlead
  obtain ⟨hcrewed, ⟨apart, hreading⟩, hphase⟩ := h
  by_cases hstopped : workers.all Worker.isStopped = true
  · simp only [proceed, hstopped, if_true]
    exact ⟨⟨hcrewed, List.all_eq_true.1 hstopped⟩,
      ⟨apart, { hreading with picks := { hreading.picks with } }⟩, hphase⟩
  · simp only [proceed, hstopped, if_false, Bool.false_eq_true]
    exact ⟨hcrewed, ⟨apart, { hreading with picks := { hreading.picks with } }⟩, hphase⟩

theorem forward_ledger (h : s.Ledger x files opened) (hlead : s.lead = ⟨[], .forward⟩) :
    (s.proceed .forward).atRest.Ledger x files opened := by
  obtain ⟨tree, options, input, state, lead, workers, digest⟩ := s
  dsimp only at hlead
  subst hlead
  obtain ⟨hcrewed, ⟨apart, hreading⟩, hphase⟩ := h
  have hstate := ScanMove.mute_reportErrors state.finder.errors { state with finder := state.finder.takeErrors.2 }
  have htold : (ScanMove.makeAll (ScanMove.reportErrors state.finder.errors)
      { state with finder := state.finder.takeErrors.2 }).mute.tally =
        state.tally + SearchError.tally state.finder.errors := ScanMove.tally_reportErrors _ _
  simp only [proceed, atRest, Finder.takeErrors] at hstate htold ⊢
  rw [hstate] at htold ⊢
  refine ⟨hcrewed, ⟨apart, state.finder, { hreading with picks := { hreading.picks with }, balance := ?_ }⟩, hphase⟩
  have hsum := congrArg (· + SearchError.tally state.finder.errors) hreading.balance
  rw [SearchError.tally_append]
  dsimp only at hsum
  rw [add_right_comm, add_right_comm (SearchError.tally _)] at hsum
  exact (congrArg (· + _) htold).trans hsum

theorem close_ledger (h : s.Ledger x files opened) (hlead : s.lead = ⟨[], .close⟩) :
    (s.proceed .close).atRest.Ledger x files opened := by
  obtain ⟨tree, options, input, state, lead, workers, digest⟩ := s
  dsimp only at hlead
  subst hlead
  obtain ⟨hcrewed, ⟨apart, rest, hreading⟩, hphase⟩ := h
  have hmade (s : ScanState) (e e' : ScanEvent) :
      (ScanMove.makeAll [.setPhase .finished, .emit e, .emit e'] s).mute = { s with phase := .finished }.mute := by
    show ((ScanState.emit _ e).emit e').mute = _
    rw [ScanState.mute_emit, ScanState.mute_emit]
    rfl
  simp only [proceed, atRest, hmade]
  exact ⟨hcrewed, ⟨apart, rest, { hreading with picks := { hreading.picks with } }⟩, rfl⟩

theorem done_ledger {o : ScanOutcome} (h : s.Ledger x files opened) (hlead : s.lead = ⟨[], .done o⟩) :
    (s.proceed (.done o)).atRest.Ledger x files opened := by
  obtain ⟨tree, options, input, state, lead, workers, digest⟩ := s
  dsimp only at hlead
  subst hlead
  obtain ⟨hcrewed, ⟨apart, rest, hreading⟩, hphase⟩ := h
  exact ⟨hcrewed, ⟨apart, rest, { hreading with picks := { hreading.picks with } }⟩, hphase⟩

theorem proceed_ledger (h : s.Ledger x files opened) (hmoves : s.lead.moves = []) :
    (s.proceed s.lead.stage).atRest.Ledger x files opened := by
  have hlead {stage : LeadStage} (hstage : s.lead.stage = stage) : s.lead = ⟨[], stage⟩ := by
    rw [← hmoves, ← hstage]
  cases hstage : s.lead.stage with
  | start => exact start_ledger h hstage
  | discover => exact discover_ledger h hstage
  | choose => exact choose_ledger h hstage
  | collect => exact collect_ledger h hstage
  | adopt paths => exact adopt_ledger h hstage
  | extract => exact extract_ledger h hstage
  | release => exact release_ledger h hstage
  | wait => exact wait_ledger h (hlead hstage)
  | forward => exact forward_ledger h (hlead hstage)
  | close => exact close_ledger h (hlead hstage)
  | done o => exact done_ledger h (hlead hstage)

/-! ## Workers -/

theorem worker_ledger (h : s.Ledger x files opened) (hlead : s.lead = ⟨[], .wait⟩) {number : Nat} {w : Worker}
    (hw : s.workers[number]? = some w) :
    (s.step x (.worker number)).atRest.Ledger x (files ++ (w.claiming s.state).toList)
      (opened ++ w.opening.toList) := by
  obtain ⟨before, behind, hworkers, hstep⟩ := step_worker (x := x) hw
  rw [hstep]
  obtain ⟨tree, options, input, state, lead, workers, digest⟩ := s
  dsimp only at hlead hworkers
  subst hlead hworkers
  obtain ⟨hcrewed, ⟨apart, hpicks, ⟨k, hhanded⟩, hbalance, hopening, hplanned, hended, hpublished⟩, hphase⟩ := h
  dsimp only at *
  have hmem : w ∈ before ++ w :: behind := by simp
  have hcancelled := Worker.step_cancelled x state w
  refine ⟨?_, ⟨apart, ⟨hpicks.allowed, ?_⟩, ?_, ?_, ?_, ?_, ?_, ?_⟩, ?_⟩
  · simp [Crewed, atRest]
  · intro huncancelled
    exact hpicks.uncancelled (hcancelled.symm.trans huncancelled)
  · -- What the step claims, if anything, is the next claim of the shared finder.
    obtain ⟨hclaiming, hfinder⟩ | ⟨hclaiming, hfinder⟩ := Worker.step_finder x state w
    · have hnext := Finder.claimMany_next hhanded
      rw [← hclaiming, ← hfinder] at hnext
      exact ⟨k + 1, hnext⟩
    · refine ⟨k, hhanded.trans ?_⟩
      show _ = (_, (w.step x state).1.finder)
      rw [hclaiming, hfinder, Option.toList_none, List.append_nil]
  · rw [List.map_append, List.sum_append, ← add_assoc]
    exact Worker.add_sum_step _ (Worker.owed_step x state w (hplanned w hmem)) hbalance
  · have hopen := Worker.toOpen_step x state w
    rw [← Multiset.coe_add, ← Multiset.coe_add]
    refine Worker.add_sum_step _ ?_ hopening
    rw [add_assoc, hopen, add_assoc]
  · exact Worker.forall_mem_step (fun _ => id) (Worker.step_ofWorker x state w (hplanned w hmem)) hplanned
  · intro huncancelled
    have hflag : state.cancelled = false := hcancelled.symm.trans huncancelled
    refine Worker.forall_mem_step (fun v hv hidle => Worker.step_exhausted x state w (hv hidle)) ?_ (hended hflag)
    exact Worker.step_idle x state w (fun _ => Finder.exhausted_of_claim_none) hflag (hended hflag w hmem)
  · intro hfresh
    have hfinder (n : ℕ) (hn : state.finder.total = some n) :=
      Finder.Fresh.total_claimMany hfresh k ((congrArg (fun c => c.2.total) hhanded).trans hn)
    have hown := (hpublished hfresh w hmem).step (x := x) hfinder fun hflag => hended hflag w hmem
    have hflag (huncancelled : (w.step x state).1.cancelled = false) : state.cancelled = false :=
      hcancelled.symm.trans huncancelled
    refine Worker.forall_mem_step (fun v hv => ?_) (hown.mono hflag (.inl rfl)) (hpublished hfresh)
    exact hv.mono hflag (Worker.step_total (hpublished hfresh w hmem))
  · exact (Worker.step_phase x state w (hplanned w hmem)).trans hphase

/-! ## Cancelling -/

theorem found_cancel (s : Scan) (h : s.cancel.found.cancelled = false) : s.found.cancelled = false := by
  obtain ⟨tree, options, input, state, ⟨moves, stage⟩, workers, digest⟩ := s
  cases stage with
  | done o => exact h
  | _ => cases h

theorem Picks.cancel {apart : Bool} (h : s.Picks apart) : s.cancel.Picks apart :=
  ⟨h.allowed, fun huncancelled => h.uncancelled (found_cancel s huncancelled)⟩

theorem Unread.cancel {told : List SearchError} (h : s.Unread told files opened) : s.cancel.Unread told files opened :=
  { h with }

theorem Reading.cancel {apart : Bool} {rest : Finder} {told : List SearchError}
    (h : s.Reading x apart rest told files opened) : s.cancel.Reading x apart rest told files opened := by
  have hsame : s.cancel.tally = s.tally := by
    obtain ⟨tree, options, input, state, ⟨moves, stage⟩, workers, digest⟩ := s
    cases stage <;> rfl
  refine { h with picks := h.picks.cancel, balance := ?_, ended := ?_, published := ?_ }
  · rw [hsame]
    exact h.balance
  · exact fun huncancelled => h.ended (found_cancel s huncancelled)
  · exact fun hfresh w hw => (h.published hfresh w hw).mono (found_cancel s) (.inl rfl)

theorem cancel_ledger (h : s.Ledger x files opened) : s.cancel.Ledger x files opened := by
  obtain ⟨hcrewed, hstanding⟩ := h
  refine ⟨hcrewed, ?_⟩
  obtain ⟨tree, options, input, state, ⟨moves, stage⟩, workers, digest⟩ := s
  cases stage with
  | start => exact ⟨hstanding.1.cancel, hstanding.2⟩
  | discover | choose | collect | adopt paths => exact ⟨hstanding.1, hstanding.2.1.cancel, hstanding.2.2⟩
  | extract =>
    obtain ⟨hunread, apart, hpicks, hfinder⟩ := hstanding
    exact ⟨hunread.cancel, apart, hpicks.cancel, hfinder⟩
  | release =>
    obtain ⟨⟨hunread, apart, hpicks, hfinder⟩, hentered⟩ := hstanding
    exact ⟨⟨hunread.cancel, apart, hpicks.cancel, hfinder⟩, hentered⟩
  | wait | forward =>
    obtain ⟨⟨apart, hreading⟩, hphase⟩ := hstanding
    exact ⟨⟨apart, hreading.cancel⟩, hphase⟩
  | close | done o =>
    obtain ⟨⟨apart, rest, hreading⟩, hphase⟩ := hstanding
    exact ⟨⟨apart, rest, hreading.cancel⟩, hphase⟩

/-! ## Runs -/

/-- The ledger of a scan, whose leading part has nothing planned while it waits for the workers. -/
structure Kept (x : Extractor) (files opened : List Path) (s : Scan) : Prop where
  waiting : s.lead.stage = .wait → s.lead.moves = []
  ledger : s.atRest.Ledger x files opened

theorem kept_make (x : Extractor) (tree : FileTree) (options : ScanOptions) (input : ScanInput)
    (digest : Copies.Digest) : ((make tree options input).comparingBy digest).Kept x [] [] :=
  ⟨fun _ => rfl, rfl, ⟨rfl, rfl, rfl, rfl, rfl, rfl⟩, rfl⟩

theorem Kept.planned (h : s.Kept x files opened) {w : Worker} (hw : w ∈ s.workers) {m : ScanMove} (hm : m ∈ w.moves) :
    m.ofWorker = true := by
  by_cases hwait : s.lead.stage = .wait
  · have hstage : s.atRest.lead.stage = .wait := hwait
    have hstanding := h.ledger.standing
    rw [Standing, hstage] at hstanding
    obtain ⟨⟨apart, hreading⟩, -⟩ := hstanding
    exact hreading.planned w hw m hm
  · have hstopped := h.ledger.crewed.stopped hwait hw
    rw [Worker.isStopped_iff.1 hstopped] at hm
    cases hm

theorem proceed_waiting (hmoves : s.lead.moves = []) (stage : LeadStage)
    (hwait : (s.proceed stage).lead.stage = .wait) : (s.proceed stage).lead.moves = [] := by
  cases stage with
  | release => rfl
  | wait =>
    simp only [proceed]
    split
    · rfl
    · exact hmoves
  | start =>
    simp only [proceed] at hwait
    split at hwait
    · cases hwait
    · split at hwait <;> cases hwait
  | choose =>
    simp only [proceed] at hwait
    split at hwait <;> cases hwait
  | _ => cases hwait

/-- Each turn keeps the ledger, and adds to it the file that is claimed and the one that is opened. -/
theorem kept_act (h : s.Kept x files opened) (t : ScanTurn) :
    (s.act x t).Kept x (files ++ s.claiming t) (opened ++ s.opening t) := by
  cases t with
  | cancel =>
    simp only [claiming, opening, List.append_nil]
    refine ⟨h.waiting, ?_⟩
    rw [act, atRest_cancel]
    exact cancel_ledger h.ledger
  | receive =>
    simp only [claiming, opening, List.append_nil]
    refine ⟨h.waiting, ?_⟩
    rw [act, atRest_receive]
    exact h.ledger
  | part a =>
    cases a with
    | lead =>
      simp only [claiming, opening, List.append_nil, act]
      cases hmoves : s.lead.moves with
      | cons m rest =>
        refine ⟨fun hwait => ?_, ?_⟩
        · rw [step, hmoves] at hwait
          have hnone := h.waiting hwait
          rw [hmoves] at hnone
          cases hnone
        · rw [atRest_move hmoves]
          exact h.ledger
      | nil =>
        refine ⟨?_, ?_⟩
        · rw [step, hmoves]
          exact proceed_waiting hmoves _
        · rw [atRest_proceed hmoves]
          exact proceed_ledger h.ledger rfl
    | worker number =>
      simp only [claiming, opening, act]
      cases hw : s.workers[number]? with
      | none =>
        rw [step, hw]
        simpa using h
      | some w =>
        by_cases hwait : s.lead.stage = .wait
        · have hmoves := h.waiting hwait
          have hstep := worker_ledger h.ledger (by rw [← hwait]; rfl) hw
          rw [← atRest_worker hmoves] at hstep
          rw [atRest_of_planless hmoves] at hstep
          refine ⟨fun _ => ?_, hstep⟩
          rw [step, hw]
          exact hmoves
        · have hstopped := h.ledger.crewed.stopped hwait (List.mem_of_getElem? hw)
          rw [step_stopped hw hstopped, Worker.isStopped_iff.1 hstopped]
          show s.Kept x (files ++ []) (opened ++ [])
          rwa [List.append_nil, List.append_nil]

/-- The ledger of a run holds all files that were handed out and all that were opened. -/
theorem kept_played (h : s.Kept x files opened) (turns : List ScanTurn) :
    (s.played x turns).Kept x (files ++ handed x s turns) (opened ++ Scan.opened x s turns) := by
  induction turns generalizing s files opened with
  | nil =>
    show s.Kept x (files ++ []) (opened ++ [])
    rwa [List.append_nil, List.append_nil]
  | cons t turns ih =>
    have hrest := ih (kept_act h t)
    rwa [List.append_assoc, List.append_assoc] at hrest

end FontCatalog.Scan
