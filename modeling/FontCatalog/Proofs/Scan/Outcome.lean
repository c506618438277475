import FontCatalog.Proofs.Scan.Announcements
import FontCatalog.Proofs.Scan.Fairness

/-! What a scan has found when it is done. The ledger is closed then: the records and the failures are those of the
files that were handed out and of the errors met in the search, each once, and the progress shows their numbers. A
scan that is not cancelled has handed out all files and met all errors. -/
namespace FontCatalog.Scan
set_option autoImplicit false

variable {x : Extractor} {files opened : List Path} {s : Scan}

/-! ## The closed ledger -/

theorem lead_of_outcome? {o : ScanOutcome} (ho : s.outcome? = some o) : s.lead = ⟨[], .done o⟩ := by
  obtain ⟨tree, options, input, state, ⟨moves, stage⟩, workers, digest⟩ := s
  unfold outcome? at ho
  split at ho
  · next hmoves hdone =>
    dsimp only at hmoves hdone
    cases ho
    rw [hmoves, hdone]
  · cases ho

/-- An outcome that holds the faces and the failures of `files` and the errors in `told`, and the progress to it. -/
structure Holds (x : Extractor) (files : List Path) (told : List SearchError) (o : ScanOutcome) (s : Scan) :
    Prop where
  records : o.records.Perm (files.flatMap x.faces)
  failures : o.failures.Perm (told.map .ofSearch ++ files.flatMap x.failures)
  progress : s.progress = ⟨.finished, files.length, s.state.total, o.records.length, o.failures.length⟩

theorem holds_of_kept (h : s.Kept x files opened) {o : ScanOutcome} (ho : s.outcome? = some o) :
    ∃ apart rest, (apart = true → s.options.dedup = true) ∧
      (∃ k, (s.shared apart).claimMany k = (files, rest)) ∧ opened.Perm files ∧
      s.Holds x files (s.foretold ++ rest.errors) o ∧
      (o.cancelled = false → apart = s.options.dedup ∧ rest.Exhausted ∧
        ((s.shared apart).Fresh → s.state.total = some (s.shared apart).left.length)) := by
  have hlead := lead_of_outcome? ho
  have hledger := h.ledger
  rw [atRest_of_planless (by rw [hlead])] at hledger
  obtain ⟨tree, options, input, state, lead, workers, digest⟩ := s
  dsimp only at hlead
  subst hlead
  obtain ⟨⟨hworkers, hstopped⟩, ⟨apart, rest, hpicks, hhanded, hbalance, hopening, -, hended, hpublished⟩, hphase⟩ :=
    hledger
  -- All workers have stopped, so that nothing is owed or to be opened any more.
  have howed : (workers.map (Worker.owed x)).sum = 0 :=
    List.sum_eq_zero (List.forall_mem_map.2 fun w hw => Worker.owed_of_isStopped x (hstopped w hw))
  have hopen : (workers.map Worker.toOpen).sum = 0 :=
    List.sum_eq_zero (List.forall_mem_map.2 fun w hw => Worker.toOpen_of_isStopped (hstopped w hw))
  obtain ⟨w, hw⟩ := List.exists_mem_of_ne_nil _ hworkers
  have hstop := Worker.isStopped_iff.1 (hstopped w hw)
  refine ⟨apart, rest, hpicks.allowed, hhanded, ?_, ?_, ?_⟩
  · have hsame : (opened : Multiset Path) = files := (add_zero _).symm.trans ((congrArg _ hopen.symm).trans hopening)
    exact Multiset.coe_eq_coe.1 hsame
  · have hsum : ((o.records, o.failures, state.faces, state.failureCount, state.claimed) : Tally) = _ :=
      (add_zero _).symm.trans ((congrArg _ howed.symm).trans hbalance)
    rw [Extractor.sum_tally] at hsum
    simp only [SearchError.tally, Prod.mk_add_mk, zero_add, Prod.mk.injEq, Multiset.coe_add, Multiset.coe_eq_coe] at hsum
    obtain ⟨hrecords, hfailures, hfaces, hcount, hclaimed⟩ := hsum
    refine ⟨hrecords, hfailures, ?_⟩
    have hkept := hrecords.length_eq
    have hfailed := hfailures.length_eq
    rw [List.length_append, List.length_map] at hfailed
    have hfinished : state.phase = .finished := hphase
    show (⟨state.phase, state.claimed, state.total, state.faces, state.failureCount⟩ : ScanProgress) = _
    rw [hfaces, hcount, hclaimed, hkept, hfailed, hfinished]
  · intro huncancelled
    refine ⟨hpicks.uncancelled huncancelled, hended huncancelled w hw (.inr (by rw [hstop])), fun hfresh => ?_⟩
    rcases (hpublished hfresh w hw).stopped huncancelled (by rw [hstop]) with hplanned | hknown
    · rw [hstop] at hplanned
      cases hplanned
    · exact hknown

theorem holds_played (h : s.Kept x [] []) {turns : List ScanTurn} {o : ScanOutcome}
    (ho : (s.played x turns).outcome? = some o) :
    ∃ apart rest, (apart = true → s.options.dedup = true) ∧
      (∃ k, (s.shared apart).claimMany k = (handed x s turns, rest)) ∧
      (Scan.opened x s turns).Perm (handed x s turns) ∧
      (s.played x turns).Holds x (handed x s turns) (s.foretold ++ rest.errors) o ∧
      (o.cancelled = false → apart = s.options.dedup ∧ rest.Exhausted ∧
        ((s.shared apart).Fresh → (s.played x turns).state.total = some (s.shared apart).left.length)) := by
  obtain ⟨state, lead, workers, hplayed⟩ := played_fixed x s turns
  have hholds := holds_of_kept (kept_played h turns) ho
  rw [hplayed] at hholds ⊢
  exact hholds

theorem holds_whole (h : s.Kept x [] []) {turns : List ScanTurn} {o : ScanOutcome}
    (ho : (s.played x turns).outcome? = some o) (huncancelled : o.cancelled = false) :
    handed x s turns = (s.shared s.options.dedup).left ∧
      (Scan.opened x s turns).Perm (s.shared s.options.dedup).left ∧
      (s.played x turns).Holds x (s.shared s.options.dedup).left
        (s.foretold ++ (s.shared s.options.dedup).faults) o ∧
      ((s.shared s.options.dedup).Fresh →
        (s.played x turns).state.total = some (s.shared s.options.dedup).left.length) := by
  obtain ⟨apart, rest, -, ⟨k, hhanded⟩, hopened, hholds, hwhole⟩ := holds_played h ho
  obtain ⟨rfl, hexhausted, htotal⟩ := hwhole huncancelled
  have hfiles := (s.shared s.options.dedup).claimMany_left k
  rw [hhanded, hexhausted.left, List.append_nil] at hfiles
  have herrors := (s.shared s.options.dedup).claimMany_faults k
  rw [hhanded, hexhausted.faults] at herrors
  rw [herrors] at hholds
  rw [hfiles]
  exact ⟨rfl, hopened, hholds, fun hfresh => hfiles ▸ htotal hfresh⟩

theorem found_of_outcome? {o : ScanOutcome} (ho : s.outcome? = some o) : s.found = o := by
  rw [found, lead_of_outcome? ho]

/-! ## Cancelling -/

/-- Whether the leading part has taken what was found. -/
def isClosed (s : Scan) : Bool :=
  match s.lead.stage with
  | .done _ => true
  | _ => false

theorem step_found_cancelled (x : Extractor) (s : Scan) (a : ScanActor) :
    (s.step x a).found.cancelled = s.found.cancelled := by
  obtain ⟨tree, options, input, state, ⟨moves, stage⟩, workers, digest⟩ := s
  cases a with
  | lead =>
    cases moves with
    | cons m rest => cases stage <;> first | rfl | exact m.apply_cancelled state
    | nil =>
      rw [step]
      cases stage with
      | start =>
        simp only [proceed]
        cases input with
        | given f => rfl
        | search f =>
          dsimp only
          split <;> rfl
      | choose | wait =>
        simp only [proceed]
        split <;> rfl
      | _ => rfl
  | worker number =>
    rw [step]
    dsimp only
    cases workers[number]? with
    | none => rfl
    | some w => cases stage <;> first | rfl | exact w.step_cancelled x state

/-- A scan is cancelled by a turn that comes before what was found is taken. -/
theorem act_found_cancelled (t : ScanTurn) :
    (s.act x t).found.cancelled = true ↔ s.found.cancelled = true ∨ (t = .cancel ∧ s.isClosed = false) := by
  cases t with
  | part a =>
    rw [act, step_found_cancelled]
    simp
  | receive =>
    have hsame : s.receive.found.cancelled = s.found.cancelled := by
      obtain ⟨tree, options, input, state, ⟨moves, stage⟩, workers, digest⟩ := s
      cases stage <;> rfl
    rw [act, hsame]
    simp
  | cancel =>
    obtain ⟨tree, options, input, state, ⟨moves, stage⟩, workers, digest⟩ := s
    cases stage <;> simp [act, cancel, found, isClosed]

theorem played_found_cancelled (h : s.found.cancelled = false) (turns : List ScanTurn) :
    (s.played x turns).found.cancelled = true ↔
      ∃ before after, turns = before ++ .cancel :: after ∧ (s.played x before).isClosed = false := by
  induction turns using List.reverseRecOn with
  | nil =>
    show s.found.cancelled = true ↔ _
    simp [h]
  | append_singleton turns t ih =>
    rw [played_concat, act_found_cancelled, ih]
    constructor
    · rintro (⟨before, after, rfl, hopen⟩ | ⟨rfl, hopen⟩)
      · exact ⟨before, after ++ [t], by simp, hopen⟩
      · exact ⟨turns, [], rfl, hopen⟩
    · rintro ⟨before, after, hturns, hopen⟩
      rcases List.eq_nil_or_concat after with rfl | ⟨after, last, rfl⟩
      · obtain ⟨rfl, hlast⟩ := List.append_inj' hturns rfl
        exact .inr ⟨List.head_eq_of_cons_eq hlast, hopen⟩
      · rw [List.concat_eq_append, ← List.cons_append, ← List.append_assoc] at hturns
        obtain ⟨rfl, -⟩ := List.append_inj' hturns rfl
        exact .inl ⟨before, after, rfl, hopen⟩

/-! ## Scans that nobody cancels -/

theorem uncancelled_of_never (hfound : s.found.cancelled = false) {turns : List ScanTurn} (hnever : .cancel ∉ turns)
    {o : ScanOutcome} (ho : (s.played x turns).outcome? = some o) : o.cancelled = false := by
  rw [← found_of_outcome? ho, ← Bool.not_eq_true, played_found_cancelled hfound]
  rintro ⟨before, after, rfl, -⟩
  exact hnever (List.mem_append_right before List.mem_cons_self)

theorem played_parts (x : Extractor) (s : Scan) (order : List ScanActor) :
    s.played x (order.map .part) = s.after x order := List.foldl_map

/-- A scan that takes the steps of its parts alone keeps the faces of all its files, in some order. -/
theorem records_after (h : s.Kept x [] []) (hfound : s.found.cancelled = false) {order : List ScanActor}
    {o : ScanOutcome} (ho : (s.after x order).outcome? = some o) :
    o.cancelled = false ∧ o.records.Perm ((s.shared s.options.dedup).left.flatMap x.faces) := by
  rw [← played_parts] at ho
  have huncancelled : o.cancelled = false := uncancelled_of_never hfound (by simp) ho
  obtain ⟨-, -, hholds, -⟩ := holds_whole h ho huncancelled
  exact ⟨huncancelled, hholds.records⟩

/-! ## A second run -/

theorem step_begins (hmoves : s.lead.stage = .start → s.lead.moves = []) :
    (s.step x .lead).lead.stage ≠ .start := by
  obtain ⟨tree, options, input, state, ⟨moves, stage⟩, workers, digest⟩ := s
  cases moves with
  | cons m rest =>
    intro hstage
    cases hmoves hstage
  | nil =>
    rw [step]
    cases stage with
    | start =>
      simp only [proceed]
      cases input with
      | given f => simp
      | search f =>
        dsimp only
        split <;> simp
    | choose =>
      simp only [proceed]
      split <;> simp
    | wait =>
      simp only [proceed]
      split <;> simp
    | _ => simp [proceed]

/-- Once the leading part has had a turn, the scan does not run again. -/
theorem run_played (hlead : s.lead = ⟨[], .start⟩) (turns : List ScanTurn) (h : .part .lead ∈ turns) :
    run x (s.played x turns) = (.error .alreadyRun, s.played x turns) := by
  have hbegins (turns : List ScanTurn) :
      (s.played x turns).lead = ⟨[], .start⟩ ∧ .part .lead ∉ turns ∨ (s.played x turns).lead.stage ≠ .start := by
    induction turns using List.reverseRecOn with
    | nil => exact .inl ⟨hlead, List.not_mem_nil⟩
    | append_singleton turns t ih =>
      rw [played_concat]
      by_cases ht : t = .part .lead
      · subst ht
        right
        refine step_begins (x := x) fun hstage => ?_
        rcases ih with ⟨hstart, -⟩ | hbegun
        · rw [hstart]
        · exact absurd hstage hbegun
      · rw [act_lead x _ ht]
        refine ih.imp_left fun ⟨hstart, hnone⟩ => ⟨hstart, ?_⟩
        simpa [hnone] using Ne.symm ht
  have hbegun := (hbegins turns).resolve_left fun hnot => hnot.2 h
  have hfresh : (s.played x turns).isFresh = false := by
    unfold isFresh
    split
    · next hstage => exact absurd hstage hbegun
    · rfl
  rw [run, hfresh, if_neg Bool.false_ne_true]

end FontCatalog.Scan
