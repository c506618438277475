import FontCatalog.Proofs.Scan.Ledger
import FontCatalog.Proofs.Search.Handout

/-! How far the count of claimed files can go. At every stage the files that are left, with those that are claimed
and not yet counted, bound the count from then on, and no turn raises the bound. A total that is told is never
below it. -/
namespace FontCatalog
set_option autoImplicit false

namespace ScanMove

def claimedAfter : ScanMove → ℕ → ℕ
  | .setClaimed n, _ => n
  | .addClaimed, c => c + 1
  | _, c => c

def totalAfter : ScanMove → Option ℕ → Option ℕ
  | .setTotal n, _ => n
  | _, n => n

/-- While these moves are made the count is at most `t`, and so is its bound when they are made. -/
def Stays (t : ℕ) (bound : ℕ → ℕ) : List ScanMove → ℕ → Prop
  | [], c => bound c ≤ t
  | m :: moves, c => c ≤ t ∧ Stays t bound moves (m.claimedAfter c)

/-- A total that is known while these moves are made is one that the count will not exceed. -/
def Tells (bound : ℕ → ℕ) : List ScanMove → ℕ → Option ℕ → Prop
  | [], c, total => ∀ t, total = some t → Stays t bound [] c
  | m :: moves, c, total =>
    (∀ t, total = some t → Stays t bound (m :: moves) c) ∧
      Tells bound moves (m.claimedAfter c) (m.totalAfter total)

theorem claimed_apply (m : ScanMove) (s : ScanState) : (m.apply s).claimed = m.claimedAfter s.claimed := by
  cases m with
  | emit e =>
    show (s.emit e).claimed = s.claimed
    unfold ScanState.emit
    split <;> rfl
  | _ => rfl

theorem total_after (m : ScanMove) (s : ScanState) : (m.apply s).total = m.totalAfter s.total := by
  cases m with
  | emit e =>
    show (s.emit e).total = s.total
    unfold ScanState.emit
    split <;> rfl
  | _ => rfl

/-- Whether a move leaves the count and the total as they are. -/
def isQuiet : ScanMove → Bool
  | .setClaimed _ | .setTotal _ | .addClaimed => false
  | _ => true

section
variable {t c : ℕ} {bound : ℕ → ℕ} {moves : List ScanMove} {total : Option ℕ}

theorem Stays.claimed (h : Stays t bound moves c) (hbound : c ≤ bound c) : c ≤ t := by
  cases moves with
  | nil => exact hbound.trans h
  | cons m moves => exact h.1

theorem Tells.stays (h : Tells bound moves c total) (ht : total = some t) : Stays t bound moves c := by
  cases moves with
  | nil => exact h t ht
  | cons m moves => exact h.1 t ht

theorem quiet_after {m : ScanMove} (hm : m.isQuiet = true) (c : ℕ) (total : Option ℕ) :
    m.claimedAfter c = c ∧ m.totalAfter total = total := by
  cases m with
  | setClaimed | setTotal | addClaimed => cases hm
  | _ => exact ⟨rfl, rfl⟩

theorem stays_quiet (hmoves : ∀ m ∈ moves, m.isQuiet = true) (hc : c ≤ t) (h : bound c ≤ t) :
    Stays t bound moves c := by
  induction moves with
  | nil => exact h
  | cons m moves ih =>
    obtain ⟨hm, hrest⟩ := List.forall_mem_cons.1 hmoves
    refine ⟨hc, ?_⟩
    rw [(quiet_after hm c none).1]
    exact ih hrest

theorem tells_quiet (hmoves : ∀ m ∈ moves, m.isQuiet = true) (hbound : c ≤ bound c)
    (h : ∀ t, total = some t → bound c ≤ t) : Tells bound moves c total := by
  have hstays : ∀ t, total = some t → c ≤ t := fun t ht => hbound.trans (h t ht)
  induction moves with
  | nil => exact h
  | cons m moves ih =>
    obtain ⟨hm, hrest⟩ := List.forall_mem_cons.1 hmoves
    refine ⟨fun t ht => stays_quiet hmoves (hstays t ht) (h t ht), ?_⟩
    rw [(quiet_after hm c none).1, (quiet_after hm c total).2]
    exact ih hrest

theorem stays_count {n : ℕ} (hn : c + n ≤ t) (h : bound (c + n) ≤ t) :
    Stays t bound (List.replicate n .addClaimed) c := by
  induction n generalizing c with
  | zero => exact h
  | succ n ih =>
    have hnext : addClaimed.claimedAfter c + n = c + (n + 1) := Nat.succ_add_eq_add_succ c n
    exact ⟨by omega, ih (by rwa [hnext]) (by rwa [hnext])⟩

theorem tells_count {n : ℕ} (hn : ∀ t, total = some t → c + n ≤ t) (h : ∀ t, total = some t → bound (c + n) ≤ t) :
    Tells bound (List.replicate n .addClaimed) c total := by
  induction n generalizing c with
  | zero => exact h
  | succ n ih =>
    have hnext : addClaimed.claimedAfter c + n = c + (n + 1) := Nat.succ_add_eq_add_succ c n
    exact ⟨fun t ht => stays_count (hn t ht) (h t ht), ih (by rwa [hnext]) (by rwa [hnext])⟩

theorem stays_enter {p : ScanPhase} {n : Option ℕ} (hc : c ≤ t) (h : Stays t bound moves 0) :
    Stays t bound (enter p n ++ moves) c :=
  ⟨hc, Nat.zero_le t, Nat.zero_le t, Nat.zero_le t, h⟩

/-- A phase may begin if what comes then is bounded by the old total, and tells no other than the new one. -/
theorem tells_enter {p : ScanPhase} {n : Option ℕ} (hc : ∀ t, total = some t → c ≤ t)
    (hold : ∀ t, total = some t → Stays t bound moves 0) (hnew : Tells bound moves 0 n) :
    Tells bound (enter p n ++ moves) c total := by
  have hstays (t : ℕ) (ht : n = some t) : Stays t bound moves 0 := hnew.stays ht
  exact ⟨fun t ht => stays_enter (hc t ht) (hold t ht), fun t ht => ⟨t.zero_le, t.zero_le, t.zero_le, hold t ht⟩,
    fun t ht => ⟨t.zero_le, t.zero_le, hstays t ht⟩, fun t ht => ⟨t.zero_le, hstays t ht⟩, hnew⟩

end

theorem isQuiet_reportErrors {errors : List SearchError} {m : ScanMove} (hm : m ∈ reportErrors errors) :
    m.isQuiet = true := by
  obtain ⟨e, -, hm⟩ := List.mem_flatMap.1 hm
  simp only [report, List.mem_cons, List.not_mem_nil, or_false] at hm
  rcases hm with rfl | rfl | rfl <;> rfl

end ScanMove

/-! ## Limits -/

namespace Worker
open ScanMove

/-- How many files a worker has claimed and not yet counted. -/
def pending (x : Extractor) (w : Worker) : ℕ := (owed x w).2.2.2.2

theorem sum_pending (x : Extractor) (workers : List Worker) :
    (workers.map (pending x)).sum = (workers.map (owed x)).sum.2.2.2.2 := by
  induction workers with
  | nil => rfl
  | cons w rest ih =>
    rw [List.map_cons, List.map_cons, List.sum_cons, List.sum_cons, ih]
    rfl

variable {x : Extractor} {s : ScanState} {w : Worker}

theorem pending_step (hw : ∀ m ∈ w.moves, m.ofWorker = true) :
    (w.step x s).1.claimed + pending x (w.step x s).2 =
      s.claimed + pending x w + (w.claiming s).toList.length := by
  have hstep := congrArg (fun tally : Tally => tally.2.2.2.2) (owed_step x s w hw)
  cases hclaim : w.claiming s <;> rw [hclaim] at hstep <;> exact hstep

/-- What a worker claims is one file less in the finder. -/
theorem step_left :
    (w.step x s).1.finder.left.length + (w.claiming s).toList.length = s.finder.left.length := by
  obtain ⟨hclaim, hfinder⟩ | ⟨hclaim, hfinder⟩ := step_finder x s w
  · rw [hclaim, hfinder]
    cases hnext : s.finder.claim.1 with
    | none =>
      obtain ⟨hleft, hafter⟩ := Finder.left_of_claim_none hnext
      rw [hleft, hafter]
      rfl
    | some p =>
      rw [Finder.left_of_claim_some hnext]
      rfl
  · rw [hclaim, hfinder]
    rfl

theorem step_finder_sum :
    (w.step x s).1.finder.claimed + (w.step x s).1.finder.left.length =
      s.finder.claimed + s.finder.left.length := by
  obtain ⟨-, hfinder⟩ | ⟨-, hfinder⟩ := step_finder x s w
  · rw [hfinder, Finder.claim_sum]
  · rw [hfinder]

theorem step_counted (h : s.finder.Counted) : (w.step x s).1.finder.Counted := by
  obtain ⟨-, hfinder⟩ | ⟨-, hfinder⟩ := step_finder x s w
  · rw [hfinder]
    exact h.claim
  · rwa [hfinder]

/-- No total but `n` is planned. -/
def Announces (n : ℕ) (w : Worker) : Prop := ∀ total, .setTotal total ∈ w.moves → total = some n

theorem announces_of_planless (h : w.moves = []) (n : ℕ) : w.Announces n := by
  intro total hmem
  rw [h] at hmem
  cases hmem

theorem step_announced {n : ℕ} (h : w.Announces n) :
    (w.step x s).1.total = s.total ∨ (w.step x s).1.total = some n := by
  obtain ⟨moves, stage⟩ := w
  cases moves with
  | nil =>
    left
    rw [step_nil, proceed_state]
    cases stage <;> rfl
  | cons m rest =>
    rw [step_cons]
    refine (m.total_apply s).imp_right fun hm => h _ ?_
    rw [← hm]
    exact List.mem_cons_self

theorem step_announces {n : ℕ} (hfinder : ∀ total, s.finder.total = some total → total = n) (h : w.Announces n) :
    (w.step x s).2.Announces n := by
  obtain ⟨moves, stage⟩ := w
  cases moves with
  | cons m rest => exact fun total hmem => h total (List.mem_cons_of_mem m hmem)
  | nil =>
    rw [step_nil]
    intro total hmem
    cases stage with
    | learn next =>
      cases htotal : s.finder.total with
      | none => cases next <;> simp [proceed, htotal] at hmem
      | some known =>
        rw [← hfinder known htotal]
        cases next <;> simpa [proceed, htotal] using hmem
    | read p => cases hx : x p <;> simp [proceed, hx, report] at hmem
    | face p file index found =>
      by_cases hindex : index < file.faceCount
      · cases hface : file.face p index <;> simp [proceed, hindex, hface, report] at hmem
      · by_cases hfound : found = [] <;> simp [proceed, hindex, hfound] at hmem
    | _ => simp [proceed] at hmem

end Worker

namespace Scan
open ScanMove

/-- The most files that will be counted when the moves that are planned have left the count at `c`. -/
def limit (x : Extractor) (s : Scan) (c : ℕ) : ℕ :=
  match s.lead.stage with
  | .start | .discover | .choose | .collect | .extract => max c s.state.finder.left.length
  | .adopt paths => max c (Copies.uniqueBy s.digest s.tree paths).length
  | .release | .wait | .forward | .close | .done _ =>
    c + (s.workers.map (Worker.pending x)).sum + s.state.finder.left.length

/-- The count is at most `t`, now and from now on. -/
def Within (x : Extractor) (t : ℕ) (s : Scan) : Prop := Stays t (s.limit x) s.lead.moves s.state.claimed

def Sound (x : Extractor) (s : Scan) : Prop := Tells (s.limit x) s.lead.moves s.state.claimed s.state.total

variable {x : Extractor} {s : Scan} {t : ℕ}

theorem le_limit (s : Scan) (c : ℕ) : c ≤ s.limit x c := by
  unfold limit
  split <;> first | exact Nat.le_max_left .. | exact Nat.le_add_right_of_le (Nat.le_add_right ..)

theorem Within.claimed_le (h : s.Within x t) : s.state.claimed ≤ t := Stays.claimed h (s.le_limit _)

theorem Sound.within (h : s.Sound x) (ht : s.state.total = some t) : s.Within x t := Tells.stays h ht

/-- A stage that leads to no more files, and plans nothing that is counted, keeps the bounds. -/
theorem limits_of_quiet {s' : Scan} (hmoves : s.lead.moves = []) (hquiet : ∀ m ∈ s'.lead.moves, m.isQuiet = true)
    (hclaimed : s'.state.claimed = s.state.claimed) (htotal : s'.state.total = s.state.total)
    (hlimit : s'.limit x s.state.claimed ≤ s.limit x s.state.claimed) :
    (∀ t, s.Within x t → s'.Within x t) ∧ (s.Sound x → s'.Sound x) := by
  unfold Within Sound
  rw [hmoves, hclaimed, htotal]
  have hbound (t : ℕ) (h : Stays t (s.limit x) [] s.state.claimed) : s'.limit x s.state.claimed ≤ t :=
    hlimit.trans h
  refine ⟨fun t h => stays_quiet hquiet ((s.le_limit _).trans h) (hbound t h), fun h => ?_⟩
  exact tells_quiet hquiet (s'.le_limit _) fun t ht => hbound t (h t ht)

/-- A stage that enters a phase keeps the bounds if no more files come than did, and the total of the phase, if it
has one, is not less. -/
theorem limits_of_enter {s' : Scan} {p : ScanPhase} {n : Option ℕ} (moves : List ScanMove)
    (hmoves : s.lead.moves = []) (hmoves' : s'.lead.moves = enter p n ++ moves)
    (hclaimed : s'.state.claimed = s.state.claimed) (htotal : s'.state.total = s.state.total)
    (hstays : ∀ t, s.limit x s.state.claimed ≤ t → Stays t (s'.limit x) moves 0)
    (hnew : Tells (s'.limit x) moves 0 n) :
    (∀ t, s.Within x t → s'.Within x t) ∧ (s.Sound x → s'.Sound x) := by
  unfold Within Sound
  rw [hmoves, hmoves', hclaimed, htotal]
  refine ⟨fun t h => stays_enter ((s.le_limit _).trans h) (hstays t h), fun h => tells_enter ?_ ?_ hnew⟩
  · exact fun t ht => (s.le_limit _).trans (h t ht)
  · exact fun t ht => hstays t (h t ht)

/-- What the leading part makes of a stage keeps the bounds. -/
theorem limits_proceed (hmoves : s.lead.moves = []) (hcrewed : s.Crewed) (hcounted : s.state.finder.Counted) :
    (∀ t, s.Within x t → (s.proceed s.lead.stage).Within x t) ∧
      (s.Sound x → (s.proceed s.lead.stage).Sound x) := by
  obtain ⟨tree, options, input, state, ⟨moves, stage⟩, workers, digest⟩ := s
  obtain rfl : moves = [] := hmoves
  cases stage with
  | start =>
    simp only [proceed]
    cases input with
    | given f => exact limits_of_quiet rfl (List.forall_mem_nil _) rfl rfl (Nat.le_refl _)
    | search f =>
      dsimp only
      split
      · refine limits_of_enter [] rfl rfl rfl rfl ?_ fun _ hnone => (Option.some_ne_none _ hnone.symm).elim
        intro t h
        exact Nat.max_le.2 ⟨t.zero_le, (Nat.max_le.1 h).2⟩
      · exact limits_of_quiet rfl (List.forall_mem_nil _) rfl rfl (Nat.le_refl _)
  | discover =>
    refine limits_of_quiet rfl (fun m => isQuiet_reportErrors) rfl rfl ?_
    simp only [proceed, limit, Finder.precounted_eq]
    exact Nat.le_refl _
  | choose =>
    simp only [proceed]
    split <;> exact limits_of_quiet rfl (List.forall_mem_nil _) rfl rfl (Nat.le_refl _)
  | collect =>
    have hunique := (Copies.uniqueBy_sublist digest tree state.finder.left).length_le
    simp only [proceed, Finder.drain_eq_left, Copies.examined_eq]
    refine limits_of_enter _ rfl rfl rfl rfl (fun t h => ?_) ?_
    · have hleft : state.finder.left.length ≤ t := (Nat.max_le.1 h).2
      refine stays_count (by omega) (Nat.max_le.2 ⟨by omega, hunique.trans hleft⟩)
    · refine tells_count (fun t ht => ?_) fun t ht => ?_
      · cases ht
        exact (Nat.zero_add _).le
      · cases ht
        exact Nat.max_le.2 ⟨(Nat.zero_add _).le, hunique⟩
  | adopt paths =>
    have hstorable : (Finder.storable (Copies.uniqueBy digest tree paths)).1.length ≤
        (Copies.uniqueBy digest tree paths).length := by
      rw [Finder.storable_eq]
      exact List.length_filter_le ..
    refine limits_of_quiet rfl (List.forall_mem_nil _) rfl rfl ?_
    exact max_le_max_left _ hstorable
  | extract =>
    obtain rfl : workers = [] := hcrewed
    refine limits_of_enter [] rfl rfl rfl rfl ?_ ?_
    · intro t h
      show 0 + 0 + state.finder.left.length ≤ t
      rw [Nat.zero_add]
      exact (Nat.max_le.1 h).2
    · intro t ht
      have htotal : t = state.finder.claimed + state.finder.left.length := hcounted t ht
      show 0 + 0 + state.finder.left.length ≤ t
      omega
  | release =>
    obtain rfl : workers = [] := hcrewed
    refine limits_of_quiet rfl (List.forall_mem_nil _) rfl rfl ?_
    have hfresh : ((List.replicate (workerCount options) Worker.fresh).map (Worker.pending x)).sum = 0 := by
      rw [List.map_replicate, List.sum_replicate]
      exact Nat.mul_zero _
    show _ + (List.map _ (List.replicate _ _)).sum + _ ≤ _
    rw [hfresh]
    exact Nat.le_refl _
  | wait =>
    simp only [proceed]
    split <;> exact limits_of_quiet rfl (List.forall_mem_nil _) rfl rfl (Nat.le_refl _)
  | forward =>
    exact limits_of_quiet rfl (fun m => isQuiet_reportErrors) rfl rfl (Nat.le_refl _)
  | close =>
    exact limits_of_quiet rfl (by simp [proceed, isQuiet]) rfl rfl (Nat.le_refl _)
  | done o => exact limits_of_quiet rfl (List.forall_mem_nil _) rfl rfl (Nat.le_refl _)

/-! ## Workers -/

/-- Whoever has counted a file has claimed it. -/
theorem Kept.counted_le {files opened : List Path} (h : s.Kept x files opened) (hwait : s.lead.stage = .wait) :
    s.state.claimed + (s.workers.map (Worker.pending x)).sum ≤ s.state.finder.claimed := by
  have hstanding := h.ledger.standing
  rw [atRest_of_planless (h.waiting hwait)] at hstanding
  have hstage : s.quiet.lead.stage = .wait := hwait
  rw [Standing, hstage] at hstanding
  obtain ⟨⟨apart, hreading⟩, -⟩ := hstanding
  have hbalance := congrArg (fun tally : Tally => tally.2.2.2.2) hreading.balance
  obtain ⟨k, hhanded⟩ := hreading.handed
  have hclaimed := (s.quiet.shared apart).claimMany_claimed k
  rw [hhanded] at hclaimed
  rw [Extractor.sum_tally] at hbalance
  have hsum : s.state.claimed + (s.workers.map (Worker.pending x)).sum = 0 + files.length := by
    rw [Worker.sum_pending]
    exact hbalance
  have hfinder : s.state.finder.claimed = (s.quiet.shared apart).claimed + files.length := hclaimed
  omega

/-- A worker that takes a step keeps the bounds. -/
theorem limits_worker {files opened : List Path} (h : s.Kept x files opened) (hwait : s.lead.stage = .wait)
    {total : ℕ} (htotal : total = s.state.finder.claimed + s.state.finder.left.length) {number : ℕ} {w : Worker}
    (hw : s.workers[number]? = some w) (hannounces : w.Announces total) :
    (∀ t, s.Within x t → (s.step x (.worker number)).Within x t) ∧
      (s.Sound x → (s.step x (.worker number)).Sound x) := by
  have hmoves := h.waiting hwait
  have hcounted := h.counted_le hwait
  have hplanned : ∀ m ∈ w.moves, m.ofWorker = true := fun m => h.planned (List.mem_of_getElem? hw)
  obtain ⟨before, behind, hworkers, hstep⟩ := step_worker (x := x) hw
  rw [hstep]
  have hsum := Worker.add_sum_step (Worker.pending x) (Worker.pending_step (x := x) (s := s.state) hplanned)
    (Eq.refl (s.state.claimed + ((before ++ w :: behind).map (Worker.pending x)).sum))
  have hleft := Worker.step_left (x := x) (s := s.state) (w := w)
  have hknown := Worker.step_announced (x := x) (s := s.state) hannounces
  obtain ⟨tree, options, input, state, ⟨moves, stage⟩, workers, digest⟩ := s
  dsimp only at *
  subst hmoves hwait hworkers
  simp only [Within, Sound, Stays, Tells, limit]
  refine ⟨fun t hwithin => by omega, fun hsound t ht => ?_⟩
  rcases hknown with hknown | hknown
  · have hwithin := hsound t (hknown.symm.trans ht)
    omega
  · have ht' : some total = some t := hknown.symm.trans ht
    cases ht'
    omega

/-! ## Turns -/

/-- The totals that are known count all files of the finder, also those that workers are about to tell, and no total
that is told is exceeded. -/
structure Bounded (x : Extractor) (s : Scan) : Prop where
  counted : s.state.finder.Counted
  announced : ∀ w ∈ s.workers, w.Announces (s.state.finder.claimed + s.state.finder.left.length)
  sound : s.Sound x

theorem counted_proceed (h : s.state.finder.Counted) (stage : LeadStage) :
    (s.proceed stage).state.finder.Counted := by
  cases stage with
  | start =>
    simp only [proceed]
    split
    · exact h
    · split <;> exact h
  | discover =>
    simp only [proceed, Finder.precounted_eq]
    exact (Finder.fresh_ofAccepted s.state.finder.left []).counted
  | collect => exact h.drain
  | adopt paths => exact (Finder.fresh_ofPaths _).counted
  | wait =>
    simp only [proceed]
    split <;> exact h
  | _ => exact h

theorem announced_proceed (hcrewed : s.Crewed)
    (h : ∀ w ∈ s.workers, w.Announces (s.state.finder.claimed + s.state.finder.left.length)) :
    ∀ w ∈ (s.proceed s.lead.stage).workers, w.Announces
      ((s.proceed s.lead.stage).state.finder.claimed + (s.proceed s.lead.stage).state.finder.left.length) := by
  by_cases hwait : s.lead.stage = .wait
  · rw [hwait, proceed]
    split <;> exact h
  by_cases hrelease : s.lead.stage = .release
  · rw [hrelease]
    intro w hw
    obtain rfl := List.eq_of_mem_replicate hw
    exact Worker.announces_of_planless rfl _
  · obtain ⟨_, _, _, _, workers, hproceed, hworkers⟩ := s.proceed_fixed s.lead.stage
    obtain rfl := hworkers hrelease
    rw [hproceed]
    intro w hw
    have hstopped := Worker.isStopped_iff.1 (hcrewed.stopped hwait hw)
    exact Worker.announces_of_planless (congrArg ScanPart.moves hstopped) _

theorem bounded_act {files opened : List Path} (hkept : s.Kept x files opened) (h : s.Bounded x) (turn : ScanTurn) :
    (∀ t, s.Within x t → (s.act x turn).Within x t) ∧ (s.act x turn).Bounded x := by
  have hcrewed : s.Crewed := hkept.ledger.crewed
  cases turn with
  | cancel | receive => exact ⟨fun _ => id, h.counted, h.announced, h.sound⟩
  | part a =>
    cases a with
    | lead =>
      rw [act, step]
      cases hmoves : s.lead.moves with
      | nil =>
        obtain ⟨hwithin, hsound⟩ := limits_proceed (x := x) hmoves hcrewed h.counted
        exact ⟨hwithin, counted_proceed h.counted _, announced_proceed hcrewed h.announced, hsound h.sound⟩
      | cons m rest =>
        have hfinder := m.apply_finder s.state
        have hlimit : limit x { s with state := m.apply s.state, lead := ⟨rest, s.lead.stage⟩ } = s.limit x := by
          funext c
          simp only [limit, hfinder]
        have hsound := h.sound
        simp only [Within, Sound, hmoves, Stays, Tells, ← claimed_apply, ← total_after] at hsound ⊢
        refine ⟨fun t hwithin => ?_, ?_, ?_, ?_⟩
        · rw [hlimit]
          exact hwithin.2
        · exact hfinder.symm ▸ h.counted
        · simpa only [hfinder] using h.announced
        · show Tells _ _ _ _
          rw [hlimit]
          exact hsound.2
    | worker number =>
      rw [act]
      cases hw : s.workers[number]? with
      | none =>
        rw [step, hw]
        exact ⟨fun _ => id, h⟩
      | some w =>
        have hmem := List.mem_of_getElem? hw
        by_cases hwait : s.lead.stage = .wait
        · obtain ⟨hwithin, hsound⟩ := limits_worker hkept hwait rfl hw (h.announced w hmem)
          obtain ⟨before, behind, hworkers, hstep⟩ := step_worker (x := x) hw
          refine ⟨hwithin, ?_, ?_, hsound h.sound⟩
          · rw [hstep]
            exact Worker.step_counted h.counted
          · have hothers := h.announced
            rw [hworkers] at hothers
            rw [hstep]
            dsimp only
            rw [Worker.step_finder_sum]
            exact Worker.forall_mem_step (fun _ => id) (Worker.step_announces h.counted (h.announced w hmem))
              hothers
        · have hstopped := hkept.ledger.crewed.stopped hwait hmem
          rw [step_stopped hw hstopped]
          exact ⟨fun _ => id, h⟩

end Scan

end FontCatalog
