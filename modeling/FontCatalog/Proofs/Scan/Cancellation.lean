import FontCatalog.Proofs.Scan.Completion

/-! Scans that are cancelled. A worker that sees the scan cancelled is handed no file any more, and a file that was
handed out is read to its end; so a scan that is cancelled at any time holds all of a first part of the files, and
nothing else. -/
namespace FontCatalog.Scan
set_option autoImplicit false

variable {x : Extractor} {s : Scan}

/-! ## Workers that see the flag -/

def handedTo (number : ℕ) : Extractor → Scan → List ScanTurn → List Path :=
  noticed fun s t => if t = .part (.worker number) then s.claiming t else []

theorem act_cancelled (h : s.state.cancelled = true) (t : ScanTurn) : (s.act x t).state.cancelled = true := by
  cases t with
  | cancel => rfl
  | receive => exact h
  | part a =>
    rw [act, step.eq_def]
    cases a with
    | lead =>
      dsimp only
      cases s.lead.moves with
      | cons m rest => exact (m.apply_cancelled s.state).trans h
      | nil =>
        obtain ⟨_, _, _, _, _, hproceed, -⟩ := s.proceed_fixed s.lead.stage
        dsimp only
        rw [hproceed]
        exact h
    | worker number =>
      dsimp only
      cases s.workers[number]? with
      | none => exact h
      | some w => exact (w.step_cancelled x s.state).trans h

/-- A turn of another part leaves a worker as it is. -/
theorem act_others {files opened : List Path} (h : s.Kept x files opened) {number : ℕ} {w : Worker}
    (hw : s.workers[number]? = some w) {t : ScanTurn} (ht : t ≠ .part (.worker number)) :
    (s.act x t).workers[number]? = some w := by
  cases t with
  | cancel | receive => exact hw
  | part a =>
    rw [act, step.eq_def]
    cases a with
    | lead =>
      have hcrewed : s.atRest.Crewed := h.ledger.crewed
      -- Only the release brings in workers, and there are none before it.
      have hreleased : s.lead.stage ≠ .release := by
        intro hrelease
        have hnone : s.workers = [] := by simpa only [Crewed, atRest, hrelease] using hcrewed
        rw [hnone] at hw
        cases hw
      dsimp only
      cases s.lead.moves with
      | cons m rest => exact hw
      | nil =>
        obtain ⟨_, _, _, _, _, hproceed, hworkers⟩ := s.proceed_fixed s.lead.stage
        dsimp only
        rw [hproceed, hworkers hreleased]
        exact hw
    | worker other =>
      have hother : other ≠ number := fun hsame => ht (by rw [hsame])
      dsimp only
      cases s.workers[other]? with
      | none => exact hw
      | some v => exact (List.getElem?_set_ne hother).trans hw

/-- A worker that looks at a scan that is cancelled, or has stopped. -/
structure Refused (x : Extractor) (number : ℕ) (s : Scan) : Prop where
  kept : ∃ files opened, s.Kept x files opened
  cancelled : s.state.cancelled = true
  worker : s.workers[number]? = some ⟨[], .look⟩ ∨ s.workers[number]? = some ⟨[], .stopped⟩

theorem Refused.claiming {number : ℕ} (h : Refused x number s) : s.claiming (.part (.worker number)) = [] := by
  rcases h.worker with hw | hw <;> rw [Scan.claiming, hw] <;> rfl

theorem Refused.act {number : ℕ} (h : Refused x number s) (t : ScanTurn) : Refused x number (s.act x t) := by
  obtain ⟨⟨files, opened, hkept⟩, hcancelled, hworker⟩ := h
  refine ⟨⟨_, _, kept_act hkept t⟩, act_cancelled hcancelled t, ?_⟩
  by_cases ht : t = .part (.worker number)
  · subst ht
    right
    rcases hworker with hw | hw
    · obtain ⟨hnumber, -⟩ := List.getElem?_eq_some_iff.1 hw
      rw [Scan.act, step, hw]
      dsimp only
      rw [List.getElem?_set_self hnumber, Worker.step_nil, Worker.proceed, hcancelled]
      rfl
    · rw [Scan.act, step_stopped hw rfl, hw]
  · exact hworker.imp (act_others hkept · ht) (act_others hkept · ht)

theorem handedTo_refused {number : ℕ} (h : Refused x number s) (turns : List ScanTurn) :
    handedTo number x s turns = [] := by
  induction turns generalizing s with
  | nil => rfl
  | cons t turns ih =>
    have hrest : handedTo number x (s.act x t) turns = [] := ih (h.act t)
    rw [handedTo, noticed, ← handedTo, hrest, List.append_nil]
    split
    · next ht => rw [ht, h.claiming]
    · rfl

/-! ## What is kept -/

theorem played_cancelled (x : Extractor) (tree : FileTree) (options : ScanOptions) (input : ScanInput)
    (digest : Copies.Digest) :
    let scan := (make tree options input).comparingBy digest
    (∀ schedule, scan.Fair schedule → ∃ n o, (scan.during x schedule n).outcome? = some o) ∧
    (∀ turns o, (scan.played x turns).outcome? = some o →
      (∃ apart k, (apart = true → options.dedup = true) ∧
        handed x scan turns = ((scan.shared apart).claimMany k).1 ∧
        handed x scan turns <+: (scan.shared apart).left ∧
        (opened x scan turns).Perm (handed x scan turns) ∧
        (scan.played x turns).Holds x (handed x scan turns)
          (scan.foretold ++ ((scan.shared apart).claimMany k).2.errors) o) ∧
      (o.cancelled = true ↔
        ∃ before after, turns = before ++ .cancel :: after ∧ (scan.played x before).isClosed = false)) ∧
    ∀ turns number, (scan.played x turns).state.cancelled = true →
      (scan.played x turns).workers[number]? = some ⟨[], .look⟩ →
      ∀ more, handedTo number x (scan.played x turns) more = [] := by
  intro scan
  have hkept : scan.Kept x [] [] := kept_make x tree options input digest
  refine ⟨fun schedule hfair => fair_outcome (Nat.zero_le _) hfair, fun turns o ho => ⟨?_, ?_⟩, ?_⟩
  · obtain ⟨apart, rest, hallowed, ⟨k, hhanded⟩, hopened, hholds, -⟩ := holds_played hkept ho
    have hleft := (scan.shared apart).claimMany_left k
    rw [hhanded] at hleft
    refine ⟨apart, k, hallowed, ?_, ?_, hopened, ?_⟩
    · rw [hhanded]
    · rw [hleft]
      exact List.prefix_append _ _
    · rw [hhanded]
      exact hholds
  · rw [← found_of_outcome? ho]
    exact played_found_cancelled rfl turns
  · intro turns number hcancelled hlook more
    exact handedTo_refused ⟨⟨_, _, kept_played hkept turns⟩, hcancelled, .inl hlook⟩ more

/-- The scan is cancelled while the first file is open. -/
def cutShort : List ScanTurn :=
  [List.replicate 7 (.part .lead), List.replicate 7 (.part (.worker 0)), [.cancel],
    List.replicate 20 (.part (.worker 0)), List.replicate 9 (.part .lead)].flatten

theorem played_cancelled_cutShort :
    let scan := (make oneFile ⟨1, true, false⟩ (.given threePaths)).comparingBy id
    (∃ n o, (scan.during halfRead alternating n).outcome? = some o) ∧
    (∃ o, (scan.played halfRead cutShort).outcome? = some o ∧ o.cancelled = true ∧
      o.records.Perm (halfRead.faces ⟨[0x2F, 0x61]⟩)) ∧
    handedTo 0 halfRead (scan.played halfRead (cutShort.take 22)) (cutShort.drop 22) = [] := by
  intro scan
  obtain ⟨hends, hkept, hrefused⟩ := played_cancelled halfRead oneFile ⟨1, true, false⟩ (.given threePaths) id
  have hdone : (scan.played halfRead cutShort).outcome?.isSome = true := by decide +kernel
  have hhanded : handed halfRead scan cutShort = [⟨[0x2F, 0x61]⟩] := by decide +kernel
  obtain ⟨o, ho⟩ := Option.isSome_iff_exists.1 hdone
  obtain ⟨⟨apart, k, -, -, -, -, hholds⟩, hcancelled⟩ := hkept cutShort o ho
  refine ⟨hends alternating (fair_alternating rfl), ⟨o, ho, ?_, ?_⟩, ?_⟩
  · exact hcancelled.2 ⟨cutShort.take 14, cutShort.drop 15, by decide, by decide +kernel⟩
  · have hrecords := hholds.records
    rw [hhanded, List.flatMap_singleton] at hrecords
    exact hrecords
  · apply hrefused (cutShort.take 22) 0
    · decide +kernel
    · rfl

end FontCatalog.Scan
