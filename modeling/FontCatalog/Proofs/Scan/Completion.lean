import FontCatalog.Proofs.Scan.Copies
import FontCatalog.Proofs.Scan.Outcome
import Mathlib.Data.List.Infix

/-! Scans that are not cancelled. In whatever order the parts take their turns, and whether or not anybody reads
the events, each file of the finder is handed out and opened once, and its faces and its failures are kept; the
progress and the closing event tell how many there are. -/
namespace FontCatalog.Scan
set_option autoImplicit false

theorem played_complete (x : Extractor) (tree : FileTree) (options : ScanOptions) (input : ScanInput)
    (digest : Copies.Digest) :
    let scan := (make tree options input).comparingBy digest
    let finder := scan.shared options.dedup
    (∀ schedule, scan.Fair schedule → ∃ n o, (scan.during x schedule n).outcome? = some o) ∧
    (∀ turns o, .cancel ∉ turns → (scan.played x turns).outcome? = some o →
      handed x scan turns = finder.left ∧ (opened x scan turns).Perm finder.left ∧
      o.cancelled = false ∧ (scan.played x turns).Holds x finder.left (scan.foretold ++ finder.faults) o ∧
      (input.finder.Fresh → (scan.played x turns).progress.total = some (scan.played x turns).progress.claimed) ∧
      (sent x scan turns).filter ScanEvent.isFinish = [.finished o.records.length o.failures.length false] ∧
      (told x scan turns).Sublist (sent x scan turns) ∧
      ((∀ before, before <+: turns → (scan.played x before).state.events.length < eventCapacity) →
        told x scan turns = sent x scan turns)) ∧
    ((∀ p ∈ input.finder.left, p.text?.isSome = true) → scan.foretold ++ finder.faults = input.finder.faults) ∧
    ∀ turns, .part .lead ∈ turns → run x (scan.played x turns) = (.error .alreadyRun, scan.played x turns) := by
  intro scan finder
  have hkept : scan.Kept x [] [] := kept_make x tree options input digest
  refine ⟨fun schedule hfair => fair_outcome (Nat.zero_le _) hfair, ?_, fun h => foretold_faults (s := scan) h _,
    run_played rfl⟩
  intro turns o hnever ho
  have huncancelled : o.cancelled = false := uncancelled_of_never rfl hnever ho
  obtain ⟨hfiles, hopened, hholds, htotal⟩ := holds_whole hkept ho huncancelled
  have hclosing := sent_closing hkept rfl turns
  have hlead := lead_of_outcome? ho
  rw [planned, hlead, List.filterMap_nil, List.append_nil, finale, huncancelled] at hclosing
  refine ⟨hfiles, hopened, huncancelled, hholds, fun hfresh => ?_, hclosing, told_sublist rfl turns,
    told_eq_sent rfl turns⟩
  rw [hholds.progress]
  exact htotal (shared_fresh hfresh _)

/-- A file with two faces, of which one cannot be read, and others that cannot be opened. -/
def halfRead : Extractor := fun p =>
  if p = ⟨[0x2F, 0x61]⟩ then .ok ⟨2, fun i => if i = 0 then .ok { fullName := "A" } else .error "damaged"⟩
  else .error (.io p "no font")

/-- Two paths, and one that no catalog can hold. -/
def threePaths : Finder := .ofPaths [⟨[0x2F, 0x61]⟩, ⟨[0x2F, 0x62]⟩, ⟨[0x2F, 0xFF]⟩]

def allTurns : List ScanTurn :=
  [List.replicate 7 (.part .lead), [.receive], List.replicate 40 (.part (.worker 0)),
    List.replicate 9 (.part .lead)].flatten

theorem played_complete_halfRead :
    let scan := (make oneFile ⟨1, true, false⟩ (.given threePaths)).comparingBy id
    (∃ n o, (scan.during halfRead alternating n).outcome? = some o) ∧
    ∃ o, (scan.played halfRead allTurns).outcome? = some o ∧
      handed halfRead scan allTurns = [⟨[0x2F, 0x61]⟩, ⟨[0x2F, 0x62]⟩] ∧
      (scan.played halfRead allTurns).progress = ⟨.finished, 2, some 2, 1, 3⟩ ∧
      (sent halfRead scan allTurns).filter ScanEvent.isFinish = [.finished 1 3 false] ∧
      told halfRead scan allTurns = sent halfRead scan allTurns ∧
      run halfRead (scan.played halfRead allTurns) = (.error .alreadyRun, scan.played halfRead allTurns) := by
  intro scan
  obtain ⟨hends, hwhole, -, hrun⟩ := played_complete halfRead oneFile ⟨1, true, false⟩ (.given threePaths) id
  have hdone : (scan.played halfRead allTurns).outcome?.map (fun o => (o.records.length, o.failures.length)) =
      some (1, 3) := by
    decide +kernel
  have hroom : ∀ before ∈ allTurns.inits, (scan.played halfRead before).state.events.length < eventCapacity := by
    decide +kernel
  obtain ⟨o, ho, hlengths⟩ := Option.map_eq_some_iff.1 hdone
  obtain ⟨hrecords, hfailures⟩ := Prod.mk.inj hlengths
  obtain ⟨hfiles, -, -, hholds, htotal, hclosing, -, htold⟩ := hwhole allTurns o (by decide) ho
  have hfresh : threePaths.Fresh := Finder.fresh_ofPaths _
  have hleft : (scan.shared false).left = [⟨[0x2F, 0x61]⟩, ⟨[0x2F, 0x62]⟩] := by decide +kernel
  have hknown := htotal hfresh
  rw [hholds.progress] at hknown
  dsimp only at hknown
  refine ⟨hends alternating (fair_alternating rfl), o, ho, hfiles, ?_, ?_, ?_, hrun allTurns (by decide)⟩
  · rw [hholds.progress, hknown, hrecords, hfailures]
    exact congrArg (fun files : List Path => (⟨.finished, files.length, some files.length, 1, 3⟩ : ScanProgress)) hleft
  · rw [hrecords, hfailures] at hclosing
    exact hclosing
  · exact htold fun before hbefore => hroom before ((List.mem_inits ..).2 hbefore)

end FontCatalog.Scan
