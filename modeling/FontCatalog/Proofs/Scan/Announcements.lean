import FontCatalog.Proofs.Scan.Ledger
import Mathlib.Data.List.Induction

/-! What a scan announces. An event goes into the channel unless the channel is full, so what the readers hear is
part of what is sent, and all of it while there is room. Whatever is dropped, one closing event is sent, and it
carries the counts of the outcome. -/
namespace FontCatalog
set_option autoImplicit false

def ScanMove.event? : ScanMove → Option ScanEvent
  | .emit e => some e
  | _ => none

def ScanEvent.isFinish : ScanEvent → Bool
  | .finished .. => true
  | _ => false

theorem ScanMove.event_ofWorker {m : ScanMove} (hm : m.ofWorker = true) {e : ScanEvent} (he : m.event? = some e) :
    e.isFinish = false := by
  cases m with
  | emit e' =>
    cases he
    cases e <;> first | rfl | cases hm
  | _ => cases he

namespace Scan

def making (s : Scan) : ScanTurn → List ScanMove
  | .part .lead => s.lead.next
  | .part (.worker number) => (s.workers[number]?.map ScanPart.next).getD []
  | .cancel | .receive => []

def sending (s : Scan) (t : ScanTurn) : List ScanEvent := (s.making t).filterMap ScanMove.event?

/-- The event that a turn hands to a reader. -/
def hearing (s : Scan) : ScanTurn → List ScanEvent
  | .receive => s.state.events.take 1
  | _ => []

/-- The events that are sent along a run, whether or not the channel takes them. -/
def sent : Extractor → Scan → List ScanTurn → List ScanEvent := noticed sending

/-- The events that the channel takes along a run: those that are read, and those that wait. -/
def told (x : Extractor) (s : Scan) (turns : List ScanTurn) : List ScanEvent :=
  noticed hearing x s turns ++ (s.played x turns).state.events

variable {x : Extractor} {s : Scan}

/-! ## The channel -/

theorem apply_events (m : ScanMove) (s : ScanState) :
    ∃ taken, taken.Sublist ([m].filterMap ScanMove.event?) ∧ (m.apply s).events = s.events ++ taken ∧
      (s.events.length < eventCapacity → taken = [m].filterMap ScanMove.event?) := by
  cases m with
  | emit e =>
    by_cases hroom : s.events.length < eventCapacity
    · refine ⟨[e], .refl _, ?_, fun _ => rfl⟩
      rw [ScanMove.apply, ScanState.emit, if_pos hroom]
    · refine ⟨[], List.nil_sublist _, ?_, fun h => absurd h hroom⟩
      rw [ScanMove.apply, ScanState.emit, if_neg hroom, List.append_nil]
  | _ => exact ⟨[], .refl _, (List.append_nil _).symm, fun _ => rfl⟩

/-- What a turn sends comes into the channel as far as there is room. -/
theorem act_events (t : ScanTurn) :
    ∃ taken, taken.Sublist (s.sending t) ∧ s.hearing t ++ (s.act x t).state.events = s.state.events ++ taken ∧
      (s.state.events.length < eventCapacity → taken = s.sending t) := by
  have hsilent {s' : Scan} (h : s'.state.events = s.state.events) :
      ∃ taken, taken.Sublist [] ∧ s'.state.events = s.state.events ++ taken ∧
        (s.state.events.length < eventCapacity → taken = ([] : List ScanEvent)) :=
    ⟨[], .refl _, h.trans (List.append_nil _).symm, fun _ => rfl⟩
  cases t with
  | cancel => exact hsilent rfl
  | receive =>
    refine ⟨[], .refl _, ?_, fun _ => rfl⟩
    show s.state.events.take 1 ++ s.state.events.tail = s.state.events ++ []
    rw [← List.drop_one, List.take_append_drop, List.append_nil]
  | part a =>
    cases a with
    | lead =>
      rw [act, step, sending, making, ScanPart.next]
      cases s.lead.moves with
      | nil =>
        obtain ⟨_, _, _, _, _, hproceed, -⟩ := s.proceed_fixed s.lead.stage
        exact hsilent (by rw [hproceed])
      | cons m rest => exact apply_events m s.state
    | worker number =>
      rw [act, step, sending, making]
      cases s.workers[number]? with
      | none => exact hsilent rfl
      | some w =>
        obtain ⟨moves, stage⟩ := w
        cases moves with
        | nil =>
          refine hsilent ?_
          dsimp only
          rw [Worker.step_nil, Worker.proceed_state]
          cases stage <;> rfl
        | cons m rest => exact apply_events m s.state

theorem told_concat (turns : List ScanTurn) (t : ScanTurn) :
    ∃ taken, taken.Sublist ((s.played x turns).sending t) ∧ told x s (turns ++ [t]) = told x s turns ++ taken ∧
      ((s.played x turns).state.events.length < eventCapacity → taken = (s.played x turns).sending t) := by
  obtain ⟨taken, hsub, hevents, hroom⟩ := act_events (x := x) (s := s.played x turns) t
  refine ⟨taken, hsub, ?_, hroom⟩
  rw [told, noticed_concat, played_concat, List.append_assoc, hevents, told, List.append_assoc]

theorem told_sublist (hnone : s.state.events = []) (turns : List ScanTurn) :
    (told x s turns).Sublist (sent x s turns) := by
  induction turns using List.reverseRecOn with
  | nil =>
    show ([] ++ s.state.events).Sublist []
    rw [hnone]
    exact .refl _
  | append_singleton turns t ih =>
    obtain ⟨taken, hsub, htold, -⟩ := told_concat (x := x) (s := s) turns t
    rw [htold, sent, noticed_concat]
    exact ih.append hsub

theorem told_eq_sent (hnone : s.state.events = []) (turns : List ScanTurn)
    (hroom : ∀ before, before <+: turns → (s.played x before).state.events.length < eventCapacity) :
    told x s turns = sent x s turns := by
  induction turns using List.reverseRecOn with
  | nil => exact hnone
  | append_singleton turns t ih =>
    obtain ⟨taken, -, htold, htaken⟩ := told_concat (x := x) (s := s) turns t
    have hearlier (before : List ScanTurn) (h : before <+: turns) := hroom before (h.trans (List.prefix_append ..))
    rw [htold, htaken (hearlier turns (List.prefix_refl turns)), ih hearlier, sent, noticed_concat]

/-! ## The closing event -/

def finale : LeadStage → List ScanEvent
  | .done o => [.finished o.records.length o.failures.length o.cancelled]
  | _ => []

def closing (events : List ScanEvent) : List ScanEvent := events.filter ScanEvent.isFinish

def planned (s : Scan) : List ScanEvent := s.lead.moves.filterMap ScanMove.event?

theorem closing_append (first second : List ScanEvent) :
    closing (first ++ second) = closing first ++ closing second := List.filter_append ..

theorem closing_ofWorker {moves : List ScanMove} (h : ∀ m ∈ moves, m.ofWorker = true) :
    closing (moves.filterMap ScanMove.event?) = [] := by
  refine List.filter_eq_nil_iff.2 fun e he => ?_
  obtain ⟨m, hm, he⟩ := List.mem_filterMap.1 he
  rw [ScanMove.event_ofWorker (h m hm) he]
  exact Bool.false_ne_true

/-- The leading part plans the closing event when it takes what was found, and never else. -/
theorem closing_proceed (hmoves : s.lead.moves = []) :
    finale s.lead.stage ++ closing (s.proceed s.lead.stage).planned = finale (s.proceed s.lead.stage).lead.stage := by
  obtain ⟨tree, options, input, state, ⟨moves, stage⟩, workers, digest⟩ := s
  obtain rfl : moves = [] := hmoves
  have hreports (errors : List SearchError) :
      closing ((ScanMove.reportErrors errors).filterMap ScanMove.event?) = [] :=
    closing_ofWorker fun _ => ScanMove.ofWorker_reportErrors
  cases stage with
  | start =>
    simp only [proceed]
    cases input with
    | given f => rfl
    | search f =>
      dsimp only
      split <;> rfl
  | choose =>
    simp only [proceed]
    split <;> rfl
  | wait =>
    simp only [proceed]
    split <;> rfl
  | discover | forward => exact hreports _
  | collect =>
    have hcompared (count : ℕ) : closing ((List.replicate count ScanMove.addClaimed).filterMap ScanMove.event?) = [] :=
      closing_ofWorker fun m hm => by rw [List.eq_of_mem_replicate hm]; rfl
    simp only [proceed, planned, List.filterMap_append, closing_append, hcompared]
    rfl
  | _ => rfl

theorem closing_act {files opened : List Path} (h : s.Kept x files opened) {before : List ScanEvent}
    (hbefore : closing (before ++ s.planned) = finale s.lead.stage) (t : ScanTurn) :
    closing (before ++ s.sending t ++ (s.act x t).planned) = finale (s.act x t).lead.stage := by
  cases t with
  | cancel | receive => rwa [sending, making, List.filterMap_nil, List.append_nil]
  | part a =>
    cases a with
    | lead =>
      rw [act, step, sending, making, ScanPart.next]
      cases hmoves : s.lead.moves with
      | nil =>
        rw [planned, hmoves, List.filterMap_nil, List.append_nil] at hbefore
        rw [List.take_nil, List.filterMap_nil, List.append_nil, closing_append, hbefore]
        exact closing_proceed hmoves
      | cons m rest =>
        rw [planned, hmoves] at hbefore
        -- The move only goes over from what is planned to what is sent.
        rw [List.append_assoc, planned, ← List.filterMap_append]
        exact hbefore
    | worker number =>
      have hlead := act_lead x s (t := .part (.worker number)) (by simp)
      have hquiet : closing (s.sending (.part (.worker number))) = [] := by
        refine closing_ofWorker fun m hm => ?_
        rw [making] at hm
        cases hw : s.workers[number]? with
        | none =>
          rw [hw] at hm
          cases hm
        | some w =>
          rw [hw] at hm
          exact h.planned (List.mem_of_getElem? hw) (List.mem_of_mem_take hm)
      rw [planned, hlead, closing_append, closing_append, hquiet, List.append_nil, ← closing_append]
      exact hbefore

/-- Along a run one closing event is sent, by the end of it: that of the outcome. -/
theorem sent_closing (h : s.Kept x [] []) (hbegin : closing s.planned = finale s.lead.stage) (turns : List ScanTurn) :
    closing (sent x s turns ++ (s.played x turns).planned) = finale (s.played x turns).lead.stage := by
  induction turns using List.reverseRecOn with
  | nil => exact hbegin
  | append_singleton turns t ih =>
    rw [sent, noticed_concat, played_concat]
    exact closing_act (kept_played h turns) ih t

end Scan

end FontCatalog
