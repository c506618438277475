import FontCatalog.Proofs.Server.Replacements
import FontCatalog.Proofs.Server.Transcript

/-! The connections of a server. A run of the server is a sequence of events to each of its
connections, and so each has a transcript. What one connection does, or what is done to it, is of no
consequence to the others. -/
namespace FontCatalog
set_option autoImplicit false
open Connection

/-- Whether a move is one of this connection or of its peer. -/
def ServerMove.concerns (n : Nat) : ServerMove → Bool
  | .deliver k _ | .hangUp k | .collect k | .advance k | .notice k => k == n
  | .accept | .ask _ | .replace _ | .cancel => false

namespace Server

/-- What a move of the server is to one of its connections. -/
def eventOf (s : Server) (n : Nat) (m : ServerMove) : Event :=
  if n < s.connections.length ∧ m.concerns n = true then
    match m with
    | .deliver _ bytes => .deliver bytes
    | .hangUp _ => .hangUp
    | .collect _ => .collect
    | .advance _ => .advance s.service
    | .notice _ => .notice s.service
    | .accept | .ask _ | .replace _ | .cancel => .elsewhere
  else .elsewhere

/-- The moves of a run as events to one connection. -/
def events (n : Nat) : Server → List ServerMove → List Event
  | _, [] => []
  | s, m :: moves => s.eventOf n m :: events n (s.step m) moves

/-- A connection that is not there yet is as a new one. -/
def connection (s : Server) (n : Nat) : Connection := s.connections[n]?.getD {}

/-- The transcript of one connection in a run that begins without any. -/
def log (c : Catalog) (max : Nat) (moves : List ServerMove) (n : Nat) : Transcript :=
  transcript (events n (serving c max) moves)

/-! ## Events -/

theorem events_concat (n : Nat) (s : Server) (moves : List ServerMove) (m : ServerMove) :
    events n s (moves ++ [m]) = events n s moves ++ [(s.run moves).eventOf n m] := by
  induction moves generalizing s with
  | nil => rfl
  | cons m' moves ih =>
    rw [List.cons_append, events, events, ih, List.cons_append]
    rfl

theorem events_take (n : Nat) (s : Server) (moves : List ServerMove) (t : Nat) :
    (events n s moves).take t = events n s (moves.take t) := by
  induction moves generalizing s t with
  | nil => rw [events, List.take_nil, List.take_nil, events]
  | cons m moves ih =>
    cases t with
    | zero => rfl
    | succ t => rw [events, List.take_succ_cons, List.take_succ_cons, events, ih]

theorem getElem?_events {n t : Nat} {s : Server} {moves : List ServerMove} {e : Event}
    (h : (events n s moves)[t]? = some e) :
    ∃ m, moves[t]? = some m ∧ e = (s.run (moves.take t)).eventOf n m := by
  induction moves generalizing s t with
  | nil => cases h
  | cons m moves ih =>
    cases t with
    | zero =>
      cases h
      exact ⟨m, rfl, rfl⟩
    | succ t => exact ih h

/-- A connection takes a step only where the server moves it, with what is served at that time. -/
theorem eventOf_advance {s : Server} {n : Nat} {m : ServerMove} {service : Service}
    (h : .advance service = s.eventOf n m) : m = .advance n ∧ service = s.service := by
  unfold eventOf at h
  split at h
  · next hconcerns =>
    cases m with
    | advance k =>
      cases h
      exact ⟨congrArg ServerMove.advance (beq_iff_eq.1 hconcerns.2), rfl⟩
    | _ => cases h
  · cases h

theorem step_maxFrame (s : Server) (m : ServerMove) : (s.step m).service.maxFrame = s.service.maxFrame := by
  cases m with
  | accept =>
    rw [step]
    split <;> rfl
  | replace number =>
    rw [step]
    split
    · rfl
    · next r _ => cases r <;> rfl
  | _ => rfl

theorem events_reads (n : Nat) (s : Server) (moves : List ServerMove) :
    ∀ e ∈ events n s moves, e.Reads s.service.maxFrame := by
  induction moves generalizing s with
  | nil => exact nofun
  | cons m moves ih =>
    intro e he
    rcases List.mem_cons.1 he with rfl | he
    · cases hevent : s.eventOf n m with
      | advance service => exact congrArg Service.maxFrame (eventOf_advance hevent.symm).2
      | _ => trivial
    · rw [← step_maxFrame s m]
      exact ih (s.step m) e he

/-! ## Connections -/

theorem connection_eq {s : Server} {n : Nat} (h : s.connections.length ≤ n) : s.connection n = {} := by
  rw [connection, List.getElem?_eq_none h]
  rfl

theorem connection_modify (s : Server) (k n : Nat) (f : Connection → Connection) :
    (s.modify k f).connection n =
      if n < s.connections.length ∧ (k == n) = true then f (s.connection n) else s.connection n := by
  rw [connection, connection, modify, List.getElem?_modify]
  by_cases hn : n < s.connections.length
  · rw [List.getElem?_eq_getElem hn]
    by_cases hk : k = n
    · rw [if_pos ⟨hn, beq_iff_eq.2 hk⟩]
      simp [hk]
    · rw [if_neg fun h => hk (beq_iff_eq.1 h.2)]
      simp [hk]
  · rw [if_neg fun h => hn h.1, List.getElem?_eq_none (Nat.not_lt.1 hn)]
    rfl

theorem step_connection (s : Server) (n : Nat) (m : ServerMove) :
    (s.step m).connection n = (s.connection n).happen (s.eventOf n m) := by
  cases m with
  | accept =>
    have hevent : s.eventOf n .accept = .elsewhere := if_neg (by simp [ServerMove.concerns])
    rw [hevent, step, happen]
    split
    · rfl
    · by_cases hn : n < s.connections.length
      · rw [connection, List.getElem?_append_left hn, connection]
      · rw [connection_eq (Nat.not_lt.1 hn), connection, List.getElem?_append_right (Nat.not_lt.1 hn)]
        cases n - s.connections.length <;> rfl
  | deliver k bytes =>
    rw [step, connection_modify, eventOf, ServerMove.concerns]
    split <;> rfl
  | hangUp k | collect k | advance k | notice k =>
    rw [step, connection_modify, eventOf, ServerMove.concerns]
    split <;> rfl
  | ask d | cancel =>
    rw [eventOf, if_neg (by simp [ServerMove.concerns])]
    rfl
  | replace k =>
    rw [eventOf, if_neg (by simp [ServerMove.concerns]), step]
    split <;> rfl

theorem log_concat (c : Catalog) (max : Nat) (moves : List ServerMove) (m : ServerMove) (n : Nat) :
    log c max (moves ++ [m]) n = (log c max moves n).step (((serving c max).run moves).eventOf n m) := by
  rw [log, events_concat, transcript_concat, log]

/-- The transcript tells the connection as the server has it. -/
theorem log_connection (c : Catalog) (max : Nat) (moves : List ServerMove) (n : Nat) :
    (log c max moves n).connection = ((serving c max).run moves).connection n := by
  induction moves using List.reverseRecOn with
  | nil => rfl
  | append_singleton moves m ih =>
    rw [log_concat, Transcript.step_connection, run_concat, step_connection, ih]

theorem log_sound (c : Catalog) (max : Nat) (moves : List ServerMove) (n : Nat) :
    (log c max moves n).Sound max :=
  transcript_sound _ (events_reads n (serving c max) moves)

/-! ## Other connections -/

/-- Two servers differ in one connection at most. -/
structure Apart (n : Nat) (s s' : Server) : Prop where
  service : s.service = s'.service
  replacements : s.replacements = s'.replacements
  count : s.connections.length = s'.connections.length
  others : ∀ k, k ≠ n → s.connection k = s'.connection k

theorem Apart.symm {n : Nat} {s s' : Server} (h : Apart n s s') : Apart n s' s :=
  ⟨h.service.symm, h.replacements.symm, h.count.symm, fun k hk => (h.others k hk).symm⟩

theorem Apart.trans {n : Nat} {s s' s'' : Server} (h : Apart n s s') (h' : Apart n s' s'') : Apart n s s'' :=
  ⟨h.service.trans h'.service, h.replacements.trans h'.replacements, h.count.trans h'.count,
    fun k hk => (h.others k hk).trans (h'.others k hk)⟩

theorem eventOf_elsewhere {s : Server} {n k : Nat} {m : ServerMove} (hm : m.concerns n = true) (hk : k ≠ n) :
    s.eventOf k m = .elsewhere := by
  refine if_neg fun hboth => hk ?_
  cases m with
  | accept | ask | replace | cancel => cases hm
  | deliver j | hangUp j | collect j | advance j | notice j =>
    exact (beq_iff_eq.1 hboth.2).symm.trans (beq_iff_eq.1 hm)

theorem eventOf_congr {s s' : Server} (hservice : s.service = s'.service)
    (hcount : s.connections.length = s'.connections.length) (k : Nat) (m : ServerMove) :
    s.eventOf k m = s'.eventOf k m := by
  simp only [eventOf, hservice, hcount]

/-- A move of a connection changes nothing but this connection. -/
theorem apart_step {n : Nat} {m : ServerMove} (hm : m.concerns n = true) (s : Server) : Apart n s (s.step m) := by
  have hothers : ∀ k, k ≠ n → s.connection k = (s.step m).connection k := by
    intro k hk
    rw [step_connection, eventOf_elsewhere hm hk]
    rfl
  cases m with
  | accept | ask | replace | cancel => cases hm
  | deliver | hangUp | collect | advance | notice => exact ⟨rfl, rfl, (List.length_modify ..).symm, hothers⟩

/-- Other moves do the same, whatever the connection is. -/
theorem Apart.step {n : Nat} {s s' : Server} (h : Apart n s s') (m : ServerMove) :
    Apart n (s.step m) (s'.step m) := by
  have hothers : ∀ k, k ≠ n → (s.step m).connection k = (s'.step m).connection k := by
    intro k hk
    rw [step_connection, step_connection, h.others k hk, eventOf_congr h.service h.count]
  obtain ⟨hservice, hreplacements, hcount, -⟩ := h
  cases m with
  | accept =>
    refine ⟨?_, ?_, ?_, hothers⟩ <;> rw [Server.step, Server.step, hservice] <;> split <;> simp [*]
  | ask d => exact ⟨hservice, congrArg (· ++ [Replacement.asked d]) hreplacements, hcount, hothers⟩
  | replace number =>
    refine ⟨?_, ?_, ?_, hothers⟩ <;> rw [Server.step, Server.step, hservice, hreplacements] <;> split <;> simp [*]
  | cancel => exact ⟨congrArg Service.cancel hservice, hreplacements, hcount, hothers⟩
  | deliver | hangUp | collect | advance | notice =>
    refine ⟨hservice, hreplacements, ?_, hothers⟩
    rw [Server.step, Server.step, modify, modify, List.length_modify, List.length_modify, hcount]

theorem step_taken {t u : Transcript} (hconnection : t.connection = u.connection) (htaken : t.taken = u.taken)
    (e : Event) : (t.step e).taken = (u.step e).taken := by
  cases e with
  | collect => rw [Transcript.step, Transcript.step, hconnection, htaken]
  | _ => exact htaken

/-- The moves that are not those of one connection. -/
abbrev without (n : Nat) (moves : List ServerMove) : List ServerMove := moves.filter fun m => !m.concerns n

/-- Without the moves of one connection the run is the same for all others. -/
theorem run_without (c : Catalog) (max : Nat) (moves : List ServerMove) (n : Nat) :
    Apart n ((serving c max).run moves) ((serving c max).run (without n moves)) ∧
      ∀ k, k ≠ n → (log c max moves k).taken = (log c max (without n moves) k).taken := by
  induction moves using List.reverseRecOn with
  | nil => exact ⟨⟨rfl, rfl, rfl, fun _ _ => rfl⟩, fun _ _ => rfl⟩
  | append_singleton moves m ih =>
    obtain ⟨happart, htaken⟩ := ih
    rw [without, List.filter_append]
    by_cases hm : m.concerns n = true
    · have hnone : [m].filter (fun m => !m.concerns n) = [] := by simp [hm]
      rw [hnone, List.append_nil, run_concat]
      refine ⟨(apart_step hm _).symm.trans happart, ?_⟩
      intro k hk
      rw [log_concat, eventOf_elsewhere hm hk]
      exact htaken k hk
    · have hone : [m].filter (fun m => !m.concerns n) = [m] := by simp [hm]
      rw [hone, run_concat, run_concat]
      refine ⟨happart.step m, ?_⟩
      intro k hk
      have hconnection : (log c max moves k).connection = (log c max (without n moves) k).connection := by
        rw [log_connection, log_connection, happart.others k hk]
      rw [log_concat, log_concat, eventOf_congr happart.service happart.count]
      exact step_taken hconnection (htaken k hk) _

/-- What one connection and its peer do makes no difference to what any other one is and has written. -/
theorem run_apart {c : Catalog} {max : Nat} {moves moves' : List ServerMove} {n : Nat}
    (h : without n moves = without n moves') :
    Apart n ((serving c max).run moves) ((serving c max).run moves') ∧
      ∀ k, k ≠ n → (log c max moves k).written = (log c max moves' k).written := by
  obtain ⟨happart, htaken⟩ := run_without c max moves n
  obtain ⟨happart', htaken'⟩ := run_without c max moves' n
  rw [← h] at happart' htaken'
  have hboth := happart.trans happart'.symm
  refine ⟨hboth, ?_⟩
  intro k hk
  rw [Transcript.written, Transcript.written, htaken k hk, htaken' k hk, log_connection, log_connection,
    hboth.others k hk]

end Server

end FontCatalog
