import FontCatalog.Proofs.Client
import FontCatalog.Proofs.Server.Events

/-! A server whose catalog is replaced while it answers. Each response is that of the version that was
served at one moment between the request and the response, these moments follow one another on each
connection, and what is served never goes back to an earlier version. -/
namespace FontCatalog.Server
set_option autoImplicit false
open Connection Wire

/-- The version that is served at a time of the run. -/
def versionAt (c : Catalog) (max : Nat) (moves : List ServerMove) (t : Nat) : Nat :=
  ((serving c max).run (moves.take t)).version

/-- One finding of a connection, `before` being those that it made earlier. At its time the request had
come in whole, and what the server had written was the responses to those before. -/
structure Found (c : Catalog) (max : Nat) (moves : List ServerMove) (n : Nat) (before : List Finding)
    (f : Finding) : Prop where
  move : moves[f.time]? = some (.advance n)
  stage : (((serving c max).run (moves.take f.time)).connection n).stage = .processing f.query
  served : ((serving c max).run (moves.take f.time)).service.catalog = f.catalog
  sent : ∃ rest, Asks max (stream (events n (serving c max) (moves.take f.time)))
    (before.map (·.query) ++ [f.query]) rest
  unwritten : List.Forall₂ Transcript.IsFrame before (log c max (moves.take f.time) n).written

/-- What a connection has written: the frames of these findings, which answer the right requests that
its stream begins with. -/
structure Answered (c : Catalog) (max : Nat) (moves : List ServerMove) (n : Nat) (answered : List Finding) :
    Prop where
  asks : ∃ rest, Asks max (stream (events n (serving c max) moves)) (answered.map (·.query)) rest
  frames : List.Forall₂ Transcript.IsFrame answered (log c max moves n).written
  times : answered.Pairwise fun f g => f.time < g.time
  found : ∀ i f, answered[i]? = some f → Found c max moves n (answered.take i) f

/-- In each frame that was written a client reads the response of its finding. -/
theorem Answered.reads {c : Catalog} {max : Nat} {moves : List ServerMove} {n : Nat} {answered : List Finding}
    (h : Answered c max moves n answered) :
    List.Forall₂ (fun f bytes => ∃ reply, bytes = frame reply ∧ Client.responseOf reply = .ok f.response)
      answered (log c max moves n).written := by
  refine h.frames.imp fun f bytes hframe => ?_
  obtain ⟨reply, hbytes, hreply, -⟩ := frameOf_reads hframe
  exact ⟨reply, hbytes, hreply⟩

structure Linearized (c : Catalog) (max : Nat) (moves : List ServerMove) : Prop where
  answers : ∀ n, ∃ answered, Answered c max moves n answered
  versions : ∀ t, (((serving c max).run moves).versions c)[versionAt c max moves t]? =
    some ((serving c max).run (moves.take t)).service.catalog
  forward : ∀ t u, t ≤ u → versionAt c max moves t ≤ versionAt c max moves u
  generation : ∀ t, ((serving c max).run (moves.take t)).Still →
    ((serving c max).run (moves.take t)).service.generation =
      ((serving c max).run (moves.take t)).replacements.length
  /-- With other moves of one connection, such as one more step that closes it, everything else is the
  same. -/
  apart : ∀ n moves', without n moves = without n moves' →
    Apart n ((serving c max).run moves) ((serving c max).run moves') ∧
      ∀ k, k ≠ n → (log c max moves k).written = (log c max moves' k).written

/-! ## Answers -/

theorem log_take (c : Catalog) (max : Nat) (moves : List ServerMove) (n t : Nat) :
    transcript ((events n (serving c max) moves).take t) = log c max (moves.take t) n := by
  rw [events_take, log]

theorem log_sent (c : Catalog) (max : Nat) (moves : List ServerMove) (n : Nat) :
    (log c max moves n).sent = stream (events n (serving c max) moves) := transcript_sent _

/-- Each finding of a connection was made between its request and its response. -/
theorem found_of_log {c : Catalog} {max : Nat} {moves : List ServerMove} {n i : Nat} {f : Finding}
    (h : (log c max moves n).findings[i]? = some f) :
    Found c max moves n ((log c max moves n).findings.take i) f := by
  obtain ⟨service, hevent, hcatalog, hstage, hbefore⟩ := transcript_finding h
  obtain ⟨m, hmove, hm⟩ := getElem?_events hevent
  obtain ⟨rfl, rfl⟩ := eventOf_advance hm
  rw [log_take] at hstage hbefore
  -- a connection with a query in its hands has a frame for all that it has found
  obtain ⟨answered, pending, hparts, hframes, hstanding⟩ := (log_sound c max (moves.take f.time) n).answers
  rw [Transcript.Standing, hstage, Transcript.queries, hbefore, log_sent] at hstanding
  obtain ⟨rfl, hasks⟩ := hstanding
  rw [List.append_nil, hbefore] at hparts
  rw [log_connection] at hstage
  subst hparts
  exact ⟨hmove, hstage, hcatalog.symm, ⟨_, hasks⟩, hframes⟩

theorem exists_answered (c : Catalog) (max : Nat) (moves : List ServerMove) (n : Nat) :
    ∃ answered, Answered c max moves n answered := by
  obtain ⟨htimes, -, answered, pending, hparts, hframes, hstanding⟩ := log_sound c max moves n
  obtain ⟨rest, hasks⟩ := hstanding.asks
  rw [Transcript.queries, hparts, List.map_append, log_sent] at hasks
  rw [hparts] at htimes
  refine ⟨answered, hasks.of_append, hframes, (List.pairwise_append.1 htimes).1, ?_⟩
  intro i f hf
  have hi : i < answered.length := (List.getElem?_eq_some_iff.1 hf).1
  have hfinding : (log c max moves n).findings[i]? = some f := by rwa [hparts, List.getElem?_append_left hi]
  have hfound := found_of_log hfinding
  rwa [hparts, List.take_append_of_le_length (Nat.le_of_lt hi)] at hfound

/-! ## Runs -/

/-- Whatever the order of the moves, if each replacement is asked for when those before it are done. -/
theorem run_linearized {c : Catalog} {max : Nat} {moves : List ServerMove}
    (h : (serving c max).Sequential moves) : Linearized c max moves where
  answers := exists_answered c max moves
  versions := version_served h
  forward _ _ := version_mono (serving c max) moves
  generation _ := generation_eq
  apart _ _ := run_apart

/-- A request that is answered while a replacement is installed and not yet counted. -/
theorem run_linearized_between :
    let c := Catalog.build []
    let moves := [.accept, .deliver 0 (frame (Request.ofQuery ⟨"", {}⟩).encode), .advance 0, .advance 0,
      .ask (Catalog.build [default]), .replace 0, .advance 0, .advance 0, .replace 0]
    (serving c 100).Sequential moves ∧ ∃ f, Answered c 100 moves 0 [f] ∧
      (((serving c 100).run moves).versions c)[versionAt c 100 moves f.time]? = some f.catalog := by
  intro c moves
  have hseq : (serving c 100).Sequential moves := by
    simp [moves, Sequential, Still, step, modify, serving]
  obtain ⟨answered, hanswered⟩ := (run_linearized hseq).answers 0
  have hwritten : (log c 100 moves 0).written.length = 1 := by decide +kernel
  have hlength : answered.length = 1 := hanswered.frames.length_eq.trans hwritten
  obtain ⟨f, rfl⟩ := List.length_eq_one_iff.1 hlength
  refine ⟨hseq, f, hanswered, ?_⟩
  rw [(run_linearized hseq).versions f.time, (hanswered.found 0 f rfl).served]

end FontCatalog.Server
