import FontCatalog.Proofs.Server.Connection
import FontCatalog.Proofs.Server.Requests
import Mathlib.Data.List.Induction

/-! The transcript of a connection: all that its peer has sent, all frames that were written, and all
findings of the server, through any sequence of events. The findings answer the requests of the
stream one by one, and each frame that was written is that of the finding with its number. -/
namespace FontCatalog.Connection
set_option autoImplicit false
open Wire

/-! ## Events -/

/-- What may happen to a connection; the server may be another one at each of its steps. -/
inductive Event where
  | deliver (bytes : Bytes)
  | hangUp
  | collect
  | advance (s : Service)
  | notice (s : Service)
  /-- something happens elsewhere -/
  | elsewhere

/-- At this event the server reads requests up to this length. -/
def Event.Reads (max : Nat) : Event → Prop
  | .advance s => s.maxFrame = max
  | _ => True

def happen (c : Connection) : Event → Connection
  | .deliver bytes => c.deliver bytes
  | .hangUp => c.hangUp
  | .collect => c.collect.2
  | .advance s => c.step s
  | .notice s => c.notice s
  | .elsewhere => c

/-- A query that the server has looked up, when it did, and in which catalog. -/
structure Finding where
  time : Nat
  query : Query
  catalog : Catalog

def Finding.response (f : Finding) : Response := .ofAnswer (f.catalog.find f.query)

structure Transcript where
  connection : Connection := {}
  /-- How many events there were. -/
  time : Nat := 0
  sent : Bytes := []
  /-- The frames that the peer has taken. -/
  taken : List Bytes := []
  findings : List Finding := []

namespace Transcript

def written (t : Transcript) : List Bytes := t.taken ++ t.connection.outgoing

def queries (t : Transcript) : List Query := t.findings.map (·.query)

/-- What a step of the server finds. -/
def finding (t : Transcript) (s : Service) : List Finding :=
  match t.connection.stage with
  | .processing q => [⟨t.time, q, s.catalog⟩]
  | _ => []

def step (t : Transcript) : Event → Transcript
  | .deliver bytes =>
    { t with
      connection := t.connection.deliver bytes
      time := t.time + 1
      sent := if t.connection.ended then t.sent else t.sent ++ bytes }
  | .hangUp => { t with connection := t.connection.hangUp, time := t.time + 1 }
  | .collect =>
    { t with
      connection := t.connection.collect.2
      time := t.time + 1
      taken := t.taken ++ t.connection.collect.1.toList }
  | .advance s =>
    { t with
      connection := t.connection.step s
      time := t.time + 1
      findings := t.findings ++ t.finding s }
  | .notice s => { t with connection := t.connection.notice s, time := t.time + 1 }
  | .elsewhere => { t with time := t.time + 1 }

theorem step_connection (t : Transcript) (e : Event) :
    (t.step e).connection = t.connection.happen e := by
  cases e <;> rfl

theorem step_time (t : Transcript) (e : Event) : (t.step e).time = t.time + 1 := by
  cases e <;> rfl

end Transcript

def transcript (events : List Event) : Transcript := events.foldl Transcript.step {}

theorem transcript_concat (events : List Event) (e : Event) :
    transcript (events ++ [e]) = (transcript events).step e := List.foldl_concat ..

/-! ## Standing -/

namespace Transcript

/-- Why a connection was closed: the rest of the stream is wrong or ends too early, the response to the
last request cannot be written, or the server was asked to stop. -/
inductive Ended (max : Nat) (t : Transcript) (pending : List Finding) (rest : Bytes) : CloseReason → Prop where
  | cancelled : Ended max t pending rest .cancelled
  | wrong {e : Wire.Error} : pending = [] → next max rest = .wrong e → Ended max t pending rest (.failed e)
  | short {reason : CloseReason} : pending = [] → t.connection.ended = true →
      next max rest = .short reason → Ended max t pending rest reason
  | unwritten {f : Finding} {e : Wire.Error} : pending = [f] → frameOf f.response = .error e →
      Ended max t pending rest (.failed e)

/-- How the stage of the connection goes with the requests that were read; `pending` are the findings
without a frame. -/
def Standing (max : Nat) (t : Transcript) (pending : List Finding) : Prop :=
  match t.connection.stage with
  | .connected | .awaiting => pending = [] ∧ Asks max t.sent t.queries t.connection.incoming.flatten
  | .processing q => pending = [] ∧ Asks max t.sent (t.queries ++ [q]) t.connection.incoming.flatten
  | .responding r => (∃ f, pending = [f] ∧ r = f.response) ∧
      Asks max t.sent t.queries t.connection.incoming.flatten
  | .closed reason => ∃ rest, Asks max t.sent t.queries rest ∧ Ended max t pending rest reason

theorem Standing.asks {max : Nat} {t : Transcript} {pending : List Finding} (h : t.Standing max pending) :
    ∃ rest, Asks max t.sent t.queries rest := by
  unfold Standing at h
  split at h
  · exact ⟨_, h.2⟩
  · exact ⟨_, h.2⟩
  · exact h.2.of_append
  · exact ⟨_, h.2⟩
  · obtain ⟨rest, hrest, -⟩ := h
    exact ⟨rest, hrest⟩

/-- The frame of a finding. -/
abbrev IsFrame (f : Finding) (bytes : Bytes) : Prop := frameOf f.response = .ok bytes

/-- The findings with a frame, and the standing of those without one. -/
def Answers (max : Nat) (t : Transcript) : Prop :=
  ∃ answered pending, t.findings = answered ++ pending ∧ List.Forall₂ IsFrame answered t.written ∧
    t.Standing max pending

structure Sound (max : Nat) (t : Transcript) : Prop where
  times : t.findings.Pairwise fun f g => f.time < g.time
  earlier : ∀ f ∈ t.findings, f.time < t.time
  answers : t.Answers max

theorem sound_start (max : Nat) : Sound max {} where
  times := .nil
  earlier := nofun
  answers := ⟨[], [], rfl, .nil, rfl, asks_nil max []⟩

/-! ## Steps -/

variable {max : Nat} {t : Transcript}

/-- Only a step of the server with a query in its hands finds something. -/
theorem step_findings (t : Transcript) (e : Event) :
    (t.step e).findings = t.findings ∨
    ∃ s q, e = .advance s ∧ t.connection.stage = .processing q ∧
      (t.step e).findings = t.findings ++ [⟨t.time, q, s.catalog⟩] := by
  cases e with
  | advance s =>
    rw [step, finding]
    cases hstage : t.connection.stage with
    | processing q => exact .inr ⟨s, q, rfl, rfl, rfl⟩
    | _ => exact .inl (List.append_nil _)
  | _ => exact .inl rfl

theorem step_times (h : Sound max t) (e : Event) :
    ((t.step e).findings.Pairwise fun f g => f.time < g.time) ∧
      ∀ f ∈ (t.step e).findings, f.time < (t.step e).time := by
  have hlater : ∀ f ∈ t.findings, f.time < t.time + 1 := fun f hf => Nat.lt_succ_of_lt (h.earlier f hf)
  rw [step_time]
  rcases step_findings t e with hnew | ⟨s, q, -, -, hnew⟩
  · rw [hnew]
    exact ⟨h.times, hlater⟩
  · rw [hnew]
    constructor
    · refine List.pairwise_append.2 ⟨h.times, List.pairwise_singleton .., ?_⟩
      intro f hf g hg
      rw [List.mem_singleton.1 hg]
      exact h.earlier f hf
    · intro f hf
      rcases List.mem_append.1 hf with hf | hf
      · exact hlater f hf
      · rw [List.mem_singleton.1 hf]
        exact Nat.lt_succ_self _

/-- Nothing happens to the requests; at most the peer ends its side. -/
theorem Answers.of_eq {u : Transcript} (h : Answers max t)
    (hstage : u.connection.stage = t.connection.stage)
    (hincoming : u.connection.incoming = t.connection.incoming)
    (hended : t.connection.ended = true → u.connection.ended = true) (hsent : u.sent = t.sent)
    (hwritten : u.written = t.written) (hfindings : u.findings = t.findings) : Answers max u := by
  obtain ⟨answered, pending, hparts, hframes, hstanding⟩ := h
  have hqueries : u.queries = t.queries := congrArg (List.map Finding.query) hfindings
  refine ⟨answered, pending, hfindings.trans hparts, hwritten ▸ hframes, ?_⟩
  unfold Standing at hstanding ⊢
  rw [hstage, hincoming, hsent, hqueries]
  split at hstanding
  · exact hstanding
  · exact hstanding
  · exact hstanding
  · exact hstanding
  · obtain ⟨rest, hrest, hreason⟩ := hstanding
    refine ⟨rest, hrest, ?_⟩
    cases hreason with
    | cancelled => exact .cancelled
    | wrong hnone hnext => exact .wrong hnone hnext
    | short hnone hend hnext => exact .short hnone (hended hend) hnext
    | unwritten hone hframe => exact .unwritten hone hframe

theorem deliver_answers (h : Answers max t) (bytes : Bytes) : Answers max (t.step (.deliver bytes)) := by
  obtain ⟨⟨stage, incoming, ended, outgoing⟩, time, sent, taken, findings⟩ := t
  cases ended with
  | true => exact h.of_eq rfl rfl id rfl rfl rfl
  | false =>
    have hflatten : (incoming ++ [bytes]).flatten = incoming.flatten ++ bytes := by
      rw [List.flatten_append, List.flatten_singleton]
    obtain ⟨answered, pending, hparts, hframes, hstanding⟩ := h
    refine ⟨answered, pending, hparts, hframes, ?_⟩
    show Standing max ⟨⟨stage, incoming ++ [bytes], false, outgoing⟩, time + 1, sent ++ bytes, taken, findings⟩ _
    cases stage with
    | connected | awaiting | processing q | responding r =>
      obtain ⟨hpending, hasks⟩ := hstanding
      refine ⟨hpending, ?_⟩
      dsimp only
      rw [hflatten]
      exact hasks.append bytes
    | closed reason =>
      obtain ⟨rest, hrest, hreason⟩ := hstanding
      refine ⟨rest ++ bytes, hrest.append bytes, ?_⟩
      cases hreason with
      | cancelled => exact .cancelled
      | wrong hnone hnext => exact .wrong hnone (next_append hnext bytes)
      | short hnone hend hnext => cases hend
      | unwritten hone hframe => exact .unwritten hone hframe

theorem collect_answers (h : Answers max t) : Answers max (t.step .collect) := by
  obtain ⟨⟨stage, incoming, ended, outgoing⟩, time, sent, taken, findings⟩ := t
  cases outgoing with
  | nil => exact h.of_eq rfl rfl id rfl (by simp [step, collect, written]) rfl
  | cons frame rest => exact h.of_eq rfl rfl id rfl (by simp [step, collect, written]) rfl

theorem notice_answers (h : Answers max t) (s : Service) : Answers max (t.step (.notice s)) := by
  obtain ⟨⟨stage, incoming, ended, outgoing⟩, time, sent, taken, findings⟩ := t
  by_cases hcancelled : s.cancelled = true
  · cases stage with
    | awaiting | responding r =>
      obtain ⟨answered, pending, hparts, hframes, hstanding⟩ := h
      refine ⟨answered, pending, hparts, ?_, ?_⟩
      · rw [step, written, notice, if_pos hcancelled]
        exact hframes
      · rw [step, notice, if_pos hcancelled]
        exact ⟨_, hstanding.2, .cancelled⟩
    | connected | processing q | closed reason =>
      rw [step, notice, if_pos hcancelled]
      exact h.of_eq rfl rfl id rfl rfl rfl
  · have hnotice (c : Connection) : c.notice s = c := if_neg hcancelled
    rw [step, hnotice]
    exact h.of_eq rfl rfl id rfl rfl rfl

/-- A step that finds nothing changes the connection alone. -/
theorem step_advance {s : Service} (h : t.finding s = []) :
    t.step (.advance s) = { t with connection := t.connection.step s, time := t.time + 1 } := by
  rw [step, h, List.append_nil]

theorem read_answers (h : Answers max t) {s : Service} (hmax : s.maxFrame = max)
    (hstage : t.connection.stage = .awaiting) : Answers max (t.step (.advance s)) := by
  have hnothing : t.finding s = [] := by rw [finding, hstage]
  have hread := readRequest_eq s t.connection
  rw [step_advance hnothing, step_awaiting s hstage]
  obtain ⟨⟨stage, incoming, ended, outgoing⟩, time, sent, taken, findings⟩ := t
  obtain ⟨answered, pending, hparts, hframes, hstanding⟩ := h
  dsimp only at hstage hread
  subst hstage hmax
  obtain ⟨hpending, hasks⟩ := hstanding
  dsimp only at hasks
  cases hnext : next s.maxFrame incoming.flatten with
  | request q rest =>
    rw [hnext] at hread
    obtain ⟨left, rfl, hread⟩ := hread
    rw [hread]
    exact ⟨answered, pending, hparts, hframes, hpending, hasks.concat hnext⟩
  | wrong e =>
    rw [hnext] at hread
    obtain ⟨left, hread⟩ := hread
    rw [hread]
    exact ⟨answered, pending, hparts, hframes, _, hasks, .wrong hpending hnext⟩
  | short reason =>
    rw [hnext] at hread
    rw [hread]
    cases ended with
    | false => exact ⟨answered, pending, hparts, hframes, hpending, hasks⟩
    | true => exact ⟨answered, pending, hparts, hframes, _, hasks, .short hpending rfl hnext⟩

theorem advance_answers (h : Answers max t) {s : Service} (hmax : s.maxFrame = max) :
    Answers max (t.step (.advance s)) := by
  cases hstage : t.connection.stage with
  | awaiting => exact read_answers h hmax hstage
  | connected =>
    have hnothing : t.finding s = [] := by rw [finding, hstage]
    rw [step_advance hnothing]
    obtain ⟨⟨stage, incoming, ended, outgoing⟩, time, sent, taken, findings⟩ := t
    dsimp only at hstage
    subst hstage
    exact h
  | processing q =>
    obtain ⟨⟨stage, incoming, ended, outgoing⟩, time, sent, taken, findings⟩ := t
    dsimp only at hstage
    subst hstage
    obtain ⟨answered, pending, hparts, hframes, rfl, hasks⟩ := h
    refine ⟨answered, [⟨time, q, s.catalog⟩], ?_, hframes, ⟨_, rfl, rfl⟩, ?_⟩
    · rw [List.append_nil] at hparts
      rw [← hparts]
      rfl
    · rw [queries, step, finding, List.map_append]
      exact hasks
  | responding r =>
    have hnothing : t.finding s = [] := by rw [finding, hstage]
    rw [step_advance hnothing, step_responding s hstage]
    obtain ⟨⟨stage, incoming, ended, outgoing⟩, time, sent, taken, findings⟩ := t
    dsimp only at hstage
    subst hstage
    obtain ⟨answered, pending, hparts, hframes, ⟨f, rfl, rfl⟩, hasks⟩ := h
    cases hframe : frameOf f.response with
    | ok bytes =>
      refine ⟨answered ++ [f], [], ?_, ?_, rfl, hasks⟩
      · rw [List.append_nil]
        exact hparts
      · show List.Forall₂ IsFrame (answered ++ [f]) (taken ++ (outgoing ++ [bytes]))
        rw [← List.append_assoc]
        exact List.rel_append hframes (.cons hframe .nil)
    | error e => exact ⟨answered, [f], hparts, hframes, _, hasks, .unwritten rfl hframe⟩
  | closed reason =>
    have hnothing : t.finding s = [] := by rw [finding, hstage]
    rw [step_advance hnothing, step_closed s hstage]
    exact h.of_eq rfl rfl id rfl rfl rfl

/-! ## Runs -/

theorem step_sound (h : Sound max t) {e : Event} (he : e.Reads max) : Sound max (t.step e) := by
  obtain ⟨htimes, hearlier⟩ := step_times h e
  refine ⟨htimes, hearlier, ?_⟩
  cases e with
  | deliver bytes => exact deliver_answers h.answers bytes
  | hangUp => exact h.answers.of_eq rfl rfl (fun _ => rfl) rfl rfl rfl
  | collect => exact collect_answers h.answers
  | advance s => exact advance_answers h.answers he
  | notice s => exact notice_answers h.answers s
  | elsewhere => exact h.answers.of_eq rfl rfl id rfl rfl rfl

end Transcript

/-! ## Runs -/

theorem transcript_sound {max : Nat} (events : List Event) (h : ∀ e ∈ events, e.Reads max) :
    (transcript events).Sound max := by
  induction events using List.reverseRecOn with
  | nil => exact Transcript.sound_start max
  | append_singleton events e ih =>
    rw [transcript_concat]
    apply Transcript.step_sound
    · exact ih fun e' he' => h e' (List.mem_append_left _ he')
    · exact h e (by simp)

theorem transcript_time (events : List Event) : (transcript events).time = events.length := by
  induction events using List.reverseRecOn with
  | nil => rfl
  | append_singleton events e ih => rw [transcript_concat, Transcript.step_time, ih, List.length_append]; rfl

/-! ## The stream -/

/-- What a peer sends: all bytes until it ends its side. -/
def stream : List Event → Bytes
  | [] => []
  | .deliver bytes :: rest => bytes ++ stream rest
  | .hangUp :: _ => []
  | .collect :: rest | .advance _ :: rest | .notice _ :: rest | .elsewhere :: rest => stream rest

/-- The server does not change whether the peer has ended its side. -/
theorem step_ended (s : Service) (c : Connection) : (c.step s).ended = c.ended := by
  cases hstage : c.stage with
  | awaiting =>
    have hread := readRequest_eq s c
    rw [step_awaiting s hstage]
    split at hread
    · obtain ⟨left, -, hread⟩ := hread
      rw [hread]
    · obtain ⟨left, hread⟩ := hread
      rw [hread]
    · rw [hread]
      split <;> rfl
  | responding r =>
    rw [step_responding s hstage]
    cases frameOf r <;> rfl
  | connected | processing q | closed reason => rw [Connection.step, hstage]

theorem notice_ended (s : Service) (c : Connection) : (c.notice s).ended = c.ended := by
  unfold notice
  split
  · split <;> rfl
  · rfl

theorem collect_ended (c : Connection) : c.collect.2.ended = c.ended := by
  unfold collect
  split <;> rfl

theorem foldl_sent (events : List Event) (t : Transcript) :
    (events.foldl Transcript.step t).sent =
      t.sent ++ if t.connection.ended then [] else stream events := by
  induction events generalizing t with
  | nil => simp [stream]
  | cons e events ih =>
    rw [List.foldl_cons, ih, Transcript.step_connection]
    cases hended : t.connection.ended with
    | true =>
      cases e <;>
        simp [Transcript.step, happen, deliver, hangUp, hended, collect_ended, step_ended, notice_ended]
    | false =>
      cases e <;>
        simp [Transcript.step, happen, deliver, hangUp, hended, collect_ended, step_ended, notice_ended, stream]

theorem transcript_sent (events : List Event) : (transcript events).sent = stream events :=
  foldl_sent events {}

theorem transcript_ended {events : List Event} (h : .hangUp ∈ events) :
    (transcript events).connection.ended = true := by
  induction events using List.reverseRecOn with
  | nil => cases h
  | append_singleton events e ih =>
    rw [transcript_concat, Transcript.step_connection]
    rcases List.mem_append.1 h with h | h
    · have hstill := ih h
      cases e <;> simp [happen, deliver, hangUp, hstill, collect_ended, step_ended, notice_ended]
    · rw [← List.mem_singleton.1 h]
      rfl

/-! ## Findings -/

/-- Each finding was made by a step of the server in which the connection had just its query. -/
theorem transcript_finding {events : List Event} {i : Nat} {f : Finding}
    (h : (transcript events).findings[i]? = some f) :
    ∃ s, events[f.time]? = some (.advance s) ∧ f.catalog = s.catalog ∧
      (transcript (events.take f.time)).connection.stage = .processing f.query ∧
      (transcript (events.take f.time)).findings = (transcript events).findings.take i := by
  induction events using List.reverseRecOn with
  | nil => cases h
  | append_singleton events e ih =>
    have hearlier (hold : (transcript events).findings[i]? = some f) :
        ∃ s, (events ++ [e])[f.time]? = some (.advance s) ∧ f.catalog = s.catalog ∧
          (transcript ((events ++ [e]).take f.time)).connection.stage = .processing f.query ∧
          (transcript ((events ++ [e]).take f.time)).findings = (transcript events).findings.take i := by
      obtain ⟨s, hs, hrest⟩ := ih hold
      have hlength : f.time < events.length := (List.getElem?_eq_some_iff.1 hs).1
      rw [List.getElem?_append_left hlength, List.take_append_of_le_length (Nat.le_of_lt hlength)]
      exact ⟨s, hs, hrest⟩
    rw [transcript_concat] at h ⊢
    rcases Transcript.step_findings (transcript events) e with hnew | ⟨s, q, rfl, hstage, hnew⟩
    · rw [hnew] at h ⊢
      exact hearlier h
    · rw [hnew] at h ⊢
      by_cases hold : i < (transcript events).findings.length
      · rw [List.getElem?_append_left hold] at h
        rw [List.take_append_of_le_length (Nat.le_of_lt hold)]
        exact hearlier h
      · rw [List.getElem?_append_right (Nat.not_lt.1 hold)] at h
        have hi : i - (transcript events).findings.length = 0 := by
          have hone := (List.getElem?_eq_some_iff.1 h).1
          rw [List.length_singleton] at hone
          omega
        rw [hi] at h
        cases h
        have hlast : i = (transcript events).findings.length := by omega
        dsimp only
        rw [transcript_time, List.getElem?_concat_length, List.take_left, hlast, List.take_left]
        exact ⟨s, rfl, rfl, hstage, rfl⟩

end FontCatalog.Connection
