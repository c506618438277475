import FontCatalog.Command
import FontCatalog.Proofs.Catalog.Files
import FontCatalog.Proofs.Client
import FontCatalog.Proofs.Match.Folding
import FontCatalog.Proofs.Wire.Length

/-! Asking a server and looking into the same files oneself come to the same. -/
namespace FontCatalog.Command
set_option autoImplicit false
open Wire

/-! ## Catalogs and lines -/

theorem loaded_of_loadCatalog {i : CommandInput} {s : Settings} {given : List Path} {c : Catalog}
    (h : loadCatalog i s given = .ok c) : c.Loaded := by
  unfold loadCatalog at h
  split at h
  · cases h
  · split at h
    · cases h
    · next hload =>
      cases h
      exact Catalog.loaded_of_loadAll hload

theorem loadCatalog_document {i : CommandInput} {s : Settings} {p : Path} {bs : Bytes}
    {faces : List Face} (hread : i.files.read p = .ok ⟨bs.toArray⟩)
    (h : Catalog.deserialize bs = .ok (Catalog.build faces)) :
    loadCatalog i s [p] = .ok (Catalog.build faces) := by
  have hload := Catalog.loadAll_document hread h
  rw [loadCatalog, if_neg (by simp)]
  dsimp only
  rw [hload]

theorem responseLine_ofAnswer (a : Answer) : responseLine (.ofAnswer a) = answerLine a := by
  cases a <;> rfl

theorem isSome_face?_ofAnswer (a : Answer) :
    (Response.ofAnswer a).face?.isSome = a.face?.isSome := by
  cases a <;> rfl

/-- What is told of a query depends on the answer only, wherever the answer comes from. -/
theorem replied_ofAnswer (t : FileTree) (q : Query) (address? : Option String) (a : Answer) :
    replied t ⟨q, address?, false⟩ (.ok (.ofAnswer a)) =
      answered t q.family a.face?.isSome (.ok (answerLine a)) := by
  rw [replied]
  dsimp only
  rw [isSome_face?_ofAnswer, responseLine_ofAnswer]
  rfl

/-- What a command tells of an answer: the face, its tier and its full name on a line, and otherwise that
there is none, with which it fails. -/
def Tells (r : CommandResult) (family : String) : Answer → Prop
  | .found f t =>
    r.output = f.id.display ++ "\t" ++ t.name ++ "\t" ++ f.fullName ++ "\n" ∧ r.ending = .finished
  | .notFound => r.output = "not found\n" ∧ r.ending = .failed ["no face matches " ++ Text.quoted family]

theorem answered_tells (t : FileTree) (family : String) (a : Answer) :
    Tells (answered t family a.face?.isSome (.ok (answerLine a))) family a := by
  cases a <;> exact ⟨rfl, rfl⟩

theorem Tells.unique {r r' : CommandResult} {family : String} {a : Answer} (h : Tells r family a)
    (h' : Tells r' family a) : r.output = r'.output ∧ r.ending = r'.ending := by
  cases a <;> exact ⟨h.1.trans h'.1.symm, h.2.trans h'.2.symm⟩

/-- A request that has been framed. -/
theorem map_frameOf {q : Query} (h : (Request.ofQuery q).encode.length ≤ maxLength) (r : Response) :
    (Client.frameOf q).map (fun _ => r) = .ok r := by
  rw [Client.frameOf, writeFrame_eq h]
  rfl

/-! ## Commands -/

theorem runMatch_loaded {i : CommandInput} {s : Settings} {catalogs : List Path} {c : Catalog}
    (hload : loadCatalog i s catalogs = .ok c) (q : Query) :
    runMatch i s ⟨q, catalogs, false⟩ =
      answered i.files q.family (c.find q).face?.isSome (.ok (answerLine (c.find q))) := by
  rw [runMatch]
  dsimp only
  rw [hload]
  rfl

theorem runMatch_tells {i : CommandInput} {s : Settings} {catalogs : List Path} {c : Catalog}
    (hload : loadCatalog i s catalogs = .ok c) (q : Query) :
    Tells (runMatch i s ⟨q, catalogs, false⟩) q.family (c.find q) := by
  rw [runMatch_loaded hload]
  exact answered_tells i.files q.family (c.find q)

/-- A query to a server of a catalog that was loaded tells what the catalog finds. -/
theorem runQuery_tells {j : CommandInput} {t : Settings} {q : Query} {address? : Option String}
    {a : Address} {service : Service} (hloaded : service.catalog.Loaded)
    (hresolve : j.network.resolve (queryAddress t ⟨q, address?, false⟩) = .ok a)
    (hconnect : j.network.connect a = .ok service) (hq : q.Fits service defaultMaxFrame)
    (hsent : (Request.ofQuery q).encode.length ≤ maxLength) :
    Tells (runQuery j t ⟨q, address?, false⟩) q.family (service.catalog.find q) := by
  obtain ⟨faces, hfaces, htext⟩ := hloaded
  rw [hfaces] at htext
  have hlimit : defaultMaxFrame ≤ maxLength := by decide
  obtain ⟨x', hask, -⟩ := Exchange.ask_inStep htext hfaces Exchange.inStep_start hlimit hq
  rw [runQuery]
  dsimp only
  rw [hresolve]
  dsimp only
  rw [hconnect]
  dsimp only
  rw [hask, map_frameOf hsent, replied_ofAnswer]
  exact answered_tells j.files q.family (service.catalog.find q)

/-- A request whose length does not fit four bytes is not sent, and the command fails for it. -/
theorem runQuery_long {j : CommandInput} {t : Settings} {q : Query} {address? : Option String}
    {a : Address} {service : Service}
    (hresolve : j.network.resolve (queryAddress t ⟨q, address?, false⟩) = .ok a)
    (hconnect : j.network.connect a = .ok service)
    (hlong : maxLength < (Request.ofQuery q).encode.length) :
    (runQuery j t ⟨q, address?, false⟩).output = "" ∧
      (runQuery j t ⟨q, address?, false⟩).ending =
        .failed ("query failed" :: wireCauses (.frameTooLarge (Request.ofQuery q).encode.length maxLength)) := by
  have hask : (Exchange.ask service {} q).1 =
      .error (.frameTooLarge (Request.ofQuery q).encode.length maxLength) := by
    rw [Exchange.ask, Exchange.send, Client.frameOf, writeFrame, if_neg (Nat.not_le.2 hlong)]
  have hrun : runQuery j t ⟨q, address?, false⟩ = replied j.files ⟨q, address?, false⟩
      (.error (.frameTooLarge (Request.ofQuery q).encode.length maxLength)) := by
    rw [runQuery]
    dsimp only
    rw [hresolve]
    dsimp only
    rw [hconnect]
    dsimp only
    rw [hask]
  rw [hrun]
  exact ⟨rfl, rfl⟩

/-! ## A server of one face -/

def servedFace : Face := { Ladder.faceNamed "A" with fullName := "A Regular" }

def served (maxFrame : Nat) : Service := ⟨Catalog.build [servedFace], 0, false, maxFrame⟩

theorem textual_served : Catalog.Textual (Catalog.build [servedFace]).faces.toList :=
  Catalog.textual_build (List.forall_mem_singleton.2 (by decide))

theorem connect_withService (a : Address) (service : Service) :
    (Network.withService a service).connect a = .ok service := by
  simp [Network.withService]

theorem resolve_withService (a : Address) (service : Service) :
    (Network.withService a service).resolve "localhost:7" = .ok ⟨"localhost", 7⟩ := by
  have haddress : Address.ofText "localhost:7" = .ok ⟨"localhost", 7⟩ := rfl
  rw [Network.resolve, haddress]
  simp [Network.withService]

theorem length_reply_served (t : Tier) {reply : Bytes}
    (h : (Response.ofAnswer (.found servedFace t)).encode = .ok reply) : reply.length ≤ defaultMaxFrame := by
  obtain ⟨path, hpath, rfl⟩ := Response.encode_found h
  obtain rfl : "/f/a.ttf" = path := Option.some.inj hpath
  cases t <;> decide +kernel

/-- The server answers with its face or without one, and both answers are short. -/
theorem fits_served {q : Query} {maxFrame : Nat} (h : (Request.ofQuery q).encode.length ≤ maxFrame) :
    q.Fits (served maxFrame) defaultMaxFrame := by
  refine ⟨h, fun reply hreply => ?_⟩
  rw [served] at hreply
  dsimp only at hreply
  cases hfind : (Catalog.build [servedFace]).find q with
  | notFound =>
    rw [hfind] at hreply
    cases hreply
    decide +kernel
  | found f t =>
    have hmem : f ∈ (Catalog.build [servedFace]).faces.toList := Catalog.find_mem (by rw [hfind]; rfl)
    obtain rfl := List.mem_singleton.1 (Catalog.mem_of_mem_build hmem)
    rw [hfind] at hreply
    exact length_reply_served t hreply

/-! ## Remote and local -/

/-- Calls to a server, in any number, get what its catalog finds, as long as request and response fit;
only a request whose length does not fit four bytes is not sent. So the commands that ask a server and
that look into the files of its catalog tell the same and end in the same way. -/
theorem remote_eq_local :
    (∀ (faces : List Face) (s : Service) (qs : List Query),
      Catalog.Textual (Catalog.build faces).faces.toList → s.catalog = Catalog.build faces →
      (∀ q ∈ qs, q.Fits s defaultMaxFrame) →
      Exchange.askAll s {} qs = qs.map fun q =>
        if (Request.ofQuery q).encode.length ≤ maxLength then
          .ok (Response.ofAnswer ((Catalog.build faces).find q))
        else .error (.frameTooLarge (Request.ofQuery q).encode.length maxLength)) ∧
    ∀ (i j : CommandInput) (s t : Settings) (q : Query) (catalogs : List Path)
      (address? : Option String) (a : Address) (service : Service),
      loadCatalog i s catalogs = .ok service.catalog →
      j.network.resolve (queryAddress t ⟨q, address?, false⟩) = .ok a →
      j.network.connect a = .ok service →
      q.Fits service defaultMaxFrame →
      Tells (runMatch i s ⟨q, catalogs, false⟩) q.family (service.catalog.find q) ∧
        ((Request.ofQuery q).encode.length ≤ maxLength →
          (runQuery j t ⟨q, address?, false⟩).output = (runMatch i s ⟨q, catalogs, false⟩).output ∧
            (runQuery j t ⟨q, address?, false⟩).ending = (runMatch i s ⟨q, catalogs, false⟩).ending) ∧
        (maxLength < (Request.ofQuery q).encode.length →
          (runQuery j t ⟨q, address?, false⟩).output = "" ∧
            (runQuery j t ⟨q, address?, false⟩).ending = .failed
              ("query failed" :: wireCauses (.frameTooLarge (Request.ofQuery q).encode.length maxLength))) := by
  have hlimit : defaultMaxFrame ≤ maxLength := by decide
  constructor
  · intro faces s qs htext hs hqs
    rw [Exchange.askAll_inStep htext hs Exchange.inStep_start hlimit hqs]
    refine List.map_congr_left fun q _ => ?_
    rw [Client.frameOf, writeFrame, hs]
    split <;> rfl
  · intro i j s t q catalogs address? a service hload hresolve hconnect hq
    have hlocal := runMatch_tells hload q
    refine ⟨hlocal, fun hsent => ?_, fun hlong => runQuery_long hresolve hconnect hlong⟩
    exact (runQuery_tells (loaded_of_loadCatalog hload) hresolve hconnect hq hsent).unique hlocal

theorem encode_short :
    (Request.ofQuery ⟨"@A", ⟨some true, none⟩⟩).encode.length ≤ 100 := by
  rw [Request.encode, Json.encode_render]
  decide

theorem remote_eq_local_served :
    let q : Query := ⟨"@A", ⟨some true, none⟩⟩
    let found := Response.ofAnswer (.found servedFace .exactTypographic)
    Exchange.askAll (served 100) {} [q, q] = [.ok found, .ok found] ∧
      ∃ i j : CommandInput, loadCatalog i (.standard 1) [.ofString "/c"] = .ok (served 100).catalog ∧
        (runMatch i (.standard 1) ⟨q, [.ofString "/c"], false⟩).output =
          "/f/a.ttf#0\texact_typographic\tA Regular\n" ∧
        (runMatch i (.standard 1) ⟨q, [.ofString "/c"], false⟩).ending = .finished ∧
        (runQuery j (.standard 1) ⟨q, some "localhost:7", false⟩).output =
          "/f/a.ttf#0\texact_typographic\tA Regular\n" ∧
        (runQuery j (.standard 1) ⟨q, some "localhost:7", false⟩).ending = .finished := by
  intro q found
  have hsent := Nat.le_trans encode_short (show 100 ≤ maxLength by decide)
  have hfits : q.Fits (served 100) defaultMaxFrame := fits_served encode_short
  have hfind : (Catalog.build [servedFace]).find q = .found servedFace .exactTypographic := by
    rw [Catalog.find_singleton]
    decide +kernel
  constructor
  · have hasked := remote_eq_local.1 [servedFace] (served 100) [q, q] textual_served rfl
      (by simp [hfits])
    rw [hasked, List.map_cons, List.map_cons, List.map_nil, if_pos hsent, hfind]
  · generalize hbs : Text.encode (Catalog.documentOf [servedFace.toJsonWith (.text "/f/a.ttf")]).renderPretty = bs
    have hwritten : Catalog.Written [servedFace] [servedFace.toJsonWith (.text "/f/a.ttf")] :=
      .cons (by decide) .nil
    have hload := loadCatalog_document (s := .standard 1) (p := .ofString "/c")
      (i := ⟨{ nodes := [([[99]], .file ⟨bs.toArray⟩)] }, {}, .cut, [], false, 1⟩) rfl
      (hbs ▸ hwritten.deserialize)
    obtain ⟨hlocal, hremote, -⟩ := remote_eq_local.2 _
      ⟨{}, {}, .withService ⟨"localhost", 7⟩ (served 100), [], false, 1⟩ _ (.standard 1) q _ (some "localhost:7")
      _ _ hload (resolve_withService _ _) (connect_withService _ _) hfits
    obtain ⟨houtput, hending⟩ := hremote hsent
    rw [show (served 100).catalog.find q = _ from hfind] at hlocal
    have hline : servedFace.id.display ++ "\t" ++ Tier.exactTypographic.name ++ "\t" ++ servedFace.fullName ++ "\n" =
        "/f/a.ttf#0\texact_typographic\tA Regular\n" := by decide +kernel
    exact ⟨_, _, hload, hlocal.1.trans hline, hlocal.2, houtput.trans (hlocal.1.trans hline),
      hending.trans hlocal.2⟩

/-- A server may take requests that no client can send: their length does not fit four bytes. -/
theorem remote_ne_local_long :
    let q : Query := ⟨Json.longText (2 ^ 32), {}⟩
    q.Fits (served (2 ^ 33)) defaultMaxFrame ∧
      Exchange.askAll (served (2 ^ 33)) {} [q] = [.error (.frameTooLarge (2 ^ 32 + 51) maxLength)] ∧
      Exchange.askAll (served (2 ^ 33)) {} [q] ≠ [.ok (Response.ofAnswer ((served (2 ^ 33)).catalog.find q))] := by
  intro q
  have hlength : (Request.ofQuery q).encode.length = 2 ^ 32 + 51 := by
    rw [Request.length_encode, Json.length_textBody_longText]
  have hlong : ¬ (Request.ofQuery q).encode.length ≤ maxLength := by
    rw [hlength]
    decide
  have hfits : q.Fits (served (2 ^ 33)) defaultMaxFrame := fits_served (by rw [hlength]; decide)
  have hasked : Exchange.askAll (served (2 ^ 33)) {} [q] = [.error (.frameTooLarge (2 ^ 32 + 51) maxLength)] := by
    rw [Exchange.askAll_inStep textual_served rfl Exchange.inStep_start (by decide)
      (List.forall_mem_singleton.2 hfits), List.map_cons, List.map_nil, Client.frameOf, writeFrame, if_neg hlong,
      hlength]
    rfl
  refine ⟨hfits, hasked, ?_⟩
  rw [hasked]
  intro heq
  cases List.head_eq_of_cons_eq heq

end FontCatalog.Command
