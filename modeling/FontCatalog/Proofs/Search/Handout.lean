import FontCatalog.Proofs.Search.Calls
import FontCatalog.Proofs.Search.Meetings

/-! What callers get from a finder. Each file of a walk is handed out to one claim or reported to one call for the
errors, whether the walk goes on with the claims or was gone through first. A file is missed just where the path
under which it is met first is no text. -/
namespace FontCatalog.Finder
set_option autoImplicit false
open FileTree

/-! ## Service -/

/-- What callers get, however many they are and in whatever order their calls come. -/
structure Serves (f : Finder) (paths : List Path) (errors : List SearchError) : Prop where
  /-- The claims get the paths in their order, each once, and nothing behind the last. -/
  answered : ∀ turns (i : Nat) (a : Nat × Option Path), (f.answers turns)[i]? = some a → a.2 = paths[i]?
  handed : ∀ turns, ∃ left, (f.handed turns).map Prod.snd ++ left = paths ∧ (f.Refused turns → left = [])
  refused : ∀ turns later, f.Refused turns → ∀ a ∈ (f.after turns).answers later, a.2 = none
  claimed : ∀ turns, (f.after turns).claimed = (f.handed turns).length
  /-- Each error is held until one call takes it. -/
  taken : ∀ turns, ∃ ahead,
    f.taken turns ++ (f.after turns).errors ++ ahead = errors ∧ (f.Refused turns → ahead = [])
  /-- A call behind a claim that got nothing takes the errors that are left. -/
  cleared : ∀ turns c, f.Refused turns → f.taken (turns ++ [⟨c, .takeErrors⟩]) = errors

theorem faults_eq (f : Finder) : f.faults = f.errors ++ f.takeErrors.2.faults := rfl

theorem serves {f : Finder} (h : f.claimed = 0) : f.Serves f.left f.faults where
  answered := f.answers_getElem?
  handed turns := ⟨(f.after turns).left, f.handed_left turns, fun hrefused => hrefused.exhausted.left⟩
  refused turns later hrefused := (hrefused.exhausted.after later).2
  claimed turns := by rw [after_claimed, h, Nat.zero_add]
  taken turns := by
    refine ⟨(f.after turns).takeErrors.2.faults, ?_, fun hrefused => ?_⟩
    · rw [List.append_assoc, ← faults_eq, taken_faults]
    · exact hrefused.exhausted.takeErrors.faults
  cleared turns c hrefused := by
    rw [taken_append, ← f.taken_faults turns, hrefused.exhausted.faults]
    exact congrArg _ (List.append_nil _)

/-- The total of a list is known from the start and stays. -/
theorem total_ofAccepted (paths : List Path) (errors : List SearchError) (turns : List Turn) :
    ((ofAccepted paths errors).after turns).total = some paths.length := by
  by_cases hrefused : (ofAccepted paths errors).Refused turns
  · have hhanded := (ofAccepted paths errors).handed_left turns
    rw [hrefused.exhausted.left, List.append_nil, left_ofAccepted] at hhanded
    have hclaimed : ((ofAccepted paths errors).after turns).claimed = paths.length := by
      rw [(serves rfl).claimed, ← List.length_map (f := Prod.snd), hhanded]
    rw [hrefused.exhausted.total, hclaimed]
  · exact after_total hrefused

theorem storable_eq (paths : List Path) :
    storable paths = (paths.filter fun p => p.text?.isSome,
      (paths.filter fun p => !p.text?.isSome).map SearchError.notText) := by
  induction paths with
  | nil => rfl
  | cons p rest ih =>
    rw [storable, ih, List.filter_cons, List.filter_cons]
    cases p.text?.isSome <;> rfl

/-! ## Each file once -/

/-- Of a walk and of a list each file is handed out to one claim, and each error is given to one call. -/
theorem handed_out_once (x : Extensions) (items : List WalkItem) (given : List Path) :
    ∃ (met : List (Path × FileKey)) (errors : List SearchError),
      (∀ m ∈ met, .entry m.1 true m.2 ∈ items ∧ x.accepts m.1 = true ∧ m.1.text?.isSome = true) ∧
      (met.map Prod.snd).Nodup ∧
      errors.Perm (failures items ++ unstorable x.accepts [] items) ∧
      ((ofWalk x items).Serves (met.map Prod.fst) errors ∧
        ∀ turns,
          ((ofWalk x items).Refused turns →
            ((ofWalk x items).after turns).total = some ((ofWalk x items).after turns).claimed) ∧
          (¬ (ofWalk x items).Refused turns → ((ofWalk x items).after turns).total = none)) ∧
      ((ofWalk x items).precounted.Serves (met.map Prod.fst) errors ∧
        (ofWalk x items).precounted.errors = errors ∧
        ∀ turns, ((ofWalk x items).precounted.after turns).total = some met.length) ∧
      (ofPaths given).Serves (given.filter fun p => p.text?.isSome)
        ((given.filter fun p => !p.text?.isSome).map SearchError.notText) := by
  have hleft : (ofWalk x items).left = (handable x.accepts [] items).map Prod.fst := leftOf_eq x.accepts [] items
  have hfaults : (ofWalk x items).faults = errorsOf x.accepts [] items := List.nil_append _
  refine ⟨handable x.accepts [] items, errorsOf x.accepts [] items, fun m hm => ?_, ?_,
    errorsOf_perm x.accepts [] items, ⟨?_, fun turns => ⟨fun h => h.exhausted.total, after_total⟩⟩, ?_, ?_⟩
  · obtain ⟨hfirst, htext⟩ := List.mem_filter.1 hm
    obtain ⟨hitem, haccepts⟩ := mem_meetings.1 ((firsts_sublist [] _).subset hfirst)
    exact ⟨hitem, haccepts, htext⟩
  · exact (firsts_nodup [] _).sublist (List.filter_sublist.map _)
  · rw [← hleft, ← hfaults]
    exact serves rfl
  · rw [precounted_eq, hleft, hfaults]
    refine ⟨?_, rfl, fun turns => ?_⟩
    · have hserves := serves (f := ofAccepted ((handable x.accepts [] items).map Prod.fst)
        (errorsOf x.accepts [] items)) rfl
      rwa [left_ofAccepted, faults_ofAccepted] at hserves
    · rw [total_ofAccepted, List.length_map]
  · have hserves := serves (f := ofPaths given) rfl
    rwa [left_ofPaths, faults_ofPaths, storable_eq] at hserves

/-- A file under a directory whose name is no text, and a link to that directory. -/
def aliased : FileTree where
  nodes := [
    ([[0x70]], .directory),
    ([[0x70], [0x64, 0xFF]], .directory),
    ([[0x70], [0x64, 0xFF], [0x61, 0x2E, 0x74, 0x74, 0x66]], .file .empty),
    ([[0x71]], .link ⟨[0x70, 0x2F, 0x64, 0xFF]⟩)]

def aliasedFile : FileKey := .place [[0x70], [0x64, 0xFF], [0x61, 0x2E, 0x74, 0x74, 0x66]]

-- The file has one path below the directory and one below the link; only the latter is text.
def rawPath : Path := ⟨[0x70, 0x2F, 0x64, 0xFF, 0x2F, 0x61, 0x2E, 0x74, 0x74, 0x66]⟩

def plainPath : Path := .ofString "q/a.ttf"

def linkFirst : List WalkItem := aliased.walk false [.ofString "q", .ofString "p"]

def linkLast : List WalkItem := aliased.walk false [.ofString "p", .ofString "q"]

theorem meetings_linkFirst :
    meetings Extensions.standard.accepts linkFirst = [(plainPath, aliasedFile), (rawPath, aliasedFile)] := by
  decide +kernel

/-- A path that is no text is passed over without a report where the file has been handed out. -/
theorem alias_unreported :
    meetings Extensions.standard.accepts linkFirst = [(plainPath, aliasedFile), (rawPath, aliasedFile)] ∧
    rawPath.text? = none ∧
    ∀ turns, (ofWalk .standard linkFirst).taken turns = [] := by
  have hfaults : (ofWalk .standard linkFirst).faults = [] := by decide +kernel
  refine ⟨meetings_linkFirst, by decide +kernel, fun turns => ?_⟩
  exact (List.append_eq_nil_iff.1 (((ofWalk .standard linkFirst).taken_faults turns).trans hfaults)).1

/-! ## Files that are missed -/

/-- At the end of a walk a file has been handed out if and only if the path under which it was met first is
text. -/
theorem handed_iff_met_first (x : Extensions) (items : List WalkItem) (turns : List Turn)
    (hend : (ofWalk x items).Refused turns) :
    ∃ met : List (Path × FileKey),
      met.map Prod.fst = ((ofWalk x items).handed turns).map Prod.snd ∧
      met.Sublist (meetings x.accepts items) ∧
      ∀ key, key ∈ met.map Prod.snd ↔
        ∃ before p after, meetings x.accepts items = before ++ (p, key) :: after ∧
          key ∉ before.map Prod.snd ∧ p.text?.isSome = true := by
  refine ⟨handable x.accepts [] items, ?_, List.filter_sublist.trans (firsts_sublist [] _), fun key => ?_⟩
  · have hhanded := (ofWalk x items).handed_left turns
    rw [hend.exhausted.left, List.append_nil] at hhanded
    rw [hhanded]
    exact (leftOf_eq x.accepts [] items).symm
  · rw [List.mem_map]
    constructor
    · rintro ⟨⟨p, key⟩, hm, rfl⟩
      obtain ⟨hfirst, htext⟩ := List.mem_filter.1 hm
      obtain ⟨-, before, after, hsplit, hbefore⟩ := mem_firsts_iff.1 hfirst
      exact ⟨before, p, after, hsplit, hbefore, htext⟩
    · rintro ⟨before, p, after, hsplit, hbefore, htext⟩
      refine ⟨(p, key), List.mem_filter.2 ⟨mem_firsts_iff.2 ⟨List.not_mem_nil, ?_⟩, htext⟩, rfl⟩
      exact ⟨before, after, hsplit, hbefore⟩

theorem handed_iff_met_first_link :
    (ofWalk .standard linkFirst).Refused [⟨0, .claim⟩, ⟨1, .claim⟩] ∧
    ∃ met : List (Path × FileKey),
      met.map Prod.fst = [plainPath] ∧
      met.Sublist (meetings Extensions.standard.accepts linkFirst) ∧
      aliasedFile ∈ met.map Prod.snd := by
  have hend : (ofWalk .standard linkFirst).Refused [⟨0, .claim⟩, ⟨1, .claim⟩] := by
    unfold Refused
    decide +kernel
  have hhanded : (ofWalk .standard linkFirst).handed [⟨0, .claim⟩, ⟨1, .claim⟩] = [(0, plainPath)] := by
    decide +kernel
  obtain ⟨met, hmet, hsub, hkeys⟩ := handed_iff_met_first .standard linkFirst _ hend
  rw [hhanded] at hmet
  refine ⟨hend, met, hmet, hsub, (hkeys aliasedFile).2 ?_⟩
  exact ⟨[], plainPath, [(rawPath, aliasedFile)], meetings_linkFirst, List.not_mem_nil, by decide +kernel⟩

/-- A file that is met first under a path that is no text is handed out under no path. -/
theorem hidden_by_alias :
    meetings Extensions.standard.accepts linkLast = [(rawPath, aliasedFile), (plainPath, aliasedFile)] ∧
    plainPath.text?.isSome = true ∧
    ∀ turns, (ofWalk .standard linkLast).handed turns = [] := by
  have hleft : (ofWalk .standard linkLast).left = [] := by decide +kernel
  refine ⟨by decide +kernel, by decide +kernel, fun turns => ?_⟩
  have hhanded := ((ofWalk .standard linkLast).handed_left turns).trans hleft
  exact List.map_eq_nil_iff.1 (List.append_eq_nil_iff.1 hhanded).1

end FontCatalog.Finder
