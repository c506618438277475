import FontCatalog.Proofs.Server.Replacements

/-! Replacements that overlap. Each of them installs its catalog and is then counted, and any number of
others may take steps in between. What is told to those who asked are distinct numbers, and the greatest of
them is the generation. The catalog that is served is the one that was installed last, which need not be
the one that was counted last. -/
namespace FontCatalog
set_option autoImplicit false

theorem Replacement.generation?_isSome {r : Replacement} (h : r.isCounted = true) :
    r.generation?.isSome = true := by
  cases r with
  | asked c | installed c => cases h
  | counted c generation => rfl

namespace Server

/-- The replacements of a run by their numbers, in the order of their first and of their second steps. -/
structure Order where
  installs : List Nat := []
  counts : List Nat := []

/-- The order with the step that a replacement takes by a move of the server. -/
def Order.after (o : Order) (s : Server) : ServerMove → Order
  | .replace number =>
    match s.replacements[number]? with
    | some (.asked _) => { o with installs := o.installs ++ [number] }
    | some (.installed _) => { o with counts := o.counts ++ [number] }
    | _ => o
  | _ => o

def orderFrom (s : Server) (o : Order) : List ServerMove → Order
  | [] => o
  | m :: moves => orderFrom (s.step m) (o.after s m) moves

/-- The steps that the replacements take in a run. -/
def order (s : Server) (moves : List ServerMove) : Order := orderFrom s {} moves

/-- What the one who asked for a replacement has been told. -/
def told (s : Server) (number : Nat) : Option Nat := s.replacements[number]?.bind (·.generation?)

/-- The catalog that a replacement is for. -/
def wanted (s : Server) (number : Nat) : Option Catalog := s.replacements[number]?.map (·.catalog)

/-! ## Steps -/

theorem step_replace {s : Server} {number : Nat} {r : Replacement} (h : s.replacements[number]? = some r) :
    s.step (.replace number) = { s with
      service := (r.step s.service).1
      replacements := s.replacements.set number (r.step s.service).2 } := by
  rw [step, h]

/-- A move asks for a replacement, installs its catalog, counts it, or does nothing of this. -/
inductive Turn (s : Server) (o : Order) : Server → Order → Prop
  | other (t : Server) (hsame : t.replacements = s.replacements) (hcatalog : t.service.catalog = s.service.catalog)
      (hgeneration : t.service.generation = s.service.generation) : Turn s o t o
  | ask (c : Catalog) : Turn s o { s with replacements := s.replacements ++ [.asked c] } o
  | install (number : Nat) (c : Catalog) (h : s.replacements[number]? = some (.asked c)) :
      Turn s o
        { s with service := s.service.install c, replacements := s.replacements.set number (.installed c) }
        { o with installs := o.installs ++ [number] }
  | count (number : Nat) (c : Catalog) (h : s.replacements[number]? = some (.installed c)) :
      Turn s o
        { s with
          service := s.service.count
          replacements := s.replacements.set number (.counted c (s.service.generation + 1)) }
        { o with counts := o.counts ++ [number] }

theorem step_turn (s : Server) (o : Order) (m : ServerMove) : Turn s o (s.step m) (o.after s m) := by
  cases m with
  | accept =>
    refine .other _ ?_ ?_ ?_ <;>
    · rw [step]
      split <;> rfl
  | ask c => exact .ask c
  | replace number =>
    cases hr : s.replacements[number]? with
    | none =>
      rw [step, Order.after, hr]
      exact .other s rfl rfl rfl
    | some r =>
      rw [step_replace hr, Order.after, hr]
      cases r with
      | asked c => exact .install number c hr
      | installed c => exact .count number c hr
      | counted c generation =>
        refine .other _ ?_ rfl rfl
        obtain ⟨hnumber, hr⟩ := List.getElem?_eq_some_iff.1 hr
        exact (congrArg (s.replacements.set number) hr.symm).trans (List.set_getElem_self hnumber)
  | deliver | hangUp | collect | advance | notice | cancel => exact .other _ rfl rfl rfl

/-- What is known of one replacement after another one, or it itself, has changed. -/
theorem getElem?_set_of {rs : List Replacement} {number : Nat} {r : Replacement} (h : rs[number]? = some r)
    (r' : Replacement) (n : Nat) : (rs.set number r')[n]? = if number = n then some r' else rs[n]? := by
  rw [List.getElem?_set, if_pos (List.getElem?_eq_some_iff.1 h).1]

theorem told_set {s : Server} {number : Nat} {r : Replacement} (h : s.replacements[number]? = some r)
    (service : Service) (r' : Replacement) (n : Nat) :
    told { s with service := service, replacements := s.replacements.set number r' } n =
      if number = n then r'.generation? else s.told n := by
  simp only [told, getElem?_set_of h]
  split <;> rfl

theorem wanted_set {s : Server} {number : Nat} {r : Replacement} (h : s.replacements[number]? = some r)
    (service : Service) (r' : Replacement) (hsame : r'.catalog = r.catalog) (n : Nat) :
    wanted { s with service := service, replacements := s.replacements.set number r' } n = s.wanted n := by
  simp only [wanted, getElem?_set_of h]
  split
  · next hn => rw [← hn, h, Option.map_some, Option.map_some, hsame]
  · rfl

/-- The order tells what was told and what is served. -/
structure Ordered (s : Server) (o : Order) : Prop where
  counted : ∀ n g, s.told n = some g ↔ ∃ i, g = i + 1 ∧ o.counts[i]? = some n
  generation : s.service.generation = o.counts.length
  installed : ∀ (n : Nat) (r : Replacement), s.replacements[n]? = some r → r.isInstalled = true → n ∈ o.installs
  served : ∀ n, o.installs.getLast? = some n → s.wanted n = some s.service.catalog

theorem Ordered.notMem_counts {s : Server} {o : Order} (hs : s.Ordered o) {number : Nat} {c : Catalog}
    (h : s.replacements[number]? = some (.installed c)) : number ∉ o.counts := by
  intro hmem
  obtain ⟨i, hi⟩ := List.getElem?_of_mem hmem
  have htold := (hs.counted number (i + 1)).2 ⟨i, rfl, hi⟩
  rw [told, h] at htold
  cases htold

theorem Turn.ordered {s t : Server} {o o' : Order} (h : Turn s o t o') (hs : s.Ordered o) : t.Ordered o' := by
  cases h with
  | other t hsame hcatalog hgeneration =>
    exact ⟨by simpa only [told, hsame] using hs.counted, hgeneration.trans hs.generation,
      by simpa only [hsame] using hs.installed, by simpa only [wanted, hsame, hcatalog] using hs.served⟩
  | ask c =>
    refine ⟨fun n g => ?_, hs.generation, fun n r hr hinstalled => ?_, fun n hn => ?_⟩
    · rw [← hs.counted, told, told]
      rcases Nat.lt_trichotomy n s.replacements.length with hn | rfl | hn
      · rw [List.getElem?_append_left hn]
      · simp [Replacement.generation?]
      · rw [List.getElem?_eq_none (by simpa using Nat.succ_le_of_lt hn), List.getElem?_eq_none (Nat.le_of_lt hn)]
    · rw [List.getElem?_append] at hr
      split at hr
      · exact hs.installed n r hr hinstalled
      · cases List.mem_singleton.1 (List.mem_of_getElem? hr)
        cases hinstalled
    · have hwanted := hs.served n hn
      obtain ⟨r, hr, hcatalog⟩ := Option.map_eq_some_iff.1 hwanted
      rw [wanted, List.getElem?_append_left (List.getElem?_eq_some_iff.1 hr).1, hr, ← hcatalog]
      rfl
  | install number c h =>
    refine ⟨fun n g => ?_, hs.generation, fun n r hr hinstalled => ?_, fun n hn => ?_⟩
    · rw [told_set h, ← hs.counted]
      split
      · next hn =>
        rw [← hn, told, h]
        rfl
      · rfl
    · rw [getElem?_set_of h] at hr
      split at hr
      · next hn => exact List.mem_append_right _ (List.mem_singleton.2 hn.symm)
      · exact List.mem_append_left _ (hs.installed n r hr hinstalled)
    · rw [List.getLast?_concat, Option.some_inj] at hn
      rw [wanted_set h (s.service.install c) (.installed c) rfl, ← hn, wanted, h]
      rfl
  | count number c h =>
    refine ⟨fun n g => ?_, ?_, fun n r hr hinstalled => ?_, fun n hn => ?_⟩
    · rw [told_set h]
      split
      · next hn =>
        subst hn
        constructor
        · intro hg
          refine ⟨o.counts.length, ?_, List.getElem?_concat_length ..⟩
          rw [← hs.generation]
          exact (Option.some_inj.1 hg).symm
        · rintro ⟨i, rfl, hi⟩
          rw [List.getElem?_append] at hi
          split at hi
          · exact absurd (List.mem_of_getElem? hi) (hs.notMem_counts h)
          · next hlt =>
            have hi' := (List.getElem?_eq_some_iff.1 hi).1
            rw [List.length_singleton] at hi'
            rw [Replacement.generation?, hs.generation]
            exact congrArg some (by omega)
      · next hn =>
        rw [hs.counted]
        refine exists_congr fun i => and_congr_right fun _ => ?_
        rw [List.getElem?_append]
        split
        · rfl
        · next hlt =>
          rw [List.getElem?_eq_none (Nat.not_lt.1 hlt)]
          simp [List.getElem?_singleton, hn]
    · rw [List.length_append, ← hs.generation]
      rfl
    · rw [getElem?_set_of h] at hr
      split at hr
      · next hn => exact hs.installed n (.installed c) (hn ▸ h) rfl
      · exact hs.installed n r hr hinstalled
    · rw [wanted_set h s.service.count (.counted c _) rfl]
      exact hs.served n hn

/-- While at most one replacement is under way, each is counted before the next one is installed. -/
def Paired (s : Server) (o : Order) : Prop :=
  (o.installs = o.counts ∧ ∀ (n : Nat) (c : Catalog), s.replacements[n]? ≠ some (.installed c)) ∨
    ∃ (number : Nat) (c : Catalog), o.installs = o.counts ++ [number] ∧
      s.replacements[number]? = some (.installed c)

section
variable {s : Server} (hpast : ∀ r ∈ s.replacements.dropLast, r.isCounted = true)
include hpast

/-- Only the last replacement may be under way. -/
theorem eq_last_of_past {i : Nat} {r : Replacement} (hr : s.replacements[i]? = some r)
    (hcounted : r.isCounted = false) : i + 1 = s.replacements.length := by
  by_contra hi
  have hlt := (List.getElem?_eq_some_iff.1 hr).1
  have hmem : s.replacements.dropLast[i]? = some r := by
    rw [List.getElem?_dropLast, if_pos (by omega), hr]
  rw [hpast r (List.mem_of_getElem? hmem)] at hcounted
  cases hcounted

theorem eq_of_past {i j : Nat} {r r' : Replacement} (hr : s.replacements[i]? = some r)
    (hr' : s.replacements[j]? = some r') (hcounted : r.isCounted = false) (hcounted' : r'.isCounted = false) :
    i = j :=
  Nat.succ_injective ((eq_last_of_past hpast hr hcounted).trans (eq_last_of_past hpast hr' hcounted').symm)

theorem Turn.paired {t : Server} {o o' : Order} (h : Turn s o t o') (hs : s.Paired o) : t.Paired o' := by
  cases h with
  | other t hsame => rwa [Paired, hsame]
  | ask c =>
    rcases hs with ⟨hsame, hnone⟩ | ⟨number, d, hone, hd⟩
    · refine .inl ⟨hsame, fun n d hd => ?_⟩
      rw [List.getElem?_append] at hd
      split at hd
      · exact hnone n d hd
      · cases List.mem_singleton.1 (List.mem_of_getElem? hd)
    · refine .inr ⟨number, d, hone, ?_⟩
      rw [List.getElem?_append_left (List.getElem?_eq_some_iff.1 hd).1, hd]
  | install number c h =>
    rcases hs with ⟨hsame, -⟩ | ⟨other, d, -, hd⟩
    · refine .inr ⟨number, c, congrArg (· ++ [number]) hsame, ?_⟩
      rw [getElem?_set_of h, if_pos rfl]
    · obtain rfl := eq_of_past hpast h hd rfl rfl
      rw [h] at hd
      cases hd
  | count number c h =>
    rcases hs with ⟨-, hnone⟩ | ⟨other, d, hone, hd⟩
    · exact absurd h (hnone number c)
    · obtain rfl := eq_of_past hpast h hd rfl rfl
      refine .inl ⟨hone, fun n e he => ?_⟩
      rw [getElem?_set_of h] at he
      split at he
      · cases he
      · next hn => exact hn (eq_of_past hpast h he rfl rfl)

end

/-! ## Runs -/

theorem ordered_from {s : Server} {o : Order} (hs : s.Ordered o) (moves : List ServerMove) :
    (s.run moves).Ordered (orderFrom s o moves) := by
  induction moves generalizing s o with
  | nil => exact hs
  | cons m moves ih => exact ih ((step_turn s o m).ordered hs)

theorem paired_from {c : Catalog} {s : Server} {o : Order} {moves : List ServerMove} (hcurrent : s.Current c)
    (hmoves : s.Sequential moves) (hs : s.Paired o) : (s.run moves).Paired (orderFrom s o moves) := by
  induction moves generalizing s o with
  | nil => exact hs
  | cons m moves ih =>
    exact ih (step_current hcurrent hmoves.1) hmoves.2 ((step_turn s o m).paired hcurrent.past hs)

section
variable {c : Catalog} {max : Nat} {moves : List ServerMove}

theorem ordered_run : ((serving c max).run moves).Ordered (order (serving c max) moves) :=
  ordered_from ⟨by simp [told, serving], rfl, by simp [serving], by simp⟩ moves

theorem installs_eq_counts (hmoves : (serving c max).Sequential moves) (h : ((serving c max).run moves).Still) :
    (order (serving c max) moves).installs = (order (serving c max) moves).counts := by
  have hstart : (serving c max).Current c := ⟨nofun, rfl⟩
  have hpaired : (serving c max).Paired {} := .inl ⟨rfl, by simp [serving]⟩
  rcases paired_from hstart hmoves hpaired with ⟨hsame, -⟩ | ⟨number, d, -, hd⟩
  · exact hsame
  · cases h _ (List.mem_of_getElem? hd)

end

/-- How things stand when the replacement `newest` was counted last and `last` was installed last. -/
structure Settled (s : Server) (o : Order) (newest last : Nat) : Prop where
  counted : o.counts.getLast? = some newest
  installed : o.installs.getLast? = some last
  told : s.told newest = some s.service.generation
  served : s.wanted last = some s.service.catalog

theorem Ordered.told_injective {s : Server} {o : Order} (h : s.Ordered o) {m n g : Nat} (hm : s.told m = some g)
    (hn : s.told n = some g) : m = n := by
  obtain ⟨i, rfl, hi⟩ := (h.counted m g).1 hm
  obtain ⟨j, hj, hj'⟩ := (h.counted n _).1 hn
  rw [Nat.succ_injective hj] at hi
  exact Option.some_inj.1 (hi.symm.trans hj')

theorem Ordered.told_le {s : Server} {o : Order} (h : s.Ordered o) {n g : Nat} (hn : s.told n = some g) :
    g ≤ s.service.generation := by
  obtain ⟨i, rfl, hi⟩ := (h.counted n g).1 hn
  rw [h.generation]
  exact (List.getElem?_eq_some_iff.1 hi).1

theorem Ordered.settled {s : Server} {o : Order} (h : s.Ordered o) (hstill : s.Still) (hne : s.replacements ≠ []) :
    ∃ newest last, s.Settled o newest last := by
  obtain ⟨r, after, hparts⟩ := List.exists_cons_of_ne_nil hne
  have hcounted : r.isCounted = true := hstill r (hparts ▸ List.mem_cons_self)
  have hfirst : s.replacements[0]? = some r := by rw [hparts, List.getElem?_cons_zero]
  have hinstalls : o.installs ≠ [] :=
    List.ne_nil_of_mem (h.installed 0 r hfirst (Replacement.isInstalled_of_isCounted hcounted))
  have hcounts : o.counts ≠ [] := by
    obtain ⟨g, hg⟩ := Option.isSome_iff_exists.1 (Replacement.generation?_isSome hcounted)
    obtain ⟨i, -, hi⟩ := (h.counted 0 g).1 (by rw [told, hfirst, Option.bind_some, hg])
    exact List.ne_nil_of_mem (List.mem_of_getElem? hi)
  have hnewest : o.counts[o.counts.length - 1]? = some (o.counts.getLast hcounts) := by
    rw [← List.getLast?_eq_getElem?, List.getLast?_eq_some_getLast]
  have hlength := List.length_pos_of_ne_nil hcounts
  exact ⟨o.counts.getLast hcounts, o.installs.getLast hinstalls, List.getLast?_eq_some_getLast _,
    List.getLast?_eq_some_getLast _, (h.counted _ _).2 ⟨_, by rw [h.generation]; omega, hnewest⟩,
    h.served _ (List.getLast?_eq_some_getLast _)⟩

/-- The replacements are told different numbers. When all are done, the greatest number is the generation, and
what is served is what the one with this number wanted just if the one that was installed last wanted the
same. These two are the same one if each was asked for when all before it were done. -/
theorem newest_served_iff (c : Catalog) (max : Nat) (moves : List ServerMove) :
    let s := (serving c max).run moves
    (∀ m n g, s.told m = some g → s.told n = some g → m = n) ∧
    (s.Still → s.replacements ≠ [] →
      (∀ n < s.replacements.length, ∃ g, s.told n = some g ∧ g ≤ s.service.generation) ∧
      ∃ newest last, s.Settled (order (serving c max) moves) newest last ∧
        (s.wanted newest = some s.service.catalog ↔ s.wanted newest = s.wanted last) ∧
        ((serving c max).Sequential moves → newest = last)) := by
  intro s
  have hordered : s.Ordered (order (serving c max) moves) := ordered_run
  refine ⟨fun m n g => hordered.told_injective, fun hstill hne => ?_⟩
  obtain ⟨newest, last, hsettled⟩ := hordered.settled hstill hne
  refine ⟨fun n hn => ?_, newest, last, hsettled, by rw [hsettled.served], fun hmoves => ?_⟩
  · have hr : s.replacements[n]? = some s.replacements[n] := List.getElem?_eq_getElem hn
    obtain ⟨g, hg⟩ := Option.isSome_iff_exists.1 (Replacement.generation?_isSome (hstill _ (List.getElem_mem hn)))
    have htold : s.told n = some g := by rw [told, hr, Option.bind_some, hg]
    exact ⟨g, htold, hordered.told_le htold⟩
  · have hcounted := hsettled.counted
    rw [← installs_eq_counts hmoves hstill, hsettled.installed] at hcounted
    exact (Option.some_inj.1 hcounted).symm

/-- The first of two replacements installs its catalog first and is counted last. -/
def overtaken : List ServerMove :=
  [.ask (.build [default]), .ask (.build []), .replace 0, .replace 1, .replace 1, .replace 0]

theorem still_overtaken : ((serving (.build []) 100).run overtaken).Still := by
  intro r hr
  rcases List.mem_cons.1 hr with rfl | hr
  · rfl
  · rw [List.mem_singleton.1 hr]
    rfl

theorem newest_served_iff_overtaken :
    let s := (serving (.build []) 100).run overtaken
    s.Still ∧ s.replacements ≠ [] ∧ s.told 0 = some 2 ∧ s.told 1 = some 1 ∧
      ∃ newest last, s.Settled (order (serving (.build []) 100) overtaken) newest last ∧
        (s.wanted newest = some s.service.catalog ↔ s.wanted newest = s.wanted last) := by
  intro s
  have hne : s.replacements ≠ [] := nofun
  obtain ⟨-, newest, last, hsettled, hiff, -⟩ := (newest_served_iff (.build []) 100 overtaken).2 still_overtaken hne
  exact ⟨still_overtaken, hne, rfl, rfl, newest, last, hsettled, hiff⟩

/-- The one that was told the generation wanted another catalog than the one that is served. -/
theorem older_served :
    let s := (serving (.build []) 100).run overtaken
    s.Still ∧ s.told 0 = some s.service.generation ∧ (∀ g, s.told 1 = some g → g < s.service.generation) ∧
      s.wanted 0 ≠ some s.service.catalog ∧ s.wanted 1 = some s.service.catalog := by
  intro s
  have hsize : (Catalog.build [default]).size ≠ (Catalog.build []).size := by decide +kernel
  refine ⟨still_overtaken, rfl, fun g hg => ?_, fun h => hsize (congrArg Catalog.size (Option.some_inj.1 h)), rfl⟩
  cases hg
  exact Nat.lt_succ_self 1

end Server

end FontCatalog
