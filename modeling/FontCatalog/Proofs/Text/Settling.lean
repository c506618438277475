import FontCatalog.Proofs.Text.Casing

/-! Texts that stay as they are. No run of the case table leads to a character that another run moves on,
so the lower case of a character is its own lower case. A text of such characters is the same in lower case:
it has no capital sigma, and only the capital sigma looks at what stands around it. In the same way a text
of words with single spaces is what it collapses to. -/
namespace FontCatalog.Text
set_option autoImplicit false

/-! ## One character -/

/-- Whether a character is its own lower case. -/
def Settled (c : Char) : Prop := lowerChar c = [c]

instance (c : Char) : Decidable (Settled c) := inferInstanceAs (Decidable (lowerChar c = [c]))

/-- The runs of all characters that are not their own lower case, the dotted capital I first. -/
def movedRuns : List CaseRun := ⟨0x130, 0x130, 1, 0⟩ :: lowerRuns

namespace CaseRun

/-- Whether a run leads past all that `s` covers: to one side of it, or between its code points where these
are every other one. -/
def avoids (r s : CaseRun) : Bool :=
  Nat.blt (r.target r.last) s.first || Nat.blt s.last (r.target r.first) ||
    Nat.beq s.step 2 && (Nat.beq r.step 2 || Nat.beq r.first r.last) && Nat.blt 0 (r.target r.first) &&
      Nat.beq ((r.target r.first + s.first) % 2) 1

theorem not_covers_target {r s : CaseRun} (h : r.avoids s = true) {n : Nat} (hn : r.covers n = true) :
    s.covers (r.target n) = false := by
  obtain ⟨hfirst, hlast, hstep⟩ := covers_iff.1 hn
  have hfrom := r.target_mono hfirst
  have hto := r.target_mono hlast
  rw [Bool.eq_false_iff]
  intro hcovers
  obtain ⟨hsfirst, hslast, hsstep⟩ := covers_iff.1 hcovers
  simp only [avoids, Bool.or_eq_true, Bool.and_eq_true, Nat.blt_eq, Nat.beq_eq] at h
  rcases h with (hbelow | habove) | ⟨⟨⟨hs, hr⟩, hpos⟩, hparity⟩
  · omega
  · omega
  -- Both go in steps of two, from code points of different parity.
  · have heven : (n - r.first) % 2 = 0 := by
      rcases hr with hr | hr
      · rwa [hr] at hstep
      · omega
    rw [hs] at hsstep
    unfold target at *
    omega

end CaseRun

theorem lowerRuns_avoid : (lowerRuns.all fun r => movedRuns.all r.avoids) = true := by decide +kernel

theorem settled_of_not_covers {c : Char} (h : ∀ s ∈ movedRuns, s.covers c.toNat = false) : Settled c := by
  rw [movedRuns, List.forall_mem_cons] at h
  have hdotted : c ≠ '\u0130' := by
    rintro rfl
    exact absurd h.1 (by decide)
  rw [Settled, lowerChar, if_neg hdotted]
  cases hrun : findRun c.toNat lowerRuns with
  | none => rfl
  | some s =>
    obtain ⟨hmem, hcovers⟩ := mem_of_findRun hrun
    rw [h.2 s hmem] at hcovers
    cases hcovers

theorem settled_of_mem_lowerChar {c d : Char} (h : d ∈ lowerChar c) : Settled d := by
  unfold lowerChar at h
  split at h
  · have hi : Settled 'i' := by decide
    have hdot : Settled '\u0307' := by decide
    exact List.forall_mem_cons.2 ⟨hi, List.forall_mem_singleton.2 hdot⟩ d h
  · next hdotted =>
    split at h
    · next r hrun =>
      obtain ⟨hmem, hcovers⟩ := mem_of_findRun hrun
      have hd : d = Char.ofNat (r.target c.toNat) := List.mem_singleton.1 h
      apply settled_of_not_covers
      intro s hs
      rw [hd, toNat_target hmem hcovers]
      exact CaseRun.not_covers_target (List.all_eq_true.1 (List.all_eq_true.1 lowerRuns_avoid r hmem) s hs) hcovers
    · next hrun =>
      rw [List.mem_singleton.1 h, Settled, lowerChar, if_neg hdotted, hrun]

/-! ## A text -/

theorem settled_of_mem_lowerBetween {before after : List Char} {c d : Char}
    (h : d ∈ lowerBetween before c after) : Settled d := by
  have hsmall : Settled 'σ' := by decide
  have hfinal : Settled 'ς' := by decide
  unfold lowerBetween at h
  split at h
  · split at h
    · rwa [List.mem_singleton.1 h]
    · rwa [List.mem_singleton.1 h]
  · exact settled_of_mem_lowerChar h

theorem settled_of_mem_lowerAfter {before cs : List Char} {d : Char} (h : d ∈ lowerAfter before cs) :
    Settled d := by
  induction cs generalizing before with
  | nil => cases h
  | cons c cs ih =>
    rw [lowerAfter, List.mem_append] at h
    rcases h with h | h
    · exact settled_of_mem_lowerBetween h
    · exact ih h

theorem lowerBetween_of_settled {c : Char} (h : Settled c) (before after : List Char) :
    lowerBetween before c after = [c] := by
  have hsigma : c ≠ 'Σ' := by
    rintro rfl
    exact absurd h (by decide)
  rw [lowerBetween, if_neg hsigma, h]

theorem lowerAfter_of_settled {cs : List Char} (h : ∀ c ∈ cs, Settled c) (before : List Char) :
    lowerAfter before cs = cs := by
  induction cs generalizing before with
  | nil => rfl
  | cons c cs ih =>
    rw [List.forall_mem_cons] at h
    rw [lowerAfter, lowerBetween_of_settled h.1, ih h.2, List.singleton_append]

theorem lowercase_lowercase (s : String) : lowercase (lowercase s) = lowercase s := by
  have hsettled : ∀ c ∈ lowerAfter [] s.toList, Settled c := fun _ hc => settled_of_mem_lowerAfter hc
  rw [lowercase, lowercase, String.toList_ofList, lowerAfter_of_settled hsettled]

theorem flatMap_lowerChar_of_settled {cs : List Char} (h : ∀ c ∈ cs, Settled c) : cs.flatMap lowerChar = cs := by
  rw [List.flatMap_congr h, List.flatMap_singleton']

/-! ## Words -/

theorem not_blank_of_mem_words {cs w : List Char} (hw : w ∈ words cs) : ∀ c ∈ w, isBlank c = false := by
  have hword : ∀ v, (∀ c ∈ v, isBlank c = false) → ∀ w ∈ words v, ∀ c ∈ w, isBlank c = false := by
    intro v hv w hw
    rw [words_of_not_blank hv] at hw
    split at hw
    · cases hw
    · rwa [List.mem_singleton.1 hw]
  induction cs using words_induction with
  | word v hv => exact hword v hv w hw
  | part v b rest hv hb ih =>
    rw [words_append_blank hb, List.mem_append] at hw
    rcases hw with hw | hw
    · exact hword v hv w hw
    · exact ih hw

theorem words_intercalate {ws : List (List Char)} (hne : ∀ w ∈ ws, w ≠ [])
    (hblank : ∀ w ∈ ws, ∀ c ∈ w, isBlank c = false) : words ([' '].intercalate ws) = ws := by
  induction ws with
  | nil => rfl
  | cons w ws ih =>
    rw [List.forall_mem_cons] at hne hblank
    have hword : words w = [w] := by rw [words_of_not_blank hblank.1, if_neg hne.1]
    cases ws with
    | nil => rw [List.intercalate_singleton, hword]
    | cons v ws =>
      rw [List.intercalate_cons_cons, List.append_assoc, List.singleton_append, words_append_blank isBlank_space,
        hword, ih hne.2 hblank.2, List.singleton_append]

theorem collapse_collapse (cs : List Char) : collapse (collapse cs) = collapse cs := by
  have hwords : words (collapse cs) = words cs :=
    words_intercalate (words_ne_nil cs) fun _ hw => not_blank_of_mem_words hw
  rw [collapse, hwords, collapse]

end FontCatalog.Text
