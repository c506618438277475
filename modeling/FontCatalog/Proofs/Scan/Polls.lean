import FontCatalog.Proofs.Binary64
import FontCatalog.Proofs.Scan.Limits

/-! Looking at a scan while it goes on. The parts of a progress are read one after another, and any turns may be
taken in between. The total is read before the count, so the count that is seen is never above it, whatever phases
come and go meanwhile. -/
namespace FontCatalog
set_option autoImplicit false

namespace Scan

variable {x : Extractor} {s : Scan}

theorem bounded_make (x : Extractor) (tree : FileTree) (options : ScanOptions) {input : ScanInput}
    (digest : Copies.Digest) (h : input.finder.Counted) :
    ((make tree options input).comparingBy digest).Bounded x :=
  ⟨h, List.forall_mem_nil _, nofun⟩

theorem bounded_played {files opened : List Path} (hkept : s.Kept x files opened) (h : s.Bounded x)
    (turns : List ScanTurn) :
    (∀ t, s.Within x t → (s.played x turns).Within x t) ∧ (s.played x turns).Bounded x := by
  induction turns generalizing s files opened with
  | nil => exact ⟨fun _ => id, h⟩
  | cons turn turns ih =>
    obtain ⟨hwithin, hbounded⟩ := bounded_act hkept h turn
    obtain ⟨hrest, hend⟩ := ih (kept_act hkept turn) hbounded
    exact ⟨fun t ht => hrest t (hwithin t ht), hend⟩

/-- The scan and the progress that is seen when these turns are taken before each part of it is read. -/
def poll (x : Extractor) (s : Scan) (gaps : ProgressField → List ScanTurn) : Scan × ScanProgress :=
  ProgressField.all.foldl
    (fun (s, p) field => (s.played x (gaps field), field.load (s.played x (gaps field)).state p)) (s, {})

/-- A total that is seen is not exceeded by the count that is seen. -/
theorem poll_claimed_le {files opened : List Path} (hkept : s.Kept x files opened) (h : s.Bounded x)
    (gaps : ProgressField → List ScanTurn) {t : ℕ} (ht : (s.poll x gaps).2.total = some t) :
    (s.poll x gaps).2.claimed ≤ t := by
  obtain ⟨-, hbounded⟩ := bounded_played hkept h (gaps .total)
  have hwithin := (hbounded.sound.within ht)
  have hlater :=
    (bounded_played (kept_played hkept (gaps .total)) hbounded (gaps .phase ++ gaps .claimed)).1 t hwithin
  rw [played_append] at hlater
  exact hlater.claimed_le

end Scan

/-- The ratio of a progress without an excess is the quotient of its counts, which is at most one by itself. -/
theorem ScanProgress.ratio_eq_div {p : ScanProgress} {t : ℕ} (ht : p.total = some t) (hpos : 0 < t)
    (hfits : t < 2 ^ 64) (hle : p.claimed ≤ t) :
    ∃ r, Binary64.div (.ofNat p.claimed) (.ofNat t) = some r ∧ r.le one = true ∧ p.ratio = some r := by
  obtain ⟨r, hdiv, hone⟩ := Binary64.div_le_one (Binary64.ofNat_mono hle hfits) (Binary64.ofNat_pos hpos hfits)
  obtain ⟨n, rfl⟩ := Nat.exists_eq_succ_of_ne_zero hpos.ne'
  refine ⟨r, hdiv, hone, ?_⟩
  have hone' : r.le one = true := hone
  simp only [ratio, ht, hdiv, hone', if_true]

namespace Scan

/-- Whatever has been taken from the finder before, and whatever turns are taken before and within a poll. -/
theorem poll_within_total (x : Extractor) (tree : FileTree) (options : ScanOptions) (input : ScanInput)
    (digest : Copies.Digest) {f : Finder} (hfresh : f.Fresh) (calls : List Finder.Turn)
    (hinput : input.finder = f.after calls) (turns : List ScanTurn) (gaps : ProgressField → List ScanTurn) {t : ℕ} :
    let p := ((((make tree options input).comparingBy digest).played x turns).poll x gaps).2
    p.total = some t → p.claimed ≤ t ∧
      (0 < t → t < 2 ^ 64 →
        ∃ r, Binary64.div (.ofNat p.claimed) (.ofNat t) = some r ∧ r.le ScanProgress.one = true ∧
          p.ratio = some r) := by
  intro p ht
  have hcounted : input.finder.Counted := by
    rw [hinput]
    exact hfresh.counted.after calls
  have hkept := kept_make x tree options input digest
  obtain ⟨-, hbounded⟩ := bounded_played hkept (bounded_make x tree options digest hcounted) turns
  have hle : p.claimed ≤ t := poll_claimed_le (kept_played hkept turns) hbounded gaps ht
  exact ⟨hle, fun hpos hfits => ScanProgress.ratio_eq_div ht hpos hfits hle⟩

/-- Two paths, of which the first one has been taken. -/
def secondPath : Finder := (Finder.ofPaths [⟨[0x61]⟩, ⟨[0x62]⟩]).after [⟨0, .claim⟩]

/-- A worker claims the other path, and counts it, after the total has been read. -/
theorem poll_within_total_between :
    let x : Extractor := fun p => .error (.io p "no font")
    let scan := ((make {} ⟨1, false, false⟩ (.given secondPath)).comparingBy id).played x
      (List.replicate 7 (.part .lead))
    let p := (scan.poll x fun field => if field = .claimed then List.replicate 5 (.part (.worker 0)) else []).2
    (Finder.ofPaths [⟨[0x61]⟩, ⟨[0x62]⟩]).Fresh ∧ (p.total = some 2 ∧ p.claimed = 1) ∧ (0 < 2 ∧ 2 < 2 ^ 64) ∧
      p.claimed ≤ 2 ∧
      ∃ r, Binary64.div (.ofNat p.claimed) (.ofNat 2) = some r ∧ r.le ScanProgress.one = true ∧
        p.ratio = some r := by
  intro x scan p
  have hfresh := Finder.fresh_ofPaths [⟨[0x61]⟩, ⟨[0x62]⟩]
  have hseen : p.total = some 2 ∧ p.claimed = 1 := by decide +kernel
  obtain ⟨hle, hratio⟩ := poll_within_total x {} ⟨1, false, false⟩ (.given secondPath) id hfresh [⟨0, .claim⟩] rfl
    (List.replicate 7 (.part .lead))
    (fun field => if field = .claimed then List.replicate 5 (.part (.worker 0)) else []) hseen.1
  exact ⟨hfresh, hseen, by decide, hle, hratio (by decide) (by decide)⟩

end Scan

end FontCatalog
