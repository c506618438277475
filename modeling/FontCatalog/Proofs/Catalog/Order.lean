import FontCatalog.Catalog

/-! The order of a catalog: its faces ascend strictly by identity, and faces that ascend so already are
left as they are. -/
namespace FontCatalog
set_option autoImplicit false

/-! ## Comparing identities -/

instance : Std.TransOrd FaceId :=
  inferInstanceAs (Std.TransCmp (compareLex (compareOn fun i : FaceId => i.path.key)
    (compareOn fun i : FaceId => i.index)))

theorem FaceId.isLE_total (a b : FaceId) :
    ((compare a b).isLE || (compare b a).isLE) = true := by
  by_cases h : (compare a b).isLE = true
  · rw [h, Bool.true_or]
  · rw [Std.OrientedCmp.lt_of_not_isLE h]
    exact Bool.or_true _

theorem FaceId.same_iff (a b : FaceId) : a.same b = true ↔ compare a b = .eq := by
  unfold same
  exact Ordering.isEq_iff_eq_eq

theorem FaceId.same_congr {a b : FaceId} (h : a.same b = true) (c : FaceId) : a.same c = b.same c := by
  rw [same_iff] at h
  rw [same, same, Std.TransCmp.congr_left h]

theorem FaceId.same_refl (a : FaceId) : a.same a = true := by
  rw [same_iff]
  exact Std.ReflCmp.compare_self

theorem FaceId.same_symm {a b : FaceId} (h : a.same b = true) : b.same a = true := by
  rw [same_iff] at h ⊢
  exact Std.OrientedCmp.eq_symm h

namespace Catalog

/-- Faces in strictly ascending order of their identities. -/
def Ascending (faces : List Face) : Prop := faces.Pairwise fun f g => compare f.id g.id = .lt

/-! ## Leaving out repetitions -/

theorem dropRepeats_sublist (last : Face) (faces : List Face) :
    (dropRepeats last faces).Sublist faces := by
  induction faces generalizing last with
  | nil => exact .refl []
  | cons f faces ih =>
    unfold dropRepeats
    split
    · exact (ih last).cons f
    · exact (ih f).cons_cons f

theorem dropRepeats_ascending (last : Face) (faces : List Face)
    (hlast : ∀ f ∈ faces, (compare last.id f.id).isLE = true)
    (h : faces.Pairwise fun f g => (compare f.id g.id).isLE = true) :
    Ascending (last :: dropRepeats last faces) := by
  unfold Ascending
  induction faces generalizing last with
  | nil => exact List.pairwise_singleton ..
  | cons f faces ih =>
    rw [List.pairwise_cons] at h
    unfold dropRepeats
    split
    · exact ih last (fun g hg => hlast g (List.mem_cons_of_mem f hg)) h.2
    · next hne =>
      have hlt : compare last.id f.id = .lt := by
        have hle := hlast f List.mem_cons_self
        rw [FaceId.same_iff] at hne
        cases hc : compare last.id f.id <;> simp_all
      have hrest := ih f h.1 h.2
      refine List.pairwise_cons.mpr ⟨?_, hrest⟩
      intro g hg
      rcases List.mem_cons.mp hg with rfl | hg
      · exact hlt
      · exact Std.TransCmp.lt_of_lt_of_isLE hlt (h.1 g ((dropRepeats_sublist f faces).mem hg))

theorem dropRepeats_of_ascending (last : Face) (faces : List Face)
    (h : Ascending (last :: faces)) : dropRepeats last faces = faces := by
  unfold Ascending at h
  induction faces generalizing last with
  | nil => rfl
  | cons f faces ih =>
    obtain ⟨hlast, hrest⟩ := List.pairwise_cons.mp h
    have hne : ¬ last.id.same f.id = true := by
      rw [FaceId.same_iff, hlast f List.mem_cons_self]
      decide
    rw [dropRepeats, if_neg hne, ih f hrest]

/-- Among repetitions the first stays. -/
theorem find?_dropRepeats (i : FaceId) (last : Face) (faces : List Face) :
    (last :: dropRepeats last faces).find? (·.id.same i) = (last :: faces).find? (·.id.same i) := by
  induction faces generalizing last with
  | nil => rfl
  | cons f faces ih =>
    rw [dropRepeats]
    by_cases hlast : last.id.same i = true
    · simp [hlast]
    · have hrest : (last :: faces).find? (·.id.same i) = faces.find? (·.id.same i) := by simp [hlast]
      split
      · next hrepeat =>
        have hf : ¬ f.id.same i = true := by rwa [← FaceId.same_congr hrepeat]
        rw [ih, hrest]
        simp [hlast, hf]
      · have hf := ih f
        simp only [List.find?_cons, hlast] at hf ⊢
        exact hf

/-! ## Arranging -/

/-- Faces of one identity stand in the same order after sorting. -/
theorem filter_same_mergeSort (i : FaceId) (faces : List Face) :
    (faces.mergeSort fun f g => (compare f.id g.id).isLE).filter (·.id.same i) =
      faces.filter (·.id.same i) := by
  have hequal : (faces.filter (·.id.same i)).Pairwise
      fun f g => (compare f.id g.id).isLE = true := by
    refine List.pairwise_of_forall_mem_list fun f hf g hg => ?_
    have hfi : f.id.same i = true := (List.mem_filter.1 hf).2
    have hgi : g.id.same i = true := (List.mem_filter.1 hg).2
    have hfg : f.id.same g.id = true := by
      rw [FaceId.same_congr hfi]
      exact FaceId.same_symm hgi
    rw [FaceId.same_iff] at hfg
    rw [hfg]
    rfl
  have hsub := List.sublist_mergeSort (fun f g h => Std.TransCmp.isLE_trans)
    (fun f g => FaceId.isLE_total f.id g.id) hequal List.filter_sublist
  have hkept := hsub.filter (·.id.same i)
  rw [List.filter_filter] at hkept
  simp only [Bool.and_self] at hkept
  have hperm := (List.mergeSort_perm faces fun f g => (compare f.id g.id).isLE).filter (·.id.same i)
  exact (hkept.eq_of_length hperm.length_eq.symm).symm

/-- Of the faces with one identity the first is kept. -/
theorem find?_arrange (i : FaceId) (faces : List Face) :
    (arrange faces).find? (·.id.same i) = faces.find? (·.id.same i) := by
  rw [← List.head?_filter (l := faces), ← filter_same_mergeSort, List.head?_filter]
  unfold arrange
  cases faces.mergeSort fun f g => (compare f.id g.id).isLE with
  | nil => rfl
  | cons f rest => exact find?_dropRepeats i f rest

/-- No identity is lost. -/
theorem exists_mem_arrange {f : Face} {faces : List Face} (h : f ∈ faces) :
    ∃ g ∈ arrange faces, g.id.same f.id = true := by
  have hfound : (faces.find? (·.id.same f.id)).isSome = true := by
    rw [List.find?_isSome]
    exact ⟨f, h, f.id.same_refl⟩
  rw [← find?_arrange, List.find?_isSome] at hfound
  exact hfound

theorem arrange_ascending (faces : List Face) : Ascending (arrange faces) := by
  unfold arrange
  have hsorted : (faces.mergeSort fun f g => (compare f.id g.id).isLE).Pairwise
      fun f g => (compare f.id g.id).isLE = true :=
    List.pairwise_mergeSort (fun f g h => Std.TransCmp.isLE_trans)
      (fun f g => FaceId.isLE_total f.id g.id) faces
  cases hs : faces.mergeSort fun f g => (compare f.id g.id).isLE with
  | nil => exact List.Pairwise.nil
  | cons f rest =>
    rw [hs, List.pairwise_cons] at hsorted
    exact dropRepeats_ascending f rest hsorted.1 hsorted.2

theorem arrange_of_ascending (faces : List Face) (h : Ascending faces) : arrange faces = faces := by
  have hsorted : faces.Pairwise fun f g => (compare f.id g.id).isLE = true :=
    h.imp fun hlt => by rw [hlt]; rfl
  unfold arrange
  rw [List.mergeSort_of_pairwise hsorted]
  cases faces with
  | nil => rfl
  | cons f rest => exact congrArg (f :: ·) (dropRepeats_of_ascending f rest h)

theorem mem_of_mem_arrange {f : Face} {faces : List Face} (h : f ∈ arrange faces) : f ∈ faces := by
  have hperm := List.mergeSort_perm faces fun f g => (compare f.id g.id).isLE
  unfold arrange at h
  cases hs : faces.mergeSort fun f g => (compare f.id g.id).isLE with
  | nil =>
    rw [hs] at h
    cases h
  | cons g rest =>
    rw [hs] at h hperm
    refine hperm.mem_iff.1 ?_
    rcases List.mem_cons.1 h with rfl | h
    · exact List.mem_cons_self
    · exact List.mem_cons_of_mem _ ((dropRepeats_sublist g rest).mem h)

/-- A catalog keeps nothing but faces that it was made from. -/
theorem mem_of_mem_build {f : Face} {faces : List Face} (h : f ∈ (build faces).faces.toList) :
    f ∈ faces := mem_of_mem_arrange h

/-! ## One face of each identity -/

theorem Ascending.filter_same {faces : List Face} (h : Ascending faces) (i : FaceId) :
    faces.filter (·.id.same i) = (faces.find? (·.id.same i)).toList := by
  induction faces with
  | nil => rfl
  | cons f faces ih =>
    obtain ⟨hfirst, hrest⟩ := List.pairwise_cons.1 h
    by_cases hf : f.id.same i = true
    · have hnone : faces.filter (·.id.same i) = [] := by
        refine List.filter_eq_nil_iff.2 fun g hg hgi => ?_
        have hsame : f.id.same g.id = true := by
          rw [FaceId.same_congr hf]
          exact FaceId.same_symm hgi
        rw [FaceId.same_iff, hfirst g hg] at hsame
        cases hsame
      simp [hf, hnone]
    · simp [hf, ih hrest]

/-- Of the faces with one identity a catalog holds the first and no other. -/
theorem build_filter_same (faces : List Face) (i : FaceId) :
    (build faces).faces.toList.filter (·.id.same i) = (faces.find? (·.id.same i)).toList := by
  rw [← find?_arrange]
  exact (arrange_ascending faces).filter_same i

/-- A catalog is rebuilt from its own faces. -/
theorem build_faces (faces : List Face) : build (build faces).faces.toList = build faces := by
  show ofArranged (arrange (arrange faces)) = ofArranged (arrange faces)
  rw [arrange_of_ascending _ (arrange_ascending faces)]

end Catalog

end FontCatalog
