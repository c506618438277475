import FontCatalog.Proofs.Json.Streaming

/-! Values that a shape reads from their own text, whatever its layout. A scalar is read as its tree is; the items of
a list and the members of a record are read one after the other, each by its own shape. -/
namespace FontCatalog.Json.Shape
set_option autoImplicit false

/-- Whether a shape reads a value from its text and leaves what follows; white space may stand in front. -/
def ReadsBack (s : Shape) (v : Json) : Prop :=
  ∀ (l : Layout) (k length : Nat) (ws rest : Bytes), Blank ws → (v.spell l k).length ≤ length → Ends rest →
    s.ofText length (ws ++ (v.spell l k ++ rest)) = .ok (v, rest)

/-- With white space at the end a text is still one value. -/
theorem ReadsBack.parse {s : Shape} {v : Json} (h : s.ReadsBack v) (l : Layout) (k : Nat) {ws : Bytes} (hws : Blank ws) :
    s.parse (v.spell l k ++ ws) = .ok v := by
  have hends : Ends ws := by
    cases ws with
    | nil => trivial
    | cons b ws => exact ends_of_space (hws b List.mem_cons_self) ws
  have hread := h l k (v.spell l k ++ ws).length [] ws (List.forall_mem_nil _) (by simp) hends
  rw [List.nil_append] at hread
  have hskip : skipSpace ws = [] := by
    have hnil := skipSpace_blank hws []
    rwa [List.append_nil] at hnil
  rw [Shape.parse, hread, finish, hskip]

theorem ReadsTrees.readsBack {s : Shape} (hs : s.ReadsTrees) {v : Json} {depth : Nat} (hv : v.Plain depth)
    (hof : s.ofTree .document v = .ok v) : s.ReadsBack v := by
  intro l k length ws rest hws hlength hrest
  refine (hs length depth _ v rest).2 ⟨v, ?_, hof⟩
  rw [readValue_blank hws, readValue_spell hv l k hlength hrest]

/-! ## Scalars -/

theorem string_readsBack (want s : String) : (string want).ReadsBack (.text s) :=
  (string_readsTrees want).readsBack (Plain.text s : Plain 0 _) rfl

theorem boolean_readsBack (b : Bool) : boolean.ReadsBack (.bool b) :=
  boolean_readsTrees.readsBack (Plain.bool b : Plain 0 _) rfl

theorem word_readsBack {bits n : Nat} {name : String} (hbits : bits ≤ 64) (hn : n < Nat.pow 2 bits) :
    (word bits name).ReadsBack (.nat n) := by
  have hmax : Nat.pow 2 bits ≤ Nat.pow 2 64 := Nat.pow_le_pow_right (by decide) hbits
  have hlt : n < 0x10000000000000000 := Nat.lt_of_lt_of_le hn hmax
  have hplain : (Json.nat n).Plain 0 := .integer (by omega) (by omega)
  exact (word_readsTrees bits name).readsBack hplain (word_ofTree hn .document)

/-! ## Lists -/

theorem readsBack_list {s : Shape} {items : List Json} {depth : Nat} (hplain : ∀ v ∈ items, v.Plain depth)
    (h : ∀ v ∈ items, s.ReadsBack v) : (list s).ReadsBack (.list items) := by
  intro l k length ws rest hws hlength _
  rw [spell_list] at hlength ⊢
  have hitems : readItems (s.ofText length) (length + 1) true [] (listBody l k items ++ rest) = .ok (items, rest) :=
    readItems_listBody l k (fun v hv => (hplain v hv).starts l (k + 1))
      (fun v hv hbound rest hrest => h v hv l (k + 1) length [] rest (List.forall_mem_nil _) hbound hrest)
      (Nat.le_of_succ_le hlength) rest
  dsimp only [list]
  rw [List.cons_append, skipSpace_blank hws, skipSpace_cons (by decide)]
  dsimp only
  rw [if_pos (by decide), hitems]

/-! ## Records -/

/-- One more member, unless there is one of that name. -/
def addNew (seen : List (String × Json)) (m : String × Json) : Option (List (String × Json)) :=
  if (lookup m.1 seen).isSome then none else some (m :: seen)

theorem foldlM_addNew {ms seen : List (String × Json)} (h : (names (ms.reverse ++ seen)).Nodup) :
    ms.foldlM addNew seen = some (ms.reverse ++ seen) := by
  induction ms generalizing seen with
  | nil => rfl
  | cons m ms ih =>
    rw [List.reverse_cons, List.append_assoc, List.singleton_append] at h ⊢
    have hnew : m.1 ∉ names seen := by
      have htail : (names (m :: seen)).Nodup := by
        rw [names, List.map_append] at h
        exact (List.nodup_append.1 h).2.1
      exact (List.nodup_cons.1 htail).1
    have hadd : addNew seen m = some (m :: seen) := by
      rw [addNew, lookup_eq_none hnew]
      rfl
    rw [List.foldlM_cons, hadd]
    exact ih h

/-- A record is read from an object with its members, none of them twice. -/
theorem readsBack_record {title : String} {fields : List Field} {ms : List (String × Json)} (hms : (names ms).Nodup)
    (hknown : ∀ m ∈ ms, ∃ f, findField m.1 fields = some f ∧ f.shape.ReadsBack m.2)
    (hcollect : collect ms fields = .ok ms) : (record title fields).ReadsBack (.object ms) := by
  intro l k length ws rest hws hlength _
  rw [spell_object] at hlength ⊢
  have hmember : ∀ m ∈ ms, (m.2.spell l (k + 1)).length ≤ length → ∀ s s' rest, addNew s m = some s' → Ends rest →
      readMember length fields s m.1 (spellValue l k m ++ rest) = .ok (s', rest) := by
    intro m hm hbound s s' rest hadd hrest
    obtain ⟨f, hfind, hback⟩ := hknown m hm
    rw [addNew] at hadd
    split at hadd <;> cases hadd
    next hnew =>
    rw [readMember, hfind]
    dsimp only
    rw [if_neg hnew, readColon_spellValue]
    dsimp only
    rw [hback l (k + 1) length l.gap rest l.gap_blank hbound hrest]
  have hrun : ms.foldlM addNew [] = some ms.reverse := by
    have hnodup : (names (ms.reverse ++ [])).Nodup := by
      rw [List.append_nil, names, List.map_reverse, List.nodup_reverse]
      exact hms
    have hfold := foldlM_addNew hnodup
    rwa [List.append_nil] at hfold
  have hcollected : collect ms.reverse fields = .ok ms := by
    rw [← hcollect]
    exact collect_congr fun f _ => (lookup_perm hms (List.reverse_perm ms).symm f.name).symm
  dsimp only [record]
  rw [List.cons_append, skipSpace_blank hws, skipSpace_cons (by decide)]
  dsimp only
  rw [if_pos (by decide), readMembers_objectBody l k (Nat.le_of_succ_le hlength) hmember hrun rest]
  dsimp only
  rw [hcollected]

end FontCatalog.Json.Shape
