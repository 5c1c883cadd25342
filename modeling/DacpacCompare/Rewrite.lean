import DacpacCompare.Frame

/-!
# Rewriting one side's `model.xml`

`compareModelXml_cosmetic` compares a well-formed model with its own cosmetic variants.  What a
user of the script relies on is more than that reflexivity: when one side's `model.xml` is
rewritten — its elements reordered, the children of an element reordered, the entries of a
relationship reordered, the disambiguators of annotations renumbered — the verdict against any
other package stays what it was.  That is a congruence, and it needs nothing of the other side:
`diff_element` reads its second element only through what `SameView` keeps of it
(`diffElement_congr_right`), and `compare_model_xml` reads the second model only through its
index, whose views a cosmetic run keeps (`IndexRel`).  The header is compared as it stands, so
the rewrite has to leave it alone; a header has its own rewrites, reorderings of its blocks and of
their metadata, and the last section shows `compare_header` blind to them.

What is here, bottom up:

* `diffElement_congr_right` and `diffElement_congr_left` — each phase of `diff_element` reads
  either element up to the order of its names and of its relationship entries;
* `SameReport`, and `compareModelXml_cosmetic_report` — the whole report of `compare_model_xml`
  against a well-formed model and against any cosmetic variant of it, on either side, says the
  same up to the order of keys; the loop over the common keys needs `collectDifferences_perm`;
* `DirsAgree.congr_model`, and from it the exit code (`mainExitCode_cosmetic`);
* `HeaderStep` and `HeaderOk`, the reorderings of a header and the condition under which its
  order is immaterial: a run keeps the index of the header up to `IndexEq` (`HeaderStep.run`),
  `compare_header` reads each index only up to `IndexEq` (`compareHeader_congr`), and so it
  returns the same status and lines after a run (`compareHeader_reorder`).
-/

set_option autoImplicit false

namespace DacpacCompare

/-! ## `diff_element` reads its second element through its view -/

theorem sortedKeys_perm {ks ks' : List (Option String)} (h : ks.Perm ks') :
    Py.sortedKeys ks = Py.sortedKeys ks' := by
  simp only [Py.sortedKeys, h.mem_iff, h.length_eq,
    Py.sortOn_eq_of_perm Py.optKey Py.optKey_injective h]

theorem keys_perm_of_isSome {κ ν ν' : Type} [DecidableEq κ] {d : Py.Dict κ ν} {d' : Py.Dict κ ν'}
    (h : ∀ k, (d'.get? k).isSome = (d.get? k).isSome) :
    d'.keys.Perm d.keys :=
  (List.perm_ext_iff_of_nodup d'.nodup_keys d.nodup_keys).2 fun k => by
    simp only [Py.Dict.mem_keys, h]

/-- The names the phase sorts: a union with a second side whose keys are the same up to order. -/
theorem sortedKeys_keyUnion_congr {ν ν' : Type} (a : List (Option String))
    {d : Py.Dict (Option String) ν} {d' : Py.Dict (Option String) ν'}
    (h : ∀ k, (d'.get? k).isSome = (d.get? k).isSome) :
    Py.sortedKeys (keyUnion a d'.keys) = Py.sortedKeys (keyUnion a d.keys) :=
  sortedKeys_perm (((keys_perm_of_isSome h).filter _).append_left a)

/-- The property phase reads the second side through `.get` only. -/
theorem diffProperties_congr_right {pa pb pb' : Py.Dict (Option String) (Option String)}
    (h : ∀ n, pb'.get? n = pb.get? n) : diffProperties pa pb' = diffProperties pa pb := by
  have hline : propertyLine pa pb' = propertyLine pa pb := by
    funext n
    simp only [propertyLine, Py.Dict.mem_keys, h]
  rw [diffProperties, diffProperties, hline,
    @sortedKeys_keyUnion_congr _ _ pa.keys pb pb' fun k => by rw [h k]]

theorem mem_entryStrs_congr {e e' : List Entry} (h : e.Perm e') (s : String) :
    s ∈ entryStrs e' ↔ s ∈ entryStrs e := by
  simp only [entryStrs, List.mem_dedup, (h.map _).mem_iff]

theorem length_filter_entryStrs_congr {e e' : List Entry} (h : e.Perm e') (p : String → Bool) :
    ((entryStrs e').filter p).length = ((entryStrs e).filter p).length :=
  ((h.map _).dedup.filter p).length_eq.symm

theorem filter_entryStrs_eq_nil_congr {e e' : List Entry} (h : e.Perm e') (p : String → Bool) :
    (entryStrs e').filter p = [] ↔ (entryStrs e).filter p = [] := by
  rw [← List.length_eq_zero, length_filter_entryStrs_congr h, List.length_eq_zero]

/-- The set comparison of the relationship phase is silent on two lists with the same strings. -/
theorem relationshipLine_set_silent {a e : List Entry}
    (h : ∀ s, s ∈ entryStrs a ↔ s ∈ entryStrs e) :
    ¬(¬((entryStrs a).filter fun s => s ∉ entryStrs e) = [] ∨
      ¬((entryStrs e).filter fun s => s ∉ entryStrs a) = []) := by
  simp only [Py.filter_not_mem_eq_nil, not_or, not_not]
  exact ⟨fun s hs => (h s).1 hs, fun s hs => (h s).2 hs⟩

/-- **The relationship phase reads the entries of the second side up to their order.**  A
missing relationship is reported with its count of entries, and a present one by the strings of
its entries; neither sees their order, and entries that differ only in order are not reported. -/
theorem relationshipLine_congr_right {ra rb rb' : Py.Dict (Option String) (List Entry)}
    {n : Option String} (h : Option.Rel List.Perm (rb.get? n) (rb'.get? n)) :
    relationshipLine ra rb' n = relationshipLine ra rb n := by
  unfold relationshipLine
  cases hb : rb.get? n <;> cases hb' : rb'.get? n <;> rw [hb, hb'] at h <;> cases h
  case none.none => simp only [Py.Dict.mem_keys, hb, hb']
  case some.some e e' hp =>
  have hstr := mem_entryStrs_congr hp
  simp only [Py.Dict.mem_keys, hb, hb', Option.getD_some, Option.isSome_some, not_true_eq_false,
    if_false, ne_eq, hstr, length_filter_entryStrs_congr hp, filter_entryStrs_eq_nil_congr hp,
    hp.length_eq]
  cases ha : ra.get? n with
  | none =>
    have hnil : ([] = e') ↔ ([] = e) :=
      ⟨fun h' => by subst h'; exact hp.symm.nil_eq, fun h' => by subst h'; exact hp.nil_eq⟩
    simp [hnil]
  | some a =>
    simp only [Option.getD_some, Option.isSome_some, not_true_eq_false, if_false]
    by_cases h₁ : a = e <;> by_cases h₂ : a = e'
    · rw [if_neg (not_not.2 h₁), if_neg (not_not.2 h₂)]
    · subst h₁
      rw [if_neg (not_not.2 rfl), if_pos h₂,
        if_neg (relationshipLine_set_silent (a := a) (e := a) fun _ => Iff.rfl)]
    · subst h₂
      rw [if_neg (not_not.2 rfl), if_pos h₁, if_neg (relationshipLine_set_silent hstr)]
    · rw [if_pos h₁, if_pos h₂]

theorem diffRelationships_congr_right {ra rb rb' : Py.Dict (Option String) (List Entry)}
    (h : ∀ n, Option.Rel List.Perm (rb.get? n) (rb'.get? n)) :
    diffRelationships ra rb' = diffRelationships ra rb := by
  have hline : relationshipLine ra rb' = relationshipLine ra rb :=
    funext fun n => relationshipLine_congr_right (h n)
  rw [diffRelationships, diffRelationships, hline,
    @sortedKeys_keyUnion_congr _ _ ra.keys rb rb' fun k => isSome_eq_of_rel (h k)]

/-- **`diff_element` reads its second element only through its view.** -/
theorem diffElement_congr_right {x y y' : Node} (h : SameView y y') :
    diffElement x y' = diffElement x y := by
  simp only [diffElement, diffProperties_congr_right h.properties,
    diffRelationships_congr_right h.relationships, h.annotations]

/-! ## ... and its first element -/

/-- The names the phase sorts: a union with a first side whose keys are the same up to order. -/
theorem sortedKeys_keyUnion_congr_left {ν ν' : Type} (b : List (Option String))
    {d : Py.Dict (Option String) ν} {d' : Py.Dict (Option String) ν'}
    (h : ∀ k, (d'.get? k).isSome = (d.get? k).isSome) :
    Py.sortedKeys (keyUnion d'.keys b) = Py.sortedKeys (keyUnion d.keys b) := by
  have hp := keys_perm_of_isSome h
  exact sortedKeys_perm (hp.append (.of_eq (List.filter_congr fun _ _ =>
    decide_eq_decide.2 (not_congr hp.mem_iff))))

theorem diffProperties_congr_left {pa pa' pb : Py.Dict (Option String) (Option String)}
    (h : ∀ n, pa'.get? n = pa.get? n) : diffProperties pa' pb = diffProperties pa pb := by
  have hline : propertyLine pa' pb = propertyLine pa pb := by
    funext n
    simp only [propertyLine, Py.Dict.mem_keys, h]
  rw [diffProperties, diffProperties, hline,
    @sortedKeys_keyUnion_congr_left _ _ pb.keys pa pa' fun k => by rw [h k]]

/-- **The relationship phase reads the entries of the first side up to their order.** -/
theorem relationshipLine_congr_left {ra ra' rb : Py.Dict (Option String) (List Entry)}
    {n : Option String} (h : Option.Rel List.Perm (ra.get? n) (ra'.get? n)) :
    relationshipLine ra' rb n = relationshipLine ra rb n := by
  unfold relationshipLine
  cases ha : ra.get? n <;> cases ha' : ra'.get? n <;> rw [ha, ha'] at h <;> cases h
  case none.none => simp only [Py.Dict.mem_keys, ha, ha']
  case some.some e e' hp =>
  have hstr := mem_entryStrs_congr hp
  simp only [Py.Dict.mem_keys, ha, ha', Option.getD_some, Option.isSome_some, not_true_eq_false,
    if_false, ne_eq, hstr, length_filter_entryStrs_congr hp, filter_entryStrs_eq_nil_congr hp,
    hp.length_eq]
  cases hb : rb.get? n with
  | none =>
    have hnil' : (e' = []) ↔ (e = []) :=
      ⟨fun h' => by subst h'; exact hp.eq_nil, fun h' => by subst h'; exact hp.symm.eq_nil⟩
    simp [hnil']
  | some b =>
    simp only [Option.getD_some, Option.isSome_some, not_true_eq_false, if_false]
    by_cases h₁ : e = b <;> by_cases h₂ : e' = b
    · rw [if_neg (not_not.2 h₁), if_neg (not_not.2 h₂)]
    · subst h₁
      rw [if_neg (not_not.2 rfl), if_pos h₂, if_neg (relationshipLine_set_silent (a := e) (e := e)
        fun _ => Iff.rfl)]
    · subst h₂
      rw [if_neg (not_not.2 rfl), if_pos h₁,
        if_neg (relationshipLine_set_silent (a := e) (e := e') fun s => (hstr s).symm)]
    · rw [if_pos h₁, if_pos h₂]

theorem diffRelationships_congr_left {ra ra' rb : Py.Dict (Option String) (List Entry)}
    (h : ∀ n, Option.Rel List.Perm (ra.get? n) (ra'.get? n)) :
    diffRelationships ra' rb = diffRelationships ra rb := by
  have hline : relationshipLine ra' rb = relationshipLine ra rb :=
    funext fun n => relationshipLine_congr_left (h n)
  rw [diffRelationships, diffRelationships, hline,
    @sortedKeys_keyUnion_congr_left _ _ rb.keys ra ra' fun k => isSome_eq_of_rel (h k)]

/-- **`diff_element` reads its first element only through its view.** -/
theorem diffElement_congr_left {x y y' : Node} (h : SameView y y') :
    diffElement y' x = diffElement y x := by
  simp only [diffElement, diffProperties_congr_left h.properties,
    diffRelationships_congr_left h.relationships, h.annotations]

/-! ## The whole report -/

theorem rel_symm_of {α : Type} {R : α → α → Prop} (hR : ∀ a b, R a b → R b a) :
    ∀ {o₁ o₂ : Option α}, Option.Rel R o₁ o₂ → Option.Rel R o₂ o₁
  | _, _, .some h => .some (hR _ _ h)
  | _, _, .none => .none

theorem SameView.symm {a b : Node} (h : SameView a b) : SameView b a :=
  ⟨h.key.symm, fun n => (h.properties n).symm,
    fun n => rel_symm_of (fun _ _ => List.Perm.symm) (h.relationships n), h.annotations.symm⟩

theorem IndexRel.symm {m m' : Node} (h : IndexRel m m') : IndexRel m' m :=
  fun k => rel_symm_of (fun _ _ => SameView.symm) (h k)

/-- Two reports that say the same: one header, the same keys missing, extra and different, each
with the same lines, and the same totals; a list may hold its keys in another order. -/
structure SameReport (r r' : ModelResults) : Prop where
  header : r'.header = r.header
  missing : r'.elements.missingInRust.Perm r.elements.missingInRust
  extra : r'.elements.extraInRust.Perm r.elements.extraInRust
  differences : r'.elements.differences.Perm r.elements.differences
  totalRust : r'.elements.totalRust = r.elements.totalRust
  totalDotnet : r'.elements.totalDotnet = r.elements.totalDotnet

theorem exists_of_rel_some {α β : Type} {R : α → β → Prop} {a : α} :
    ∀ {o : Option β}, Option.Rel R (some a) o → ∃ b, o = some b ∧ R a b
  | _, .some h => ⟨_, rfl, h⟩

/-- Sorting two orders of one list of keys raises on both or on neither. -/
theorem sortedByDisplay_rel {ks ks' : List ElementKey} (hp : ks.Perm ks') :
    Option.Rel List.Perm (sortedByDisplay ks) (sortedByDisplay ks') := by
  cases h : sortedByDisplay ks with
  | some l =>
    obtain ⟨l', hl'⟩ := Option.isSome_iff_exists.1 (sortedByDisplay_isSome_of_perm hp (by rw [h]; rfl))
    rw [hl']
    exact .some ((sortedByDisplay_perm h).trans (hp.trans (sortedByDisplay_perm hl').symm))
  | none =>
    cases h' : sortedByDisplay ks' with
    | some _ => simpa [h] using sortedByDisplay_isSome_of_perm hp.symm (by rw [h']; rfl)
    | none => exact .none

/-- The loop over the common keys reads the two indexes through `diffAt` only. -/
theorem collectDifferences_congr {ia ib ia' ib' : Py.Dict ElementKey Node} :
    ∀ {ks : List ElementKey}, (∀ k ∈ ks, diffAt ia' ib' k = diffAt ia ib k) →
      collectDifferences ia' ib' ks = collectDifferences ia ib ks
  | [], _ => rfl
  | k :: ks, h => by
    simp only [collectDifferences, h k (.head _),
      collectDifferences_congr fun k' hk' => h k' (.tail _ hk')]

/-- **The loop over two orders of the common keys raises on both or keeps the same differences.** -/
theorem collectDifferences_perm {ia ib : Py.Dict ElementKey Node} {ks ks' : List ElementKey}
    (h : ks.Perm ks') :
    Option.Rel List.Perm (collectDifferences ia ib ks) (collectDifferences ia ib ks') := by
  induction h with
  | nil => exact .some (.refl _)
  | @cons k l₁ l₂ _ ih =>
    simp only [collectDifferences]
    generalize collectDifferences ia ib l₁ = o₁ at ih ⊢
    generalize collectDifferences ia ib l₂ = o₂ at ih ⊢
    cases diffAt ia ib k with
    | none => exact .none
    | some d =>
      cases ih with
      | none => exact .none
      | some hp =>
        simp only [Option.bind_eq_bind, Option.some_bind, Option.pure_def]
        split_ifs
        exacts [.some hp, .some (hp.cons _)]
  | swap k k' ks =>
    simp only [collectDifferences]
    cases diffAt ia ib k <;> cases diffAt ia ib k' <;> cases collectDifferences ia ib ks <;>
      simp only [Option.bind_eq_bind, Option.none_bind, Option.some_bind, Option.pure_def] <;>
      first | exact .none | (split_ifs <;> first | exact .some (.refl _) | exact .some (.swap _ _ _))
  | trans _ _ ih₁ ih₂ => exact rel_trans_of (R := List.Perm) (fun _ _ _ => List.Perm.trans) ih₁ ih₂

theorem IndexRel.diffAt_right {m m' : Node} (h : IndexRel m m') (ia : Py.Dict ElementKey Node)
    (k : ElementKey) : diffAt ia (indexElements m').1 k = diffAt ia (indexElements m).1 k := by
  have hr := h k
  unfold diffAt
  cases hb : (indexElements m).1.get? k <;> cases hb' : (indexElements m').1.get? k <;>
    rw [hb, hb'] at hr <;> cases hr
  cases ia.get? k with
  | none => rfl
  | some a => exact diffElement_congr_right ‹_›

theorem IndexRel.diffAt_left {m m' : Node} (h : IndexRel m m') (ib : Py.Dict ElementKey Node)
    (k : ElementKey) : diffAt (indexElements m').1 ib k = diffAt (indexElements m).1 ib k := by
  have hr := h k
  unfold diffAt
  cases hb : (indexElements m).1.get? k <;> cases hb' : (indexElements m').1.get? k <;>
    rw [hb, hb'] at hr <;> cases hr
  cases ib.get? k with
  | none => rfl
  | some a => exact diffElement_congr_left ‹_›


/-- The report against a second document moves to one whose model has a related index and
whose header is the same. -/
theorem compareModelXml_sameReport_right {A B B' mB mB' : Node}
    (hB : B.find (nsTag "Model") = some mB) (hB' : B'.find (nsTag "Model") = some mB')
    (hhead : B'.find (nsTag "Header") = B.find (nsTag "Header")) (hrel : IndexRel mB mB')
    {r : ModelResults} (h : compareModelXml A B = some r) :
    ∃ r', compareModelXml A B' = some r' ∧ SameReport r r' := by
  obtain ⟨mA, mB₀, common, hmA, hmB, hmi, hex, hco, hdi, hhd, htr, htd⟩ :=
    compareModelXml_eq_some.1 h
  obtain rfl : mB = mB₀ := Option.some.inj (hB.symm.trans hmB)
  have hkp : (indexElements mB').1.keys.Perm (indexElements mB).1.keys :=
    keys_perm_of_isSome fun k => isSome_eq_of_rel (hrel k)
  have hex' : ((indexElements mA).1.keys.filter fun k => k ∉ (indexElements mB').1.keys) =
      (indexElements mA).1.keys.filter fun k => k ∉ (indexElements mB).1.keys :=
    List.filter_congr fun _ _ => decide_eq_decide.2 (not_congr hkp.mem_iff)
  have hco' : ((indexElements mA).1.keys.filter fun k => k ∈ (indexElements mB').1.keys) =
      (indexElements mA).1.keys.filter fun k => k ∈ (indexElements mB).1.keys :=
    List.filter_congr fun _ _ => decide_eq_decide.2 hkp.mem_iff
  have hmrel := sortedByDisplay_rel (hkp.symm.filter fun k => k ∉ (indexElements mA).1.keys)
  rw [hmi] at hmrel
  obtain ⟨missing', hmi', hmp⟩ := exists_of_rel_some hmrel
  refine ⟨⟨compareHeader (A.find (nsTag "Header")) (B'.find (nsTag "Header")),
      ⟨missing', r.elements.extraInRust, r.elements.differences,
        (indexElements mA).1.keys.length, (indexElements mB').1.keys.length⟩⟩,
    compareModelXml_eq_some.2 ⟨mA, mB', common, hmA, hB', hmi', by rw [hex']; exact hex,
      by rw [hco']; exact hco,
      by rw [collectDifferences_congr fun k _ => hrel.diffAt_right _ k]; exact hdi, rfl, rfl, rfl⟩,
    ⟨by rw [hhd, hhead], hmp.symm, .refl _, .refl _, htr.symm, hkp.length_eq.trans htd.symm⟩⟩

/-- The report with a first document moves to one whose model has a related index and whose
header is the same. -/
theorem compareModelXml_sameReport_left {A B B' mB mB' : Node}
    (hB : B.find (nsTag "Model") = some mB) (hB' : B'.find (nsTag "Model") = some mB')
    (hhead : B'.find (nsTag "Header") = B.find (nsTag "Header")) (hrel : IndexRel mB mB')
    {r : ModelResults} (h : compareModelXml B A = some r) :
    ∃ r', compareModelXml B' A = some r' ∧ SameReport r r' := by
  obtain ⟨mB₀, mA, common, hmB, hmA, hmi, hex, hco, hdi, hhd, htr, htd⟩ :=
    compareModelXml_eq_some.1 h
  obtain rfl : mB = mB₀ := Option.some.inj (hB.symm.trans hmB)
  have hkp : (indexElements mB').1.keys.Perm (indexElements mB).1.keys :=
    keys_perm_of_isSome fun k => isSome_eq_of_rel (hrel k)
  have hmi' : ((indexElements mA).1.keys.filter fun k => k ∉ (indexElements mB').1.keys) =
      (indexElements mA).1.keys.filter fun k => k ∉ (indexElements mB).1.keys :=
    List.filter_congr fun _ _ => decide_eq_decide.2 (not_congr hkp.mem_iff)
  have hxrel := sortedByDisplay_rel (hkp.symm.filter fun k => k ∉ (indexElements mA).1.keys)
  rw [hex] at hxrel
  obtain ⟨extra', hex', hxp⟩ := exists_of_rel_some hxrel
  have hcrel := sortedByDisplay_rel (hkp.symm.filter fun k => k ∈ (indexElements mA).1.keys)
  rw [hco] at hcrel
  obtain ⟨common', hco', hcp⟩ := exists_of_rel_some hcrel
  have hdrel := @collectDifferences_perm (indexElements mB).1 (indexElements mA).1 _ _ hcp
  rw [hdi] at hdrel
  obtain ⟨differences', hdi', hdp⟩ := exists_of_rel_some hdrel
  refine ⟨⟨compareHeader (B'.find (nsTag "Header")) (A.find (nsTag "Header")),
      ⟨r.elements.missingInRust, extra', differences',
        (indexElements mB').1.keys.length, (indexElements mA).1.keys.length⟩⟩,
    compareModelXml_eq_some.2 ⟨mB', mA, common', hB', hmA, by rw [hmi']; exact hmi, hex', hco',
      by rw [collectDifferences_congr fun k _ => hrel.diffAt_left _ k]; exact hdi', rfl, rfl, rfl⟩,
    ⟨by rw [hhd, hhead], .refl _, hxp.symm, hdp.symm, hkp.length_eq.trans htr.symm, htd.symm⟩⟩

theorem rel_of_transfer {α β : Type} {R : α → β → Prop} {o : Option α} {o' : Option β}
    (h₁ : ∀ a, o = some a → ∃ b, o' = some b ∧ R a b) (h₂ : ∀ b, o' = some b → ∃ a, o = some a) :
    Option.Rel R o o' := by
  cases o with
  | some a =>
    obtain ⟨b, rfl, h⟩ := h₁ a rfl
    exact .some h
  | none =>
    cases o' with
    | none => exact .none
    | some b => exact absurd (h₂ b rfl) (by simp)

/-- A run of cosmetic changes from a well-formed document relates the indexes of the two
first models. -/
theorem run_indexRel {M M' : Node} (hM : DocOk M) (hrun : Relation.ReflTransGen DocStep M M') :
    ∃ m m', M.find (nsTag "Model") = some m ∧ M'.find (nsTag "Model") = some m' ∧ IndexRel m m' := by
  obtain ⟨m, hm, hok⟩ := hM
  have hrel := DocStep.run_find_model hrun
  rw [Option.mem_def.1 hm] at hrel
  rcases hm' : M'.find (nsTag "Model") with _ | m' <;> rw [hm'] at hrel <;> cases hrel
  exact ⟨m, m', hm, rfl, (ModelStep.run_preserves ‹_› hok).2⟩

/-- **A cosmetic rewrite of either document leaves the report of `compare_model_xml` as it was.**
Let `M` be well formed and `M'` come from it by a run of cosmetic changes that leaves the header
alone.  Against any document `A`, on either side, `compare_model_xml` raises with `M'` exactly
when it raises with `M`, and otherwise reports the same header, the same keys missing, extra
and different with the same lines, and the same totals, up to the order of the keys in each
list. -/
theorem compareModelXml_cosmetic_report {A M M' : Node} (hM : DocOk M)
    (hrun : Relation.ReflTransGen DocStep M M')
    (hhead : M'.find (nsTag "Header") = M.find (nsTag "Header")) :
    Option.Rel SameReport (compareModelXml A M) (compareModelXml A M') ∧
      Option.Rel SameReport (compareModelXml M A) (compareModelXml M' A) := by
  obtain ⟨m, m', hm, hm', hidx⟩ := run_indexRel hM hrun
  exact ⟨rel_of_transfer (fun _ h => compareModelXml_sameReport_right hm hm' hhead hidx h)
      fun _ h => (compareModelXml_sameReport_right hm' hm hhead.symm hidx.symm h).imp
        fun _ => And.left,
    rel_of_transfer (fun _ h => compareModelXml_sameReport_left hm hm' hhead hidx h)
      fun _ h => (compareModelXml_sameReport_left hm' hm hhead.symm hidx.symm h).imp
        fun _ => And.left⟩

/-- The report against a rust model that lacks a property of the table and has a view of its
own, before and after the dotnet model's elements and the table's properties are swapped. -/
theorem compareModelXml_cosmetic_report_swap :
    let t := fun ps : List Node => Node.elem (nsTag "Element")
      [("Type", "SqlTable"), ("Name", "[dbo].[T]")] ps
    let v := Node.elem (nsTag "Element") [("Type", "SqlView"), ("Name", "[dbo].[V]")] []
    let w := Node.elem (nsTag "Element") [("Type", "SqlView"), ("Name", "[dbo].[W]")] []
    let p := Node.elem (nsTag "Property") [("Name", "IsAnsiNullsOn"), ("Value", "True")] []
    let q := Node.elem (nsTag "Property") [("Name", "IsMemoryOptimized"), ("Value", "False")] []
    let doc := fun cs : List Node =>
      Node.elem (nsTag "DataSchemaModel") [] [.elem (nsTag "Model") [] cs]
    DocOk (doc [t [p, q], v]) ∧ Relation.ReflTransGen DocStep (doc [t [p, q], v]) (doc [v, t [q, p]]) ∧
      (doc [v, t [q, p]]).find (nsTag "Header") = (doc [t [p, q], v]).find (nsTag "Header") ∧
      Option.Rel SameReport (compareModelXml (doc [t [p], w]) (doc [t [p, q], v]))
        (compareModelXml (doc [t [p], w]) (doc [v, t [q, p]])) ∧
      Option.Rel SameReport (compareModelXml (doc [t [p, q], v]) (doc [t [p], w]))
        (compareModelXml (doc [v, t [q, p]]) (doc [t [p], w])) := by
  intro t v w p q doc
  have hok : DocOk (doc [t [p, q], v]) := by decide
  have h₁ : DocStep (doc [t [p, q], v]) (doc [v, t [p, q]]) :=
    @DocStep.model _ (.elem (nsTag "Model") [] [t [p, q], v]) (.elem (nsTag "Model") [] [v, t [p, q]])
      [] [] rfl (.permElements (.swap _ _ []))
  have h₂ : DocStep (doc [v, t [p, q]]) (doc [v, t [q, p]]) :=
    @DocStep.model _ (.elem (nsTag "Model") [] [v, t [p, q]]) (.elem (nsTag "Model") [] [v, t [q, p]])
      [] [] rfl (@ModelStep.element _ (t [p, q]) (t [q, p]) [v] [] rfl (.permChildren (.swap _ _ [])))
  have hrun := Relation.ReflTransGen.tail (.single h₁) h₂
  exact ⟨hok, hrun, rfl, compareModelXml_cosmetic_report hok hrun rfl⟩

theorem SameReport.clean {r r' : ModelResults} (h : SameReport r r') (hh : r.header.1 = .ok)
    (hc : r.elements.clean) : r'.header.1 = .ok ∧ r'.elements.clean := by
  obtain ⟨h₁, h₂, h₃⟩ := hc
  exact ⟨h.header ▸ hh, (h₁ ▸ h.missing).eq_nil, (h₂ ▸ h.extra).eq_nil, (h₃ ▸ h.differences).eq_nil⟩

/-- A clean comparison against a well-formed model is a clean comparison against each of its
cosmetic variants, and conversely, whatever the first document, when the rewrite leaves the
header as it is. -/
theorem compareModelXml_clean_congr {A M M' : Node} (hM : DocOk M)
    (hrun : Relation.ReflTransGen DocStep M M')
    (hhead : M'.find (nsTag "Header") = M.find (nsTag "Header")) :
    (∃ r, compareModelXml A M = some r ∧ r.header.1 = .ok ∧ r.elements.clean) ↔
      ∃ r, compareModelXml A M' = some r ∧ r.header.1 = .ok ∧ r.elements.clean := by
  obtain ⟨m, m', hm, hm', hidx⟩ := run_indexRel hM hrun
  constructor
  · rintro ⟨r, hr, hh, hc⟩
    obtain ⟨r', hr', hs⟩ := compareModelXml_sameReport_right hm hm' hhead hidx hr
    exact ⟨r', hr', hs.clean hh hc⟩
  · rintro ⟨r, hr, hh, hc⟩
    obtain ⟨r', hr', hs⟩ := compareModelXml_sameReport_right hm' hm hhead.symm hidx.symm hr
    exact ⟨r', hr', hs.clean hh hc⟩

/-! ## The directory and the exit code -/

theorem isFile_of_parseEntry {fs : Fs} {p : String} {X : Node}
    (h : parseEntry (fs.entry p) = some (some X)) : fs.isFile p = true := by
  unfold Fs.isFile
  rcases he : fs.entry p with _ | _ | ⟨c, m⟩ <;> rw [he] at h <;> simp_all [parseEntry]

/-- Two directories that hold the same entries under every name but `model.xml`, where each holds
a parsable file, agree with a third alike, as long as the two models do. -/
theorem DirsAgree.congr_model {fs : Fs} {a b b' : String} {M M' : Node}
    (hb : fs.isDir b = fs.isDir b')
    (hsame : ∀ n, n ≠ "" → '/' ∉ n.data → n ≠ "model.xml" →
      fs.entry (pathJoin b n) = fs.entry (pathJoin b' n))
    (hM : parseEntry (fs.entry (pathJoin b "model.xml")) = some (some M))
    (hM' : parseEntry (fs.entry (pathJoin b' "model.xml")) = some (some M'))
    (hmodel : ∀ A, (∃ r, compareModelXml A M = some r ∧ r.header.1 = .ok ∧ r.elements.clean) →
      ∃ r, compareModelXml A M' = some r ∧ r.header.1 = .ok ∧ r.elements.clean)
    (h : DirsAgree fs a b) : DirsAgree fs a b' := by
  have hk : ∀ n ∈ knownFiles, n ≠ "model.xml" → fs.entry (pathJoin b n) = fs.entry (pathJoin b' n) :=
    fun n hn hm => hsame n (known_name hn).1 (known_name hn).2 hm
  have hxml : ∀ n ∈ ["DacMetadata.xml", "[Content_Types].xml"], n ∈ knownFiles ∧ n ≠ "model.xml" := by
    decide
  have htext : ∀ n ∈ ["predeploy.sql", "postdeploy.sql"], n ∈ knownFiles ∧ n ≠ "model.xml" := by
    decide
  have hlist : ∀ n, n ∈ listFiles fs b ↔ n ∈ listFiles fs b' := fun n => by
    simp only [mem_listFiles, hb, and_congr_right_iff]
    intro _ hne hn
    by_cases hm : n = "model.xml"
    · subst hm
      rw [isFile_of_parseEntry hM, isFile_of_parseEntry hM']
    · simp only [Fs.isFile, hsame n hne hn hm]
  obtain ⟨A, B, r, hA, hB, hr, hh, hc⟩ := h.model
  obtain rfl : B = M := Option.some.inj (Option.some.inj (hB.symm.trans hM))
  obtain ⟨r', hr', hh', hc'⟩ := hmodel A ⟨r, hr, hh, hc⟩
  refine ⟨fun n hn => ?_, fun n hn => ?_, fun n hn => ?_, fun n hn hu => ?_,
    A, M', r', hA, hM', hr', hh', hc'⟩
  · rw [← hk n (hxml n hn).1 (hxml n hn).2]
    exact h.simpleXml n hn
  · rw [← hk n (htext n hn).1 (htext n hn).2]
    exact h.textFiles n hn
  · rw [← hlist]
    exact h.sameUnknown n hn
  · obtain ⟨-, hne, hsl, -⟩ := mem_listFiles.1 hn
    rw [← hsame n hne hsl fun hm => hu (by rw [hm]; decide)]
    exact h.unknownOk n hn hu

/-- **A cosmetic rewrite of one side's `model.xml` leaves the exit code as it was.**  Let `b'` be
directory `b` with its `model.xml` rewritten: every other name directly in the two holds the same
entry, the model of `b` is well formed, and that of `b'` comes from it by a run of cosmetic
changes that leaves the header alone.  Then `main` exits with the same code on `b'` as on `b`
against any directory `a`, on either side, whatever `a` holds. -/
theorem mainExitCode_cosmetic {fs : Fs} {tmpdir a b b' : String} {M M' : Node}
    (ha : fs.isDir a = true) (hb : fs.isDir b = true) (hb' : fs.isDir b' = true)
    (hsame : ∀ n, n ≠ "" → '/' ∉ n.data → n ≠ "model.xml" →
      fs.entry (pathJoin b n) = fs.entry (pathJoin b' n))
    (hM : parseEntry (fs.entry (pathJoin b "model.xml")) = some (some M))
    (hM' : parseEntry (fs.entry (pathJoin b' "model.xml")) = some (some M'))
    (hok : DocOk M) (hrun : Relation.ReflTransGen DocStep M M')
    (hhead : M'.find (nsTag "Header") = M.find (nsTag "Header")) :
    mainExitCode fs tmpdir a b' = mainExitCode fs tmpdir a b ∧
      mainExitCode fs tmpdir b' a = mainExitCode fs tmpdir b a := by
  have hiff : DirsAgree fs a b ↔ DirsAgree fs a b' :=
    ⟨DirsAgree.congr_model (hb.trans hb'.symm) hsame hM hM' fun _ =>
        (compareModelXml_clean_congr hok hrun hhead).1,
      DirsAgree.congr_model (hb'.trans hb.symm) (fun n hne hn hm => (hsame n hne hn hm).symm) hM' hM
        fun _ => (compareModelXml_clean_congr hok hrun hhead).2⟩
  rw [mainExitCode_of_isDir ha hb', mainExitCode_of_isDir ha hb, mainExitCode_of_isDir hb' ha,
    mainExitCode_of_isDir hb ha]
  refine ⟨if_congr ?_ rfl rfl, if_congr ?_ rfl rfl⟩ <;>
    rw [verdict_eq_some_false_iff, verdict_eq_some_false_iff]
  · exact hiff.symm
  · exact ⟨fun h => (hiff.2 h.symm).symm, fun h => (hiff.1 h.symm).symm⟩

/-- The dotnet side's model rewritten by swapping its two elements and the two properties of the
table; the rust side has a property with neither `Name` nor value, which no condition excludes. -/
theorem mainExitCode_cosmetic_swap :
    let t := fun ps : List Node => Node.elem (nsTag "Element")
      [("Type", "SqlTable"), ("Name", "[dbo].[T]")] ps
    let v := Node.elem (nsTag "Element") [("Type", "SqlView"), ("Name", "[dbo].[V]")] []
    let p := Node.elem (nsTag "Property") [("Name", "IsAnsiNullsOn"), ("Value", "True")] []
    let q := Node.elem (nsTag "Property") [("Name", "IsMemoryOptimized"), ("Value", "False")] []
    let u := Node.elem (nsTag "Property") [] []
    let doc := fun cs : List Node =>
      Node.elem (nsTag "DataSchemaModel") [] [.elem (nsTag "Model") [] cs]
    let fs : Fs := [("rust", .dir), ("rust/model.xml", .file ⟨some [], some (doc [t [p, q, u], v])⟩ none),
      ("dotnet", .dir), ("dotnet/model.xml", .file ⟨some [], some (doc [t [p, q], v])⟩ none),
      ("dotnet/predeploy.sql", .file ⟨some ["GO"], none⟩ none),
      ("dotnet2", .dir), ("dotnet2/model.xml", .file ⟨some [], some (doc [v, t [q, p]])⟩ none),
      ("dotnet2/predeploy.sql", .file ⟨some ["GO"], none⟩ none)]
    fs.isDir "rust" = true ∧ fs.isDir "dotnet" = true ∧ fs.isDir "dotnet2" = true ∧
      (∀ n, n ≠ "" → '/' ∉ n.data → n ≠ "model.xml" →
        fs.entry (pathJoin "dotnet" n) = fs.entry (pathJoin "dotnet2" n)) ∧
      parseEntry (fs.entry (pathJoin "dotnet" "model.xml")) = some (some (doc [t [p, q], v])) ∧
      parseEntry (fs.entry (pathJoin "dotnet2" "model.xml")) = some (some (doc [v, t [q, p]])) ∧
      DocOk (doc [t [p, q], v]) ∧ Relation.ReflTransGen DocStep (doc [t [p, q], v]) (doc [v, t [q, p]]) ∧
      (doc [v, t [q, p]]).find (nsTag "Header") = (doc [t [p, q], v]).find (nsTag "Header") ∧
      (mainExitCode fs "/tmp/w" "rust" "dotnet2" = mainExitCode fs "/tmp/w" "rust" "dotnet" ∧
        mainExitCode fs "/tmp/w" "dotnet2" "rust" = mainExitCode fs "/tmp/w" "dotnet" "rust") := by
  intro t v p q u doc fs
  have ha : fs.isDir "rust" = true := by decide
  have hb : fs.isDir "dotnet" = true := by decide
  have hb' : fs.isDir "dotnet2" = true := by decide
  have hsame : ∀ n, n ≠ "" → '/' ∉ n.data → n ≠ "model.xml" →
      fs.entry (pathJoin "dotnet" n) = fs.entry (pathJoin "dotnet2" n) := fun n hne hn hm => by
    by_cases hpre : n = "predeploy.sql"
    · subst hpre
      rfl
    · have hns : n ∉ ["model.xml", "predeploy.sql"] := by simp [hm, hpre]
      rw [entry_eq_none_of_listing _ (by decide) hne hn hns,
        entry_eq_none_of_listing _ (by decide) hne hn hns]
  have hok : DocOk (doc [t [p, q], v]) := by decide
  have h₁ : DocStep (doc [t [p, q], v]) (doc [v, t [p, q]]) :=
    @DocStep.model _ (.elem (nsTag "Model") [] [t [p, q], v]) (.elem (nsTag "Model") [] [v, t [p, q]])
      [] [] rfl (.permElements (.swap _ _ []))
  have h₂ : DocStep (doc [v, t [p, q]]) (doc [v, t [q, p]]) :=
    @DocStep.model _ (.elem (nsTag "Model") [] [v, t [p, q]]) (.elem (nsTag "Model") [] [v, t [q, p]])
      [] [] rfl (@ModelStep.element _ (t [p, q]) (t [q, p]) [v] [] rfl (.permChildren (.swap _ _ [])))
  have hrun := Relation.ReflTransGen.tail (.single h₁) h₂
  exact ⟨ha, hb, hb', hsame, rfl, rfl, hok, hrun, rfl,
    mainExitCode_cosmetic ha hb hb' hsame rfl rfl hok hrun rfl⟩

/-! ## Rewriting the header

`compare_header` reads a header only through `index_custom_data`: the blocks keyed by
`(Category, Type)`, and in each block the metadata keyed by `Name`.  That index forgets the order
of the blocks as long as no key repeats, and the order of a block's metadata as long as no name
of the block repeats; with a repeated key the order decides which block or value is kept. -/

/-- One reordering of a header: its children reordered, or the children of one of its
children. -/
inductive HeaderStep : Node → Node → Prop
  | permBlocks {h : Node} {cs : List Node} (hp : h.children.Perm cs) :
      HeaderStep h (h.setChildren cs)
  | permMetadata {h cd : Node} {pre post ms : List Node} (hh : h.children = pre ++ cd :: post)
      (hp : cd.children.Perm ms) : HeaderStep h (h.setChildren (pre ++ cd.setChildren ms :: post))

/-- The names `index_custom_data` gives the metadata of a block. -/
def metadataNames (cd : Node) : List String :=
  (cd.findall (nsTag "Metadata")).map fun m => (m.get "Name").getD ""

/-- A header whose order does not matter. -/
structure HeaderOk (h : Node) : Prop where
  /-- No two blocks share a `(Category, Type)`. -/
  keysDistinct : ((h.findall (nsTag "CustomData")).map customDataKey).Nodup
  /-- No two metadata of a block share a `Name`. -/
  namesDistinct : ∀ cd ∈ h.findall (nsTag "CustomData"), (metadataNames cd).Nodup

instance (h : Node) : Decidable (HeaderOk h) :=
  decidable_of_iff (((h.findall (nsTag "CustomData")).map customDataKey).Nodup ∧
      ∀ cd ∈ h.findall (nsTag "CustomData"), (metadataNames cd).Nodup)
    ⟨fun ⟨a, b⟩ => ⟨a, b⟩, fun ⟨a, b⟩ => ⟨a, b⟩⟩

theorem findall_perm {h : Node} {cs : List Node} (hp : h.children.Perm cs) (t : String) :
    ((h.setChildren cs).findall t).Perm (h.findall t) :=
  (hp.filter _).symm

theorem IndexEq.refl (c : Py.Dict (String × String) (Py.Dict String String)) : IndexEq c c :=
  fun _ => rel_refl_of (fun _ _ => rfl) _

theorem IndexEq.trans {c₁ c₂ c₃ : Py.Dict (String × String) (Py.Dict String String)}
    (h₁ : IndexEq c₁ c₂) (h₂ : IndexEq c₂ c₃) : IndexEq c₁ c₃ :=
  fun key => rel_trans_of (fun _ _ _ h h' k => (h k).trans (h' k)) (h₁ key) (h₂ key)

/-- The metadata of a block with distinct names does not depend on their order. -/
theorem metadataOf_perm {cd : Node} {ms : List Node} (hnd : (metadataNames cd).Nodup)
    (hp : cd.children.Perm ms) (k : String) :
    (metadataOf (cd.setChildren ms)).get? k = (metadataOf cd).get? k := by
  refine Py.Dict.get?_ofList_perm ?_ ((findall_perm hp _).map _) k
  rw [List.map_map]
  exact ((findall_perm hp _).map _).nodup_iff.2 hnd

theorem metadataNames_perm {cd : Node} {ms : List Node} (hp : cd.children.Perm ms) :
    (metadataNames (cd.setChildren ms)).Perm (metadataNames cd) :=
  (findall_perm hp _).map _

/-- Reordering the blocks of a header with distinct keys keeps its index. -/
theorem indexEq_permBlocks {h : Node} {cs : List Node} (hok : HeaderOk h)
    (hp : h.children.Perm cs) :
    IndexEq (indexCustomData (some h)) (indexCustomData (some (h.setChildren cs))) := by
  intro key
  have hnd : ((((h.setChildren cs).findall (nsTag "CustomData")).map fun cd =>
      (customDataKey cd, metadataOf cd)).map Prod.fst).Nodup := by
    rw [List.map_map]
    exact ((findall_perm hp _).map _).nodup_iff.2 hok.keysDistinct
  simp only [indexCustomData]
  rw [Py.Dict.get?_ofList_perm hnd ((findall_perm hp _).map _) key]
  exact rel_refl_of (fun _ _ => rfl) _

/-- Reordering the metadata of a block with distinct names keeps the index of the header. -/
theorem indexEq_permMetadata {h cd : Node} {pre post ms : List Node} (hok : HeaderOk h)
    (hh : h.children = pre ++ cd :: post) (hp : cd.children.Perm ms) :
    IndexEq (indexCustomData (some h))
      (indexCustomData (some (h.setChildren (pre ++ cd.setChildren ms :: post)))) := by
  intro key
  refine Py.Dict.get?_ofList_rel ?_ key
  simp only [Node.findall, Node.children_setChildren, hh]
  refine forall₂_map_filter_replace (fun _ => ⟨rfl, fun _ => rfl⟩) pre post (by simp) fun hc =>
    ⟨rfl, fun k => (metadataOf_perm (hok.namesDistinct cd ?_) hp k).symm⟩
  exact mem_findall_of_children hh (by simpa using hc)

theorem HeaderOk.permBlocks {h : Node} {cs : List Node} (hok : HeaderOk h)
    (hp : h.children.Perm cs) : HeaderOk (h.setChildren cs) :=
  ⟨((findall_perm hp _).map _).nodup_iff.2 hok.keysDistinct,
    fun cd hcd => hok.namesDistinct cd ((findall_perm hp _).mem_iff.1 hcd)⟩

theorem HeaderOk.permMetadata {h cd : Node} {pre post ms : List Node} (hok : HeaderOk h)
    (hh : h.children = pre ++ cd :: post) (hp : cd.children.Perm ms) :
    HeaderOk (h.setChildren (pre ++ cd.setChildren ms :: post)) := by
  refine ⟨?_, fun x hx => ?_⟩
  · rw [map_findall_replace (d := cd.setChildren ms) (f := customDataKey) hh rfl fun _ => rfl]
    exact hok.keysDistinct
  · rcases mem_findall_replace hh hx with rfl | hx'
    · have hcd : cd ∈ h.findall (nsTag "CustomData") :=
        mem_findall_of_children hh (by simpa [Node.findall] using (List.mem_filter.1 hx).2)
      exact (metadataNames_perm hp).nodup_iff.2 (hok.namesDistinct cd hcd)
    · exact hok.namesDistinct x hx'

/-- A reordering keeps the index of a header whose order does not matter, and keeps that
condition. -/
theorem HeaderStep.preserves {h h' : Node} (hs : HeaderStep h h') (hok : HeaderOk h) :
    IndexEq (indexCustomData (some h)) (indexCustomData (some h')) ∧ HeaderOk h' := by
  cases hs with
  | permBlocks hp => exact ⟨indexEq_permBlocks hok hp, hok.permBlocks hp⟩
  | permMetadata hh hp => exact ⟨indexEq_permMetadata hok hh hp, hok.permMetadata hh hp⟩

theorem HeaderStep.run {h h' : Node} (hok : HeaderOk h)
    (hrun : Relation.ReflTransGen HeaderStep h h') :
    IndexEq (indexCustomData (some h)) (indexCustomData (some h')) ∧ HeaderOk h' := by
  induction hrun with
  | refl => exact ⟨IndexEq.refl _, hok⟩
  | tail _ hs ih =>
    obtain ⟨he, hok'⟩ := hs.preserves ih.2
    exact ⟨ih.1.trans he, hok'⟩

/-! ### `compare_header` reads the indexes up to `IndexEq` -/

theorem keyUnion_congr_perm {κ : Type} [DecidableEq κ] {a a' b b' : List κ} (ha : a.Perm a')
    (hb : b.Perm b') : (keyUnion a b).Perm (keyUnion a' b') :=
  ha.append ((hb.filter _).trans (.of_eq (List.filter_congr fun _ _ =>
    decide_eq_decide.2 (not_congr ha.mem_iff))))

theorem pairKey_injective : Function.Injective pairKey := fun a b h => by
  have h' := toLex.injective h
  simp only [Prod.mk.injEq] at h'
  exact Prod.ext (Py.strKey_injective h'.1) (Py.strKey_injective h'.2)

theorem getD_get?_of_rel {o o' : Option (Py.Dict String String)}
    (h : Option.Rel (fun m m' => ∀ k, m.get? k = m'.get? k) o o') (k : String) :
    (o'.getD Py.Dict.empty).get? k = (o.getD Py.Dict.empty).get? k := by
  cases h with
  | none => rfl
  | some h => exact (h k).symm

theorem IndexEq.keys_perm {c c' : Py.Dict (String × String) (Py.Dict String String)}
    (h : IndexEq c c') : c'.keys.Perm c.keys :=
  keys_perm_of_isSome fun key => isSome_eq_of_rel (h key)

/-- The lines for one key read each index up to `IndexEq`. -/
theorem headerLines_congr {ca ca' cb cb' : Py.Dict (String × String) (Py.Dict String String)}
    (ha : IndexEq ca ca') (hb : IndexEq cb cb') : headerLines ca' cb' = headerLines ca cb := by
  funext key
  have hma := getD_get?_of_rel (ha key)
  have hmb := getD_get?_of_rel (hb key)
  have heqv : ((ca'.get? key).getD .empty).eqv ((cb'.get? key).getD .empty) =
      ((ca.get? key).getD .empty).eqv ((cb.get? key).getD .empty) :=
    Bool.eq_iff_iff.2 (by simp only [Py.Dict.eqv_iff, hma, hmb])
  have hkeys := keyUnion_congr_perm (keys_perm_of_isSome fun k => congrArg Option.isSome (hma k))
    (keys_perm_of_isSome fun k => congrArg Option.isSome (hmb k))
  simp only [headerLines, Py.Dict.mem_keys, isSome_eq_of_rel (ha key), isSome_eq_of_rel (hb key),
    heqv, Py.sortOn_eq_of_perm Py.strKey Py.strKey_injective hkeys, hma, hmb]

/-- `compare_header` reads each header up to `IndexEq` of its index. -/
theorem compareHeader_congr {ha ha' hb hb' : Option Node}
    (hA : IndexEq (indexCustomData ha) (indexCustomData ha'))
    (hB : IndexEq (indexCustomData hb) (indexCustomData hb')) :
    compareHeader ha' hb' = compareHeader ha hb := by
  simp only [compareHeader, headerLines_congr hA hB,
    Py.sortOn_eq_of_perm pairKey pairKey_injective (keyUnion_congr_perm hA.keys_perm hB.keys_perm)]

/-- **Reordering a header changes nothing of its comparison.**  Let `h'` come from a header `h`
by any run of reorderings of its blocks and of the metadata of its blocks, where no two blocks of
`h` share a `(Category, Type)` and no two metadata of a block share a `Name`.  Then
`compare_header` returns the same status and the same lines for `h'` as for `h`, against any
header or none, on either side. -/
theorem compareHeader_reorder {h h' : Node} (hok : HeaderOk h)
    (hrun : Relation.ReflTransGen HeaderStep h h') (x : Option Node) :
    compareHeader (some h') x = compareHeader (some h) x ∧
      compareHeader x (some h') = compareHeader x (some h) :=
  ⟨compareHeader_congr (HeaderStep.run hok hrun).1 (.refl _),
    compareHeader_congr (.refl _) (HeaderStep.run hok hrun).1⟩

/-- A header with an `AnsiNulls` block and a `Reference` block, written with the blocks the other
way round and the reference's two metadata swapped, compared with a reference to another
package. -/
theorem compareHeader_reorder_reference :
    let md := fun n v : String => Node.elem (nsTag "Metadata") [("Name", n), ("Value", v)] []
    let ref := fun ms : List Node =>
      Node.elem (nsTag "CustomData") [("Category", "Reference"), ("Type", "SqlSchema")] ms
    let ansi := Node.elem (nsTag "CustomData") [("Category", "AnsiNulls")] [md "AnsiNulls" "True"]
    let h := Node.elem (nsTag "Header") [] [ansi, ref [md "FileName" "a.dacpac", md "LogicalName" "a"]]
    let h' := Node.elem (nsTag "Header") [] [ref [md "LogicalName" "a", md "FileName" "a.dacpac"], ansi]
    let x := some (Node.elem (nsTag "Header") [] [ref [md "FileName" "b.dacpac", md "LogicalName" "b"]])
    HeaderOk h ∧ Relation.ReflTransGen HeaderStep h h' ∧
      (compareHeader (some h') x = compareHeader (some h) x ∧
        compareHeader x (some h') = compareHeader x (some h)) := by
  intro md ref ansi h h' x
  have hok : HeaderOk h := by decide
  have h₁ : HeaderStep h (.elem (nsTag "Header") []
      [ansi, ref [md "LogicalName" "a", md "FileName" "a.dacpac"]]) :=
    @HeaderStep.permMetadata h (ref [md "FileName" "a.dacpac", md "LogicalName" "a"]) [ansi] [] _ rfl
      (.swap _ _ [])
  have h₂ : HeaderStep (.elem (nsTag "Header") [] [ansi, ref [md "LogicalName" "a", md "FileName" "a.dacpac"]]) h' :=
    .permBlocks (.swap _ _ [])
  have hrun := Relation.ReflTransGen.tail (.single h₁) h₂
  exact ⟨hok, hrun, compareHeader_reorder hok hrun x⟩

end DacpacCompare
