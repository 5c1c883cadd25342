import DacpacCompare.Model.WellFormed
import DacpacCompare.Model.DiffSpec

/-!
# What a clean model comparison says

`compare_model_xml` reports nothing missing, nothing extra and no differing element.  What does
that say of the two models?  For well-formed documents (`DocOk`):

* the elements of the two models have the same keys, each key once on each side: the keys are
  a bijection between the elements (`compareModelXml_sound`);
* two elements with one key read the same property values, have the same *set* of entries under
  every relationship name, and the same *set* of annotations (`Agree`);
* when no element repeats an annotation, the annotations are the same *multiset*
  (`SameAnnotations`).

Entries are compared as sets by design, `.get(name, [])` reading a missing relationship as one
without entries: a relationship without entries on one side and missing on the other goes
unnoticed (`compareModelXml_empty_relationship`).  Entries are compared as `get_relationships`
records them: a reference by its rendered key, an inline element by its fingerprint.
Annotations are meant to be compared as lists, repeats included, and are not: the annotation
phase reports only when the sets of their strings differ, so an annotation repeated on one side
only goes unnoticed (`diffElement_annotation_multiplicity`).  The soundness theorem therefore
asks that no element repeat an annotation (`AnnotationsDistinct`), and under that condition
gives the multiset.

The file starts with the spec lemmas of the loop pieces of `compare_model_xml`, which the proof
of the cosmetic-change theorem uses too, and what the report and the duplicate keys of
`index_elements` hold.  It ends with the converse, that models which agree compare clean; with
the fact that well-formed documents never make the comparison raise; and with the symmetry of a
clean comparison.
-/

set_option autoImplicit false

namespace DacpacCompare

/-! ## The pieces of `compare_model_xml` -/

theorem sortedByDisplay_perm {ks l : List ElementKey} (h : sortedByDisplay ks = some l) :
    l.Perm ks := by
  unfold sortedByDisplay at h
  split at h
  · cases h
  · cases h
    exact Py.sortOn_perm _ ks

theorem sortedByDisplay_of_isSome {ks : List ElementKey}
    (h : ∀ k ∈ ks, (elementDisplayKey k).isSome) :
    sortedByDisplay ks = some (Py.sortOn (fun k => Py.optKey (elementDisplayKey k)) ks) := by
  rw [sortedByDisplay, if_neg]
  rintro ⟨hany, -⟩
  obtain ⟨k, hk, hnone⟩ := List.any_eq_true.1 hany
  simpa [of_decide_eq_true hnone] using h k hk

/-- Whether a sort by display key raises depends only on the keys, not on their order. -/
theorem sortedByDisplay_isSome_of_perm {ks ks' : List ElementKey} (hp : ks.Perm ks')
    (h : (sortedByDisplay ks).isSome) : (sortedByDisplay ks').isSome := by
  have hany : (ks.any fun k => elementDisplayKey k = none) =
      ks'.any fun k => elementDisplayKey k = none :=
    Bool.eq_iff_iff.2 (by simp only [List.any_eq_true, hp.mem_iff])
  unfold sortedByDisplay at h ⊢
  rw [← hany, ← hp.length_eq]
  split_ifs at h ⊢
  · exact h
  · rfl

theorem diffAt_eq {ia ib : Py.Dict ElementKey Node} {k : ElementKey} {a b : Node}
    (ha : ia.get? k = some a) (hb : ib.get? k = some b) : diffAt ia ib k = diffElement a b := by
  simp [diffAt, ha, hb]

/-- The loop over the common keys keeps nothing exactly when every diff is empty. -/
theorem collectDifferences_eq_some_nil {ia ib : Py.Dict ElementKey Node} {ks : List ElementKey} :
    collectDifferences ia ib ks = some [] ↔ ∀ k ∈ ks, diffAt ia ib k = some [] := by
  induction ks with
  | nil => simp [collectDifferences]
  | cons k ks ih =>
    simp only [collectDifferences, List.mem_cons, forall_eq_or_imp, ← ih]
    cases diffAt ia ib k with
    | none => simp
    | some d =>
      cases collectDifferences ia ib ks with
      | none => simp
      | some rest => by_cases hd : d = [] <;> simp [hd]

/-- **`compare_model_xml`, phase by phase.** -/
theorem compareModelXml_eq_some {A B : Node} {r : ModelResults} :
    compareModelXml A B = some r ↔ ∃ mA mB common,
      A.find (nsTag "Model") = some mA ∧ B.find (nsTag "Model") = some mB ∧
      sortedByDisplay ((indexElements mB).1.keys.filter fun k => k ∉ (indexElements mA).1.keys) =
        some r.elements.missingInRust ∧
      sortedByDisplay ((indexElements mA).1.keys.filter fun k => k ∉ (indexElements mB).1.keys) =
        some r.elements.extraInRust ∧
      sortedByDisplay ((indexElements mA).1.keys.filter fun k => k ∈ (indexElements mB).1.keys) =
        some common ∧
      collectDifferences (indexElements mA).1 (indexElements mB).1 common =
        some r.elements.differences ∧
      r.header = compareHeader (A.find (nsTag "Header")) (B.find (nsTag "Header")) ∧
      r.elements.totalRust = (indexElements mA).1.keys.length ∧
      r.elements.totalDotnet = (indexElements mB).1.keys.length := by
  obtain ⟨header, ⟨missing, extra, differences, totalRust, totalDotnet⟩⟩ := r
  simp only [compareModelXml, Option.bind_eq_bind, Option.bind_eq_some, Option.pure_def,
    Option.some.injEq, ModelResults.mk.injEq, ElementResults.mk.injEq]
  constructor
  · rintro ⟨mA, hA, mB, hB, mi, hmi, ex, hex, co, hco, di, hdi, rfl, rfl, rfl, rfl, rfl, rfl⟩
    exact ⟨mA, mB, co, hA, hB, hmi, hex, hco, hdi, rfl, rfl, rfl⟩
  · rintro ⟨mA, mB, co, hA, hB, hmi, hex, hco, hdi, rfl, rfl, rfl⟩
    exact ⟨mA, hA, mB, hB, _, hmi, _, hex, co, hco, _, hdi, rfl, rfl, rfl, rfl, rfl, rfl⟩

/-! ## The element report -/

theorem mem_keys_indexElements {m : Node} {k : ElementKey} :
    k ∈ (indexElements m).1.keys ↔ k ∈ (m.findall (nsTag "Element")).map elementKey := by
  rw [mem_indexElements_keys, List.mem_map]

/-- The index holds each key once: its size is the number of distinct keys. -/
theorem length_keys_indexElements (m : Node) :
    (indexElements m).1.keys.length = ((m.findall (nsTag "Element")).map elementKey).dedup.length :=
  ((List.perm_ext_iff_of_nodup (indexElements m).1.nodup (List.nodup_dedup _)).2 fun _ =>
    mem_keys_indexElements.trans List.mem_dedup.symm).length_eq

/-- The loop over the common keys keeps exactly the non-empty diffs. -/
theorem mem_collectDifferences {ia ib : Py.Dict ElementKey Node} :
    ∀ {ks : List ElementKey} {ds : List (ElementKey × List String)},
      collectDifferences ia ib ks = some ds → ∀ k d,
        (k, d) ∈ ds ↔ k ∈ ks ∧ d ≠ [] ∧ diffAt ia ib k = some d
  | [], _, h, k, d => by
    cases h
    simp
  | k' :: ks, ds, h, k, d => by
    simp only [collectDifferences, Option.bind_eq_bind, Option.bind_eq_some, Option.pure_def,
      Option.some.injEq] at h
    obtain ⟨d', hd', rest, hrest, rfl⟩ := h
    have ih := mem_collectDifferences hrest k d
    constructor
    · intro hm
      have hm' : (k, d) = (k', d') ∧ d' ≠ [] ∨ (k, d) ∈ rest := by
        split_ifs at hm with h0
        · exact .inr hm
        · exact (List.mem_cons.1 hm).imp (fun h => ⟨h, h0⟩) id
      rcases hm' with ⟨heq, h0⟩ | hm
      · obtain ⟨rfl, rfl⟩ := Prod.mk.inj heq
        exact ⟨.head _, h0, hd'⟩
      · obtain ⟨hk, hne, hdk⟩ := ih.1 hm
        exact ⟨.tail _ hk, hne, hdk⟩
    · rintro ⟨hk, hne, hdk⟩
      rcases List.mem_cons.1 hk with rfl | hk
      · obtain rfl : d' = d := Option.some.inj (hd'.symm.trans hdk)
        rw [if_neg hne]
        exact .head _
      · have hm := ih.2 ⟨hk, hne, hdk⟩
        split_ifs
        exacts [hm, .tail _ hm]

theorem nodup_collectDifferences {ia ib : Py.Dict ElementKey Node} :
    ∀ {ks : List ElementKey} {ds : List (ElementKey × List String)},
      collectDifferences ia ib ks = some ds → ks.Nodup → (ds.map Prod.fst).Nodup
  | [], _, h, _ => by
    cases h
    exact List.nodup_nil
  | k :: ks, ds, h, hnd => by
    simp only [collectDifferences, Option.bind_eq_bind, Option.bind_eq_some, Option.pure_def,
      Option.some.injEq] at h
    obtain ⟨d, hd, rest, hrest, rfl⟩ := h
    have ih := nodup_collectDifferences hrest (List.nodup_cons.1 hnd).2
    split_ifs
    · exact ih
    · refine List.nodup_cons.2 ⟨fun hk => (List.nodup_cons.1 hnd).1 ?_, ih⟩
      obtain ⟨⟨k', d'⟩, hp, rfl⟩ := List.mem_map.1 hk
      exact ((mem_collectDifferences hrest k' d').1 hp).1

/-- **The element report of `compare_model_xml`.**  Missing in rust are the keys of the dotnet
model that the rust model lacks, extra in rust the other way round, each once; the differences are
the keys of both models whose two elements, as the indexes hold them, have a non-empty diff, each
once with that diff; and the totals count distinct keys, a repeated key once. -/
theorem compareModelXml_elements_report {A B mA mB : Node} {r : ModelResults}
    (h : compareModelXml A B = some r) (hmA : A.find (nsTag "Model") = some mA)
    (hmB : B.find (nsTag "Model") = some mB) :
    (∀ k, k ∈ r.elements.missingInRust ↔ k ∈ (mB.findall (nsTag "Element")).map elementKey ∧
      k ∉ (mA.findall (nsTag "Element")).map elementKey) ∧
    (∀ k, k ∈ r.elements.extraInRust ↔ k ∈ (mA.findall (nsTag "Element")).map elementKey ∧
      k ∉ (mB.findall (nsTag "Element")).map elementKey) ∧
    (∀ k d, (k, d) ∈ r.elements.differences ↔ k ∈ (mA.findall (nsTag "Element")).map elementKey ∧
      k ∈ (mB.findall (nsTag "Element")).map elementKey ∧ d ≠ [] ∧
      diffAt (indexElements mA).1 (indexElements mB).1 k = some d) ∧
    r.elements.missingInRust.Nodup ∧ r.elements.extraInRust.Nodup ∧
    (r.elements.differences.map Prod.fst).Nodup ∧
    r.elements.totalRust = ((mA.findall (nsTag "Element")).map elementKey).dedup.length ∧
    r.elements.totalDotnet = ((mB.findall (nsTag "Element")).map elementKey).dedup.length := by
  obtain ⟨mA', mB', common, hA', hB', hmi, hex, hco, hdi, -, htA, htB⟩ := compareModelXml_eq_some.1 h
  obtain rfl : mA = mA' := Option.some.inj (hmA.symm.trans hA')
  obtain rfl : mB = mB' := Option.some.inj (hmB.symm.trans hB')
  have honly : ∀ (m m' : Node) (l : List ElementKey),
      sortedByDisplay ((indexElements m).1.keys.filter fun k => k ∉ (indexElements m').1.keys) =
        some l → ∀ k, k ∈ l ↔ k ∈ (m.findall (nsTag "Element")).map elementKey ∧
          k ∉ (m'.findall (nsTag "Element")).map elementKey := fun m m' l hl k => by
    rw [(sortedByDisplay_perm hl).mem_iff, List.mem_filter, mem_keys_indexElements,
      decide_eq_true_iff, mem_keys_indexElements]
  have hnodup : ∀ (m : Node) (q : ElementKey → Bool) (l : List ElementKey),
      sortedByDisplay ((indexElements m).1.keys.filter q) = some l → l.Nodup := fun m q l hl =>
    (sortedByDisplay_perm hl).nodup_iff.2 ((indexElements m).1.nodup.filter q)
  refine ⟨honly mB mA _ hmi, honly mA mB _ hex, fun k d => ?_, hnodup _ _ _ hmi,
    hnodup _ _ _ hex, nodup_collectDifferences hdi (hnodup _ _ _ hco),
    htA.trans (length_keys_indexElements mA), htB.trans (length_keys_indexElements mB)⟩
  rw [mem_collectDifferences hdi, (sortedByDisplay_perm hco).mem_iff, List.mem_filter,
    mem_keys_indexElements, decide_eq_true_iff, mem_keys_indexElements, and_assoc]

theorem compareModelXml_elements_report_one_each :
    let e := fun n : String => Node.elem (nsTag "Element") [("Type", "SqlTable"), ("Name", n)] []
    let mA := Node.elem (nsTag "Model") [] [e "[dbo].[T1]", e "[dbo].[T2]"]
    let mB := Node.elem (nsTag "Model") [] [e "[dbo].[T2]", e "[dbo].[T3]"]
    ∃ r, compareModelXml (.elem (nsTag "DataSchemaModel") [] [mA])
        (.elem (nsTag "DataSchemaModel") [] [mB]) = some r ∧
      (∀ k, k ∈ r.elements.missingInRust ↔ k ∈ (mB.findall (nsTag "Element")).map elementKey ∧
        k ∉ (mA.findall (nsTag "Element")).map elementKey) ∧
      (∀ k, k ∈ r.elements.extraInRust ↔ k ∈ (mA.findall (nsTag "Element")).map elementKey ∧
        k ∉ (mB.findall (nsTag "Element")).map elementKey) ∧
      (∀ k d, (k, d) ∈ r.elements.differences ↔
        k ∈ (mA.findall (nsTag "Element")).map elementKey ∧
        k ∈ (mB.findall (nsTag "Element")).map elementKey ∧ d ≠ [] ∧
        diffAt (indexElements mA).1 (indexElements mB).1 k = some d) ∧
      r.elements.missingInRust.Nodup ∧ r.elements.extraInRust.Nodup ∧
      (r.elements.differences.map Prod.fst).Nodup ∧
      r.elements.totalRust = ((mA.findall (nsTag "Element")).map elementKey).dedup.length ∧
      r.elements.totalDotnet = ((mB.findall (nsTag "Element")).map elementKey).dedup.length := by
  intro e mA mB
  obtain ⟨r, hr⟩ := Option.isSome_iff_exists.1 (by decide :
    (compareModelXml (.elem (nsTag "DataSchemaModel") [] [mA])
      (.elem (nsTag "DataSchemaModel") [] [mB])).isSome)
  exact ⟨r, hr, compareModelXml_elements_report hr rfl rfl⟩

/-! ### Repeated keys

`index_elements` lists a key as a duplicate each time an element brings a key the index already
has, and then overwrites the index entry.  What the script warns about on its diagnostic stream
and what it drops from the totals are therefore the same elements. -/

/-- Each key is repeated once for every occurrence after the first, counting the keys already
seen as earlier occurrences. -/
theorem count_duplicateKeys (k : ElementKey) : ∀ seen ks : List ElementKey,
    (duplicateKeys seen ks).count k = if k ∈ seen then ks.count k else ks.count k - 1
  | _, [] => by simp [duplicateKeys]
  | seen, k' :: ks => by
    rw [duplicateKeys, List.count_append, count_duplicateKeys k (k' :: seen) ks, List.count_cons]
    by_cases hk' : k' = k
    · subst hk'
      by_cases hk : k' ∈ seen <;> simp [hk]
      omega
    · have h0 : k ∉ (if k' ∈ seen then [k'] else []) := by split_ifs <;> simp [Ne.symm hk']
      by_cases hk : k ∈ seen <;> simp [List.count_eq_zero.2 h0, hk, hk', Ne.symm hk']

/-- The repeated keys and the distinct keys together are the keys, as multisets. -/
theorem duplicateKeys_append_dedup_perm (ks : List ElementKey) :
    (duplicateKeys [] ks ++ ks.dedup).Perm ks := by
  refine List.perm_iff_count.2 fun k => ?_
  rw [List.count_append, count_duplicateKeys, if_neg (List.not_mem_nil k), List.count_dedup]
  split_ifs with hk
  · have := List.count_pos_iff.2 hk
    omega
  · rw [List.count_eq_zero.2 hk]

/-- **The duplicates of `index_elements`.**  Each key is listed once for every element after the
first one with that key, so the duplicates counted in the warning and the size of the index add
up to the number of elements. -/
theorem indexElements_duplicates (m : Node) :
    (∀ k, (indexElements m).2.count k = ((m.findall (nsTag "Element")).map elementKey).count k - 1) ∧
      (indexElements m).2.length + (indexElements m).1.keys.length =
        (m.findall (nsTag "Element")).length := by
  refine ⟨fun k => count_duplicateKeys k [] _, ?_⟩
  rw [length_keys_indexElements, ← List.length_append]
  exact (duplicateKeys_append_dedup_perm _).length_eq.trans (List.length_map _ _)

/-! ## Swapping the sides -/

/-- **Swapping the two documents swaps the two sides of the report.**  What is missing in rust one
way is extra in rust the other, the two totals change places, and the header is silent both ways
or neither. -/
theorem compareModelXml_swap {A B : Node} {r r' : ModelResults} (h : compareModelXml A B = some r)
    (h' : compareModelXml B A = some r') :
    (r'.header = (.ok, []) ↔ r.header = (.ok, [])) ∧
      r'.elements.missingInRust = r.elements.extraInRust ∧
      r'.elements.extraInRust = r.elements.missingInRust ∧
      r'.elements.totalRust = r.elements.totalDotnet ∧
      r'.elements.totalDotnet = r.elements.totalRust := by
  obtain ⟨mA, mB, -, hmA, hmB, hmi, hex, -, -, hhead, htA, htB⟩ := compareModelXml_eq_some.1 h
  obtain ⟨mB', mA', -, hmB', hmA', hmi', hex', -, -, hhead', htB', htA'⟩ :=
    compareModelXml_eq_some.1 h'
  obtain rfl : mA' = mA := Option.some.inj (hmA'.symm.trans hmA)
  obtain rfl : mB' = mB := Option.some.inj (hmB'.symm.trans hmB)
  refine ⟨by rw [hhead, hhead', compareHeader_eq_ok_comm], Option.some.inj (hmi'.symm.trans hex),
    Option.some.inj (hex'.symm.trans hmi), by rw [htB', htB], by rw [htA', htA]⟩

theorem compareModelXml_swap_one_each :
    let doc := fun n : String => Node.elem (nsTag "DataSchemaModel") []
      [.elem (nsTag "Model") [] [.elem (nsTag "Element") [("Type", "SqlTable"), ("Name", n)] []]]
    ∃ r r', compareModelXml (doc "[dbo].[T1]") (doc "[dbo].[T2]") = some r ∧
      compareModelXml (doc "[dbo].[T2]") (doc "[dbo].[T1]") = some r' ∧
      ((r'.header = (.ok, []) ↔ r.header = (.ok, [])) ∧
        r'.elements.missingInRust = r.elements.extraInRust ∧
        r'.elements.extraInRust = r.elements.missingInRust ∧
        r'.elements.totalRust = r.elements.totalDotnet ∧
        r'.elements.totalDotnet = r.elements.totalRust) := by
  intro doc
  obtain ⟨r, hr⟩ := Option.isSome_iff_exists.1
    (by decide : (compareModelXml (doc "[dbo].[T1]") (doc "[dbo].[T2]")).isSome)
  obtain ⟨r', hr'⟩ := Option.isSome_iff_exists.1
    (by decide : (compareModelXml (doc "[dbo].[T2]") (doc "[dbo].[T1]")).isSome)
  exact ⟨r, r', hr, hr', compareModelXml_swap hr hr'⟩

/-! ## Soundness -/

/-- What a silent comparison says of two elements with one key: the same property values, the
same set of entries under every relationship name (a missing relationship has none), and the
same set of annotations. -/
structure Agree (a b : Node) : Prop where
  /-- `get_properties` gives the same value for every name. -/
  properties : ∀ n, (getProperties a).get? n = (getProperties b).get? n
  /-- Every relationship name has the same set of entries on both sides. -/
  relationships : ∀ n e, e ∈ ((getRelationships a).get? n).getD [] ↔
    e ∈ ((getRelationships b).get? n).getD []
  /-- The two sides have the same set of annotations. -/
  annotations : ∃ la lb, getAnnotations a = some la ∧ getAnnotations b = some lb ∧
    ∀ y, y ∈ la ↔ y ∈ lb

theorem eq_of_join_eq {o₁ o₂ : Option (Option String)} (h₁ : o₁ ≠ some none)
    (h₂ : o₂ ≠ some none) (h : o₁.join = o₂.join) : o₁ = o₂ := by
  rcases o₁ with _ | _ | x <;> rcases o₂ with _ | _ | y <;> simp_all

/-- An empty diff of two well-formed elements: they agree. -/
theorem agree_of_diffElement {a b : Node} (ha : ElementOk a) (hb : ElementOk b)
    (h : diffElement a b = some []) : Agree a b := by
  obtain ⟨hp, hr, hann⟩ := diffElement_eq_some_nil h
  exact ⟨fun n => eq_of_join_eq (getProperties_ne_some_none ha.props n)
    (getProperties_ne_some_none hb.props n) (hp n), hr, hann⟩

/-- The two elements have the same annotations, each as many times, as `get_annotations`
records them. -/
def SameAnnotations (a b : Node) : Prop :=
  ∃ la lb, getAnnotations a = some la ∧ getAnnotations b = some lb ∧ la.Perm lb

/-- No element of the first `Model` carries two annotations that `get_annotations` records
alike: the same type and the same properties once the `Disambiguator` is dropped. -/
def AnnotationsDistinct (root : Node) : Prop :=
  ∀ m ∈ root.find (nsTag "Model"), ∀ e ∈ m.findall (nsTag "Element"), ∀ l ∈ getAnnotations e, l.Nodup

instance (root : Node) : Decidable (AnnotationsDistinct root) :=
  @Option.decidableForallMem _ _
    (fun _ => @List.decidableBAll _ _ (fun _ => @Option.decidableForallMem _ _ List.nodupDecidable _) _) _

/-- Without repeated annotations, the same set of annotations is the same multiset. -/
theorem Agree.sameAnnotations {a b : Node} (h : Agree a b)
    (ha : ∀ l ∈ getAnnotations a, l.Nodup) (hb : ∀ l ∈ getAnnotations b, l.Nodup) :
    SameAnnotations a b := by
  obtain ⟨la, lb, hla, hlb, hmem⟩ := h.annotations
  exact ⟨la, lb, hla, hlb, (List.perm_ext_iff_of_nodup (ha la hla) (hb lb hlb)).2 hmem⟩

theorem modelOk_of_docOk {root m : Node} (h : DocOk root) (hm : root.find (nsTag "Model") = some m) :
    ModelOk m := by
  obtain ⟨m', hm', hok⟩ := h
  rw [hm] at hm'
  cases hm'
  exact hok

/-- **A clean comparison of two well-formed models.**  The keys of the two models' elements are
the same, each once on each side, and two elements with one key agree, with the same multiset of
annotations when neither model repeats an annotation on an element. -/
theorem compareModelXml_sound {A B : Node} {r : ModelResults} (hA : DocOk A) (hB : DocOk B)
    (hnA : AnnotationsDistinct A) (hnB : AnnotationsDistinct B)
    (h : compareModelXml A B = some r) (hclean : r.elements.clean) :
    ∃ mA mB, A.find (nsTag "Model") = some mA ∧ B.find (nsTag "Model") = some mB ∧
      ((mA.findall (nsTag "Element")).map elementKey).Perm
        ((mB.findall (nsTag "Element")).map elementKey) ∧
      ∀ a ∈ mA.findall (nsTag "Element"), ∀ b ∈ mB.findall (nsTag "Element"),
        elementKey a = elementKey b → Agree a b ∧ SameAnnotations a b := by
  obtain ⟨mA, mB, common, hmA, hmB, hmi, hex, hco, hdi, -⟩ := compareModelXml_eq_some.1 h
  obtain ⟨hmi0, hex0, hdi0⟩ := hclean
  have okA := modelOk_of_docOk hA hmA
  have okB := modelOk_of_docOk hB hmB
  rw [hmi0] at hmi
  rw [hex0] at hex
  rw [hdi0, collectDifferences_eq_some_nil] at hdi
  have hBA := Py.filter_not_mem_eq_nil.1 (sortedByDisplay_perm hmi).nil_eq.symm
  have hAB := Py.filter_not_mem_eq_nil.1 (sortedByDisplay_perm hex).nil_eq.symm
  refine ⟨mA, mB, hmA, hmB, (List.perm_ext_iff_of_nodup okA.keysDistinct okB.keysDistinct).2
    fun k => ?_, fun a ha b hb hab => ?_⟩
  · have hA' := mem_indexElements_keys mA k
    have hB' := mem_indexElements_keys mB k
    simp only [List.mem_map]
    exact ⟨fun h => hB'.1 (hAB k (hA'.2 h)), fun h => hA'.1 (hBA k (hB'.2 h))⟩
  · have hia := (indexElements_get?_eq_some_iff okA).2 ⟨ha, rfl⟩
    have hib := (indexElements_get?_eq_some_iff okB).2 ⟨hb, hab.symm⟩
    have hk : elementKey a ∈ common := (sortedByDisplay_perm hco).mem_iff.2
      (List.mem_filter.2 ⟨by simp [hia], by simp [hib]⟩)
    have hag := agree_of_diffElement (okA.elements a ha) (okB.elements b hb)
      (diffAt_eq hia hib ▸ hdi _ hk)
    exact ⟨hag, hag.sameAnnotations (hnA mA hmA a ha) (hnB mB hmB b hb)⟩

theorem compareModelXml_sound_one_table :
    let doc := fun t : String => Node.elem (nsTag "DataSchemaModel") []
      [.elem (nsTag "Model") [] [.elem (nsTag "Element") [("Type", t), ("Name", "[dbo].[T]")]
        [.elem (nsTag "Property") [("Name", "IsAnsiNullsOn"), ("Value", "True")] []]]]
    let r : ModelResults := ⟨(.ok, []), ⟨[], [], [], 1, 1⟩⟩
    DocOk (doc "SqlTable") ∧ AnnotationsDistinct (doc "SqlTable") ∧
      compareModelXml (doc "SqlTable") (doc "SqlTable") = some r ∧ r.elements.clean ∧
      ∃ mA mB, (doc "SqlTable").find (nsTag "Model") = some mA ∧
        (doc "SqlTable").find (nsTag "Model") = some mB ∧
        ((mA.findall (nsTag "Element")).map elementKey).Perm
          ((mB.findall (nsTag "Element")).map elementKey) ∧
        ∀ a ∈ mA.findall (nsTag "Element"), ∀ b ∈ mB.findall (nsTag "Element"),
          elementKey a = elementKey b → Agree a b ∧ SameAnnotations a b :=
  have hok : DocOk _ := by decide
  have hn : AnnotationsDistinct _ := by decide
  have h : compareModelXml _ _ = some _ := by decide
  have hc : ElementResults.clean _ := by decide
  ⟨hok, hn, h, hc, compareModelXml_sound hok hok hn hn h hc⟩

/-- A clean comparison does not mean the same relationship names: a relationship without entries
on one side and missing on the other goes unnoticed. -/
theorem compareModelXml_empty_relationship :
    DocOk (.elem (nsTag "DataSchemaModel") [] [.elem (nsTag "Model") []
        [.elem (nsTag "Element") [("Type", "SqlTable"), ("Name", "[dbo].[T]")]
          [.elem (nsTag "Relationship") [("Name", "Columns")] []]]]) ∧
    DocOk (.elem (nsTag "DataSchemaModel") [] [.elem (nsTag "Model") []
        [.elem (nsTag "Element") [("Type", "SqlTable"), ("Name", "[dbo].[T]")] []]]) ∧
    (compareModelXml
        (.elem (nsTag "DataSchemaModel") [] [.elem (nsTag "Model") []
          [.elem (nsTag "Element") [("Type", "SqlTable"), ("Name", "[dbo].[T]")]
            [.elem (nsTag "Relationship") [("Name", "Columns")] []]]])
        (.elem (nsTag "DataSchemaModel") [] [.elem (nsTag "Model") []
          [.elem (nsTag "Element") [("Type", "SqlTable"), ("Name", "[dbo].[T]")] []]])).map
      (fun r => decide r.elements.clean) = some true ∧
    (getRelationships (.elem (nsTag "Element") [("Type", "SqlTable"), ("Name", "[dbo].[T]")]
        [.elem (nsTag "Relationship") [("Name", "Columns")] []])).keys ≠
      (getRelationships (.elem (nsTag "Element") [("Type", "SqlTable"), ("Name", "[dbo].[T]")]
        [])).keys := by
  decide

/-! ## Completeness -/

/-- Two well-formed elements that agree compare empty. -/
theorem diffElement_eq_nil_of_agree {a b : Node} (ha : ElementOk a) (hb : ElementOk b)
    (h : Agree a b) : diffElement a b = some [] := by
  obtain ⟨la, lb, hla, hlb, hann⟩ := h.annotations
  rw [diffElement_eq_some]
  exact ⟨[], [], la, lb,
    diffProperties_eq_some_nil_of_forall (isSome_of_mem_keyUnion
      (none_not_mem_keys_getProperties ha.props) (none_not_mem_keys_getProperties hb.props))
      fun n => by rw [h.properties n],
    diffRelationships_eq_some_nil_of_forall (isSome_of_mem_keyUnion
      (none_not_mem_keys_getRelationships ha.relsNamed)
      (none_not_mem_keys_getRelationships hb.relsNamed)) h.relationships,
    hla, hlb, by rw [(annotationLines_eq_nil_iff la lb).2 hann]; rfl⟩

/-- The keys of a well-formed model all have a display string, so no sort of them raises. -/
theorem sortedByDisplay_isSome_of_modelOk {m : Node} (hok : ModelOk m) {ks : List ElementKey}
    (hks : ∀ k ∈ ks, k ∈ (indexElements m).1.keys) : (sortedByDisplay ks).isSome := by
  rw [sortedByDisplay_of_isSome fun k hk => ?_]
  · rfl
  obtain ⟨e, he, rfl⟩ := (mem_indexElements_keys m k).1 (hks k hk)
  exact elementDisplayKey_isSome (hok.elements e he).typed

/-- Two models whose indexes have the same keys and hold elements that compare empty under each
key compare clean, as long as the common keys can be sorted. -/
theorem compareModelXml_clean_of {A B mA mB : Node} (hA : A.find (nsTag "Model") = some mA)
    (hB : B.find (nsTag "Model") = some mB)
    (hdisp : (sortedByDisplay ((indexElements mA).1.keys.filter fun k =>
      k ∈ (indexElements mB).1.keys)).isSome)
    (hkeys : ∀ k, k ∈ (indexElements mB).1.keys ↔ k ∈ (indexElements mA).1.keys)
    (hdiff : ∀ k ∈ (indexElements mA).1.keys,
      diffAt (indexElements mA).1 (indexElements mB).1 k = some []) :
    ∃ r, compareModelXml A B = some r ∧ r.elements.clean ∧
      r.elements.totalRust = r.elements.totalDotnet := by
  have hmissing : ((indexElements mB).1.keys.filter fun k => k ∉ (indexElements mA).1.keys) = [] :=
    Py.filter_not_mem_eq_nil.2 fun k => (hkeys k).1
  have hextra : ((indexElements mA).1.keys.filter fun k => k ∉ (indexElements mB).1.keys) = [] :=
    Py.filter_not_mem_eq_nil.2 fun k => (hkeys k).2
  have hlen : (indexElements mA).1.keys.length = (indexElements mB).1.keys.length :=
    ((List.perm_ext_iff_of_nodup (indexElements mA).1.nodup (indexElements mB).1.nodup).2
      fun k => (hkeys k).symm).length_eq
  obtain ⟨common, hco⟩ := Option.isSome_iff_exists.1 hdisp
  refine ⟨⟨compareHeader (A.find (nsTag "Header")) (B.find (nsTag "Header")),
    ⟨[], [], [], (indexElements mA).1.keys.length, (indexElements mB).1.keys.length⟩⟩,
    compareModelXml_eq_some.2 ⟨mA, mB, _, hA, hB, by rw [hmissing]; rfl, by rw [hextra]; rfl,
      hco, collectDifferences_eq_some_nil.2 fun k hk =>
        hdiff k (List.mem_of_mem_filter ((sortedByDisplay_perm hco).subset hk)), rfl, rfl, rfl⟩,
    ⟨rfl, rfl, rfl⟩, hlen⟩

/-- **Two well-formed models that agree compare clean.**  When the keys of the two models'
elements are the same and two elements with one key agree, `compare_model_xml` reports nothing
missing, nothing extra and no differing element. -/
theorem compareModelXml_complete {A B mA mB : Node} (hA : DocOk A) (hB : DocOk B)
    (hmA : A.find (nsTag "Model") = some mA) (hmB : B.find (nsTag "Model") = some mB)
    (hkeys : ((mA.findall (nsTag "Element")).map elementKey).Perm
      ((mB.findall (nsTag "Element")).map elementKey))
    (hagree : ∀ a ∈ mA.findall (nsTag "Element"), ∀ b ∈ mB.findall (nsTag "Element"),
      elementKey a = elementKey b → Agree a b) :
    ∃ r, compareModelXml A B = some r ∧ r.elements.clean := by
  have okA := modelOk_of_docOk hA hmA
  have okB := modelOk_of_docOk hB hmB
  have hmem : ∀ m k, k ∈ (indexElements m).1.keys ↔ k ∈ (m.findall (nsTag "Element")).map elementKey :=
    fun m k => by rw [mem_indexElements_keys, List.mem_map]
  have hBA : ∀ k, k ∈ (indexElements mB).1.keys ↔ k ∈ (indexElements mA).1.keys := fun k => by
    rw [hmem, hmem, hkeys.mem_iff]
  obtain ⟨r, hr, hclean, -⟩ := compareModelXml_clean_of hmA hmB
      (sortedByDisplay_isSome_of_modelOk okA fun _ hk => List.mem_of_mem_filter hk) hBA fun k hk => by
    obtain ⟨a, ha⟩ := Option.isSome_iff_exists.1 (Py.Dict.mem_keys.1 hk)
    obtain ⟨b, hb⟩ := Option.isSome_iff_exists.1 (Py.Dict.mem_keys.1 ((hBA k).2 hk))
    obtain ⟨ha', rfl⟩ := (indexElements_get?_eq_some_iff okA).1 ha
    obtain ⟨hb', hbk⟩ := (indexElements_get?_eq_some_iff okB).1 hb
    rw [diffAt_eq ha hb]
    exact diffElement_eq_nil_of_agree (okA.elements a ha') (okB.elements b hb')
      (hagree a ha' b hb' hbk.symm)
  exact ⟨r, hr, hclean⟩

theorem compareModelXml_complete_one_table :
    let e := Node.elem (nsTag "Element") [("Type", "SqlTable"), ("Name", "[dbo].[T]")]
      [.elem (nsTag "Property") [("Name", "IsAnsiNullsOn"), ("Value", "True")] []]
    let doc := Node.elem (nsTag "DataSchemaModel") [] [.elem (nsTag "Model") [] [e]]
    ∃ r, compareModelXml doc doc = some r ∧ r.elements.clean := by
  intro e doc
  have hok : DocOk doc := by decide
  refine compareModelXml_complete hok hok rfl rfl (.refl _)
    (show ∀ a ∈ [e], ∀ b ∈ [e], elementKey a = elementKey b → Agree a b from ?_)
  simp only [List.mem_singleton]
  rintro a rfl b rfl -
  exact ⟨fun _ => rfl, fun _ _ => Iff.rfl, _, _, rfl, rfl, fun _ => Iff.rfl⟩

/-! ## No exception on well-formed documents -/

/-- Two well-formed elements can be compared: no name is `None`, so no sort of names raises, and
their annotations can be read and sorted. -/
theorem diffElement_isSome {a b : Node} (ha : ElementOk a) (hb : ElementOk b) :
    (diffElement a b).isSome := by
  obtain ⟨la, hla⟩ := Option.isSome_iff_exists.1 (getAnnotations_isSome ha.anns)
  obtain ⟨lb, hlb⟩ := Option.isSome_iff_exists.1 (getAnnotations_isSome hb.anns)
  obtain ⟨pl, hp⟩ := Option.isSome_iff_exists.1
    (show (diffProperties (getProperties a) (getProperties b)).isSome by
      rw [diffProperties, Py.sortedKeys_of_forall_isSome (isSome_of_mem_keyUnion
        (none_not_mem_keys_getProperties ha.props) (none_not_mem_keys_getProperties hb.props))]
      rfl)
  obtain ⟨rl, hr⟩ := Option.isSome_iff_exists.1
    (show (diffRelationships (getRelationships a) (getRelationships b)).isSome by
      rw [diffRelationships, Py.sortedKeys_of_forall_isSome (isSome_of_mem_keyUnion
        (none_not_mem_keys_getRelationships ha.relsNamed)
        (none_not_mem_keys_getRelationships hb.relsNamed))]
      rfl)
  exact Option.isSome_iff_exists.2 ⟨_, diffElement_eq_some.2 ⟨pl, rl, la, lb, hp, hr, hla, hlb, rfl⟩⟩

theorem isSome_collectDifferences {ia ib : Py.Dict ElementKey Node} :
    ∀ {ks : List ElementKey}, (∀ k ∈ ks, (diffAt ia ib k).isSome) →
      (collectDifferences ia ib ks).isSome
  | [], _ => rfl
  | k :: ks, h => by
    obtain ⟨d, hd⟩ := Option.isSome_iff_exists.1 (h k (.head _))
    obtain ⟨rest, hrest⟩ := Option.isSome_iff_exists.1
      (isSome_collectDifferences fun k' hk' => h k' (.tail _ hk'))
    simp [collectDifferences, hd, hrest]

/-- **`compare_model_xml` does not raise on well-formed documents.**  Both have a `Model`, every
key has a display string, so none of the three sorts raises, and every common key holds two
well-formed elements, which `diff_element` can compare. -/
theorem compareModelXml_isSome {A B : Node} (hA : DocOk A) (hB : DocOk B) :
    (compareModelXml A B).isSome := by
  obtain ⟨mA, hmA, okA⟩ := hA
  obtain ⟨mB, hmB, okB⟩ := hB
  have hsort : ∀ m, ModelOk m → ∀ p : ElementKey → Bool,
      (sortedByDisplay ((indexElements m).1.keys.filter p)).isSome := fun _ hok _ =>
    sortedByDisplay_isSome_of_modelOk hok fun _ hk => List.mem_of_mem_filter hk
  obtain ⟨missing, hmi⟩ := Option.isSome_iff_exists.1
    (hsort mB okB fun k => k ∉ (indexElements mA).1.keys)
  obtain ⟨extra, hex⟩ := Option.isSome_iff_exists.1
    (hsort mA okA fun k => k ∉ (indexElements mB).1.keys)
  obtain ⟨common, hco⟩ := Option.isSome_iff_exists.1
    (hsort mA okA fun k => k ∈ (indexElements mB).1.keys)
  have hdiff : ∀ k ∈ common, (diffAt (indexElements mA).1 (indexElements mB).1 k).isSome :=
    fun k hk => by
      obtain ⟨hka, hkb⟩ := List.mem_filter.1 ((sortedByDisplay_perm hco).subset hk)
      obtain ⟨a, ha⟩ := Option.isSome_iff_exists.1 (Py.Dict.mem_keys.1 hka)
      obtain ⟨b, hb⟩ := Option.isSome_iff_exists.1 (Py.Dict.mem_keys.1 (of_decide_eq_true hkb))
      rw [diffAt_eq ha hb]
      exact diffElement_isSome (okA.elements a ((indexElements_get?_eq_some_iff okA).1 ha).1)
        (okB.elements b ((indexElements_get?_eq_some_iff okB).1 hb).1)
  obtain ⟨diffs, hdi⟩ := Option.isSome_iff_exists.1 (isSome_collectDifferences hdiff)
  exact Option.isSome_iff_exists.2 ⟨⟨compareHeader (A.find (nsTag "Header")) (B.find (nsTag "Header")),
    ⟨missing, extra, diffs, _, _⟩⟩,
    compareModelXml_eq_some.2 ⟨mA, mB, common, hmA, hmB, hmi, hex, hco, hdi, rfl, rfl, rfl⟩⟩

theorem compareModelXml_isSome_two_tables :
    let doc := fun n : String => Node.elem (nsTag "DataSchemaModel") [] [.elem (nsTag "Model") []
      [.elem (nsTag "Element") [("Type", "SqlTable"), ("Name", n)]
        [.elem (nsTag "Property") [("Name", "IsAnsiNullsOn"), ("Value", "True")] []]]]
    DocOk (doc "[dbo].[T1]") ∧ DocOk (doc "[dbo].[T2]") ∧
      (compareModelXml (doc "[dbo].[T1]") (doc "[dbo].[T2]")).isSome := by
  intro doc
  have hA : DocOk (doc "[dbo].[T1]") := by decide
  have hB : DocOk (doc "[dbo].[T2]") := by decide
  exact ⟨hA, hB, compareModelXml_isSome hA hB⟩

/-! ## Swapping a clean comparison -/

/-- A clean comparison, header included, stays clean with the two documents swapped: nothing is
on one side only, the common keys are the same keys in another order, and each element diff
stays empty (`diffElement_comm_nil`). -/
theorem compareModelXml_clean_comm {A B : Node} {r : ModelResults}
    (h : compareModelXml A B = some r)
    (hhead : r.header.1 = .ok) (hclean : r.elements.clean) :
    ∃ r', compareModelXml B A = some r' ∧ r'.header.1 = .ok ∧ r'.elements.clean := by
  obtain ⟨mA, mB, common, hmA, hmB, hmi, hex, hco, hdi, hh, -, -⟩ := compareModelXml_eq_some.1 h
  obtain ⟨hmi0, hex0, hdi0⟩ := hclean
  have hBA := Py.filter_not_mem_eq_nil.1 (List.nil_perm.1 (sortedByDisplay_perm (hmi0 ▸ hmi)))
  have hAB := Py.filter_not_mem_eq_nil.1 (List.nil_perm.1 (sortedByDisplay_perm (hex0 ▸ hex)))
  have hperm : ((indexElements mA).1.keys.filter fun k => k ∈ (indexElements mB).1.keys).Perm
      ((indexElements mB).1.keys.filter fun k => k ∈ (indexElements mA).1.keys) :=
    (List.perm_ext_iff_of_nodup ((indexElements mA).1.nodup_keys.filter _)
      ((indexElements mB).1.nodup_keys.filter _)).2 fun k => by
        simp only [List.mem_filter, decide_eq_true_eq]
        exact and_comm
  obtain ⟨r', hr', hclean', -⟩ := compareModelXml_clean_of hmB hmA
    (sortedByDisplay_isSome_of_perm hperm (by rw [hco]; rfl)) (fun k => ⟨hAB k, hBA k⟩)
    fun k hk => by
      obtain ⟨a, ha⟩ := Option.isSome_iff_exists.1 (Py.Dict.mem_keys.1 (hBA k hk))
      obtain ⟨b, hb⟩ := Option.isSome_iff_exists.1 (Py.Dict.mem_keys.1 hk)
      have hkc : k ∈ common := (sortedByDisplay_perm hco).mem_iff.2
        (List.mem_filter.2 ⟨hBA k hk, decide_eq_true hk⟩)
      rw [diffAt_eq hb ha]
      exact diffElement_comm_nil
        (diffAt_eq ha hb ▸ collectDifferences_eq_some_nil.1 (hdi0 ▸ hdi) k hkc)
  obtain ⟨_, _, _, -, -, -, -, -, -, hh', -, -⟩ := compareModelXml_eq_some.1 hr'
  refine ⟨r', hr', ?_, hclean'⟩
  rw [hh', compareHeader_fst_eq_ok, compareHeader_eq_ok_comm, ← compareHeader_fst_eq_ok, ← hh]
  exact hhead

end DacpacCompare
