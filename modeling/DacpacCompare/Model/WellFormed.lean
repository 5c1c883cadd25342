import DacpacCompare.Model.Compare

/-!
# Well-formed model documents

What the comparison of two models guarantees is stated for documents that meet a few conditions,
which the packages of both generators meet: every element has a `Type`; every property and every
relationship has a `Name`; every property has a value; names are not repeated within an element
or an annotation; and no two elements of the model share a key.  This file states them, decidably
so that a concrete document can be checked:

* `PropsOk` — the `Property` children of an element or an annotation;
* `ElementOk` — one element of the model;
* `ModelOk` and `DocOk` — the model, and a document that has one.

and derives what the readers make of a well-formed element and model:

* its property names and values are never `None` (`isSome_of_mem_getProperties`), so the sorts
  of property names never raise;
* its annotations can be read and sorted (`getAnnotations_isSome`);
* its key has a display string (`elementDisplayKey_isSome`);
* the index of a well-formed model holds exactly its elements (`indexElements_get?_eq_some_iff`).
-/

set_option autoImplicit false

namespace DacpacCompare

/-! ## The conditions -/

/-- The conditions on the `Property` children `ps` of an element or an annotation. -/
structure PropsOk (ps : List Node) : Prop where
  /-- Every property has a `Name`. -/
  named : ∀ p ∈ ps, (p.get "Name").isSome
  /-- Every property has a `Value` attribute or a `Value` child. -/
  valued : ∀ p ∈ ps, (propValue p).isSome
  /-- No two properties share a name. -/
  distinct : (ps.map fun p => p.get "Name").Nodup

instance (ps : List Node) : Decidable (PropsOk ps) :=
  decidable_of_iff ((∀ p ∈ ps, (p.get "Name").isSome) ∧ (∀ p ∈ ps, (propValue p).isSome) ∧
      (ps.map fun p => p.get "Name").Nodup)
    ⟨fun ⟨a, b, c⟩ => ⟨a, b, c⟩, fun ⟨a, b, c⟩ => ⟨a, b, c⟩⟩

/-- The conditions on one element of the model. -/
structure ElementOk (e : Node) : Prop where
  /-- The element has a `Type`. -/
  typed : (e.get "Type").isSome
  /-- Its properties are named, valued and named once. -/
  props : PropsOk (e.findall (nsTag "Property"))
  /-- Every relationship has a `Name`. -/
  relsNamed : ∀ r ∈ e.findall (nsTag "Relationship"), (r.get "Name").isSome
  /-- No two relationships share a name. -/
  relsDistinct : ((e.findall (nsTag "Relationship")).map fun r => r.get "Name").Nodup
  /-- The properties of every annotation are named, valued and named once. -/
  anns : ∀ a ∈ e.findall (nsTag "AttachedAnnotation"), PropsOk (a.findall (nsTag "Property"))

instance (e : Node) : Decidable (ElementOk e) :=
  decidable_of_iff ((e.get "Type").isSome ∧ PropsOk (e.findall (nsTag "Property")) ∧
      (∀ r ∈ e.findall (nsTag "Relationship"), (r.get "Name").isSome) ∧
      ((e.findall (nsTag "Relationship")).map fun r => r.get "Name").Nodup ∧
      ∀ a ∈ e.findall (nsTag "AttachedAnnotation"), PropsOk (a.findall (nsTag "Property")))
    ⟨fun ⟨a, b, c, d, f⟩ => ⟨a, b, c, d, f⟩, fun ⟨a, b, c, d, f⟩ => ⟨a, b, c, d, f⟩⟩

/-- The conditions on the `Model` of a document. -/
structure ModelOk (m : Node) : Prop where
  /-- Every element is well formed. -/
  elements : ∀ e ∈ m.findall (nsTag "Element"), ElementOk e
  /-- No two elements share a key. -/
  keysDistinct : ((m.findall (nsTag "Element")).map elementKey).Nodup

instance (m : Node) : Decidable (ModelOk m) :=
  decidable_of_iff ((∀ e ∈ m.findall (nsTag "Element"), ElementOk e) ∧
      ((m.findall (nsTag "Element")).map elementKey).Nodup)
    ⟨fun ⟨a, b⟩ => ⟨a, b⟩, fun ⟨a, b⟩ => ⟨a, b⟩⟩

/-- A well-formed model document: it has a `Model`, and the first one is well formed. -/
def DocOk (root : Node) : Prop := ∃ m ∈ root.find (nsTag "Model"), ModelOk m

instance : DecidablePred DocOk := fun root =>
  inferInstanceAs (Decidable (∃ m ∈ root.find (nsTag "Model"), ModelOk m))

theorem PropsOk.perm {ps ps' : List Node} (h : ps.Perm ps') (hok : PropsOk ps) : PropsOk ps' :=
  ⟨fun p hp => hok.named p (h.mem_iff.2 hp), fun p hp => hok.valued p (h.mem_iff.2 hp),
    (h.map _).nodup_iff.1 hok.distinct⟩

/-! ## Properties -/

/-- The pairs `get_properties` assigns, one per `Property` child. -/
theorem getProperties_eq (e : Node) :
    getProperties e = Py.Dict.ofList ((e.findall (nsTag "Property")).map fun p =>
      (p.get "Name", propValue p)) := rfl

/-- Every item of the properties of an element whose properties are named and valued is a name
and a value. -/
theorem isSome_of_mem_getProperties {e : Node} (h : PropsOk (e.findall (nsTag "Property")))
    {x : Option String × Option String} (hx : x ∈ (getProperties e).items) :
    x.1.isSome ∧ x.2.isSome := by
  have hmem := Py.Dict.mem_of_get?_ofList ((getProperties e).get?_eq_some_iff.2 hx)
  obtain ⟨p, hp, hpx⟩ := List.mem_map.1 hmem
  rw [← (Prod.mk.inj hpx).1, ← (Prod.mk.inj hpx).2]
  exact ⟨h.named p hp, h.valued p hp⟩

theorem getProperties_ne_some_none {e : Node} (h : PropsOk (e.findall (nsTag "Property")))
    (n : Option String) : (getProperties e).get? n ≠ some none := fun hn =>
  absurd (isSome_of_mem_getProperties h ((getProperties e).get?_eq_some_iff.1 hn)).2 (by simp)

theorem none_not_mem_keys_getProperties {e : Node} (h : PropsOk (e.findall (nsTag "Property"))) :
    none ∉ (getProperties e).keys := fun hn => by
  obtain ⟨x, hx, hx1⟩ := List.mem_map.1 hn
  simpa [hx1] using (isSome_of_mem_getProperties h hx).1

/-- The pairs `get_relationships` assigns, one per `Relationship` child. -/
theorem getRelationships_eq (e : Node) :
    getRelationships e = Py.Dict.ofList ((e.findall (nsTag "Relationship")).map fun rel =>
      (rel.get "Name", (rel.findall (nsTag "Entry")).filterMap entryOf)) := rfl

theorem none_not_mem_keys_getRelationships {e : Node}
    (h : ∀ r ∈ e.findall (nsTag "Relationship"), (r.get "Name").isSome) :
    none ∉ (getRelationships e).keys := by
  rw [getRelationships_eq, Py.Dict.mem_keys_ofList]
  intro hn
  simp only [List.map_map, List.mem_map, Function.comp_apply] at hn
  obtain ⟨r, hr, hrn⟩ := hn
  simpa [hrn] using h r hr

/-- With distinct names, the properties of an element are its pairs, in any order. -/
theorem getProperties_get?_perm {e e' : Node} (h : PropsOk (e.findall (nsTag "Property")))
    (hp : (e.findall (nsTag "Property")).Perm (e'.findall (nsTag "Property"))) (n : Option String) :
    (getProperties e).get? n = (getProperties e').get? n :=
  Py.Dict.get?_ofList_perm (by simpa [Function.comp_def] using h.distinct) (hp.map _) n

/-! ## Annotations -/

theorem itemsComparable_of_isSome {xs ys : List Item} (hx : ∀ x ∈ xs, x.1.isSome ∧ x.2.isSome)
    (hy : ∀ y ∈ ys, y.1.isSome ∧ y.2.isSome) : itemsComparable xs ys = true := by
  induction xs generalizing ys with
  | nil => cases ys <;> rfl
  | cons x xs ih =>
    cases ys with
    | nil => rfl
    | cons y ys =>
      simp only [List.mem_cons, forall_eq_or_imp] at hx hy
      by_cases hxy : x = y
      · simpa [itemsComparable, hxy] using ih hx.2 hy.2
      · simp [itemsComparable, hxy, itemComparable, hx.1, hy.1]

/-- The annotation of an element read from properties that are named and valued: its items are
names and values. -/
theorem annOf_eq_some {a : Node} (h : PropsOk (a.findall (nsTag "Property"))) :
    ∃ y, annOf a = some y ∧ ∀ x ∈ y.2, x.1.isSome ∧ x.2.isSome := by
  have hitems : ∀ x ∈ (annProps a).items, x.1.isSome ∧ x.2.isSome := fun x hx =>
    isSome_of_mem_getProperties h (List.mem_of_mem_filter hx)
  have hnone : none ∉ (annProps a).keys := fun hn => by
    obtain ⟨x, hx, hx1⟩ := List.mem_map.1 hn
    simpa [hx1] using (hitems x hx).1
  refine ⟨_, by rw [annOf, sortedItems, if_neg fun h => hnone h.1]; rfl, fun x hx => ?_⟩
  exact hitems x ((Py.mem_sortOn _).1 hx)

/-- **The annotations of a well-formed element can be read and sorted.** -/
theorem getAnnotations_isSome {e : Node}
    (h : ∀ a ∈ e.findall (nsTag "AttachedAnnotation"), PropsOk (a.findall (nsTag "Property"))) :
    (getAnnotations e).isSome := by
  have hall : ∀ a ∈ e.findall (nsTag "AttachedAnnotation"), (annOf a).isSome := fun a ha => by
    obtain ⟨y, hy, -⟩ := annOf_eq_some (h a ha)
    simp [hy]
  obtain ⟨ys, hys⟩ := Option.isSome_iff_exists.1 (Py.isSome_mapM_iff.2 hall)
  have hitems : ∀ y ∈ ys, ∀ x ∈ y.2, x.1.isSome ∧ x.2.isSome := fun y hy => by
    obtain ⟨a, ha, hay⟩ := List.mem_filterMap.1 ((Py.mapM_eq_some_iff.1 hys).2 ▸ hy)
    obtain ⟨y', hy', hx⟩ := annOf_eq_some (h a ha)
    rw [hay] at hy'
    cases hy'
    exact hx
  rw [getAnnotations, hys, Option.some_bind, sortAnns, if_pos]
  · rfl
  · exact List.pairwise_of_forall_mem_list fun a ha b hb => by
      simp [annComparable, itemsComparable_of_isSome (hitems a ha) (hitems b hb)]

/-! ## Keys and the index -/

/-- The key of a typed element has a display string. -/
theorem elementDisplayKey_isSome {e : Node} (h : (e.get "Type").isSome) :
    (elementDisplayKey (elementKey e)).isSome := by
  unfold elementKey
  split
  · rfl
  · split <;> first | rfl | exact h

theorem mem_indexElements_keys (m : Node) (k : ElementKey) :
    k ∈ (indexElements m).1.keys ↔ ∃ e ∈ m.findall (nsTag "Element"), elementKey e = k := by
  rw [indexElements, Py.Dict.mem_keys_ofList]
  simp

/-- **The index of a well-formed model holds exactly its elements, each under its key.** -/
theorem indexElements_get?_eq_some_iff {m : Node} (h : ModelOk m) {k : ElementKey} {e : Node} :
    (indexElements m).1.get? k = some e ↔ e ∈ m.findall (nsTag "Element") ∧ elementKey e = k := by
  rw [indexElements, Py.Dict.get?_ofList_eq_some_iff (by simpa [Function.comp_def] using h.keysDistinct)]
  simp only [List.mem_map, Prod.mk.injEq]
  exact ⟨fun ⟨e', he', hk, he⟩ => he ▸ ⟨he', hk⟩, fun ⟨he, hk⟩ => ⟨e, he, hk, rfl⟩⟩

end DacpacCompare
