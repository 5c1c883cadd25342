import DacpacCompare.Model.Cosmetic

/-!
# A model compares clean against its cosmetic variants

`ModelStep` is one change to a `Model`: its children reordered, or a cosmetic change inside one
of its elements.  `DocStep` is one change to a document, made to one of its children.  Any run of
them from a well-formed document gives a document that `compare_model_xml` reports identical to
it, with as many elements on each side (`compareModelXml_cosmetic`); the empty run is
reflexivity.

The proof carries one relation along the run: the two indexes hold, under every key, elements
with the same view (`IndexRel`).  A step keeps it and keeps the model well formed
(`ModelStep.preserves`), so a run does (`ModelStep.run_preserves`), and related indexes compare
clean (`compareModelXml_of_indexRel`).
-/

set_option autoImplicit false

namespace DacpacCompare

/-! ## Changes to the model and the document -/

/-- One change to a `Model`. -/
inductive ModelStep : Node → Node → Prop
  /-- Reorder the children of the model. -/
  | permElements {m : Node} {cs : List Node} (h : m.children.Perm cs) :
      ModelStep m (m.setChildren cs)
  /-- Make a cosmetic change inside one of its elements. -/
  | element {m e e' : Node} {pre post : List Node} (hm : m.children = pre ++ e :: post)
      (h : Cosmetic .top e e') : ModelStep m (m.setChildren (pre ++ e' :: post))

/-- One change to a document, made to one of its children. -/
inductive DocStep : Node → Node → Prop
  | model {root m m' : Node} {pre post : List Node} (hroot : root.children = pre ++ m :: post)
      (h : ModelStep m m') : DocStep root (root.setChildren (pre ++ m' :: post))

theorem ModelStep.tag_eq {m m' : Node} (h : ModelStep m m') : m'.tag = m.tag := by
  cases h <;> rfl

theorem ModelStep.run_tag_eq {m m' : Node} (h : Relation.ReflTransGen ModelStep m m') :
    m'.tag = m.tag := by
  induction h with
  | refl => rfl
  | tail _ hs ih => exact hs.tag_eq.trans ih

/-! ## The indexes along a run -/

/-- The two indexes hold, under every key, elements with one view. -/
def IndexRel (m m' : Node) : Prop :=
  ∀ k, Option.Rel SameView ((indexElements m).1.get? k) ((indexElements m').1.get? k)

theorem indexElements_eq (m : Node) :
    (indexElements m).1 =
      Py.Dict.ofList ((m.findall (nsTag "Element")).map fun e => (elementKey e, e)) := rfl

/-- **One change to a well-formed model keeps it well formed and its index related.** -/
theorem ModelStep.preserves {m m' : Node} (h : ModelStep m m') (hok : ModelOk m) :
    ModelOk m' ∧ IndexRel m m' := by
  cases h with
  | @permElements cs h =>
    have hf : (m.findall (nsTag "Element")).Perm ((m.setChildren cs).findall (nsTag "Element")) :=
      h.filter _
    refine ⟨⟨fun e he => hok.elements e (hf.mem_iff.2 he), (hf.map _).nodup_iff.1 hok.keysDistinct⟩,
      fun k => ?_⟩
    rw [indexElements_eq, indexElements_eq, Py.Dict.get?_ofList_perm
      (by simpa [Function.comp_def] using hok.keysDistinct) (hf.map _) k]
    exact rel_refl_of SameView.refl _
  | @element e e' pre post hm h =>
    have hview : e.tag = nsTag "Element" → SameView e e' ∧ ElementOk e' := fun ht =>
      h.sameView (hok.elements e (mem_findall_of_children hm ht))
    have htag := h.tag_eq
    refine ⟨⟨fun x hx₀ => ?_, ?_⟩, fun k => ?_⟩
    · rcases mem_findall_replace hm hx₀ with rfl | hx
      · exact (hview (htag ▸ of_decide_eq_true (List.mem_filter.1 hx₀).2)).2
      · exact hok.elements x hx
    · rw [map_findall_replace (d := e') hm htag fun ht => (hview ht).1.key]
      exact hok.keysDistinct
    · rw [indexElements_eq, indexElements_eq]
      refine Py.Dict.get?_ofList_rel ?_ k
      rw [Node.findall, Node.findall, hm, Node.children_setChildren]
      exact forall₂_map_filter_replace
        (R := fun (p q : ElementKey × Node) => p.1 = q.1 ∧ SameView p.2 q.2)
        (fun _ => ⟨rfl, .refl _⟩) pre post (by simp [htag]) fun hpe =>
          have hv := hview (by simpa using hpe)
          ⟨hv.1.key.symm, hv.1⟩

theorem ModelStep.run_preserves {m m' : Node} (h : Relation.ReflTransGen ModelStep m m')
    (hok : ModelOk m) : ModelOk m' ∧ IndexRel m m' := by
  induction h with
  | refl => exact ⟨hok, fun _ => rel_refl_of SameView.refl _⟩
  | tail _ hs ih =>
    obtain ⟨hok', hrel⟩ := ih
    obtain ⟨hok'', hrel'⟩ := hs.preserves hok'
    exact ⟨hok'', fun k =>
      rel_trans_of (R := SameView) (fun _ _ _ => SameView.trans) (hrel k) (hrel' k)⟩

/-- A change to a document changes its `Model` by a model step, or not at all. -/
theorem DocStep.find_model {M M' : Node} (h : DocStep M M') :
    Option.Rel (Relation.ReflTransGen ModelStep) (M.find (nsTag "Model"))
      (M'.find (nsTag "Model")) := by
  cases h with
  | @model m m' pre post hroot hs =>
  have hcs : List.Forall₂ (Relation.ReflTransGen ModelStep) (pre ++ m :: post) (pre ++ m' :: post) :=
    List.rel_append (List.forall₂_same.2 fun _ _ => .refl)
      (.cons (.single hs) (List.forall₂_same.2 fun _ _ => .refl))
  have := Py.Dict.find?_map_rel (f := id) (g := id)
    (p := fun c : Node => decide (c.tag = nsTag "Model"))
    (q := fun c : Node => decide (c.tag = nsTag "Model")) hcs
    (fun _ _ hab => by simp only [ModelStep.run_tag_eq hab]) fun _ _ hab => hab
  simpa [Node.find, hroot] using this

theorem DocStep.run_find_model {M M' : Node} (h : Relation.ReflTransGen DocStep M M') :
    Option.Rel (Relation.ReflTransGen ModelStep) (M.find (nsTag "Model"))
      (M'.find (nsTag "Model")) := by
  induction h with
  | refl => exact rel_refl_of (fun _ => .refl) _
  | tail _ hs ih =>
    exact rel_trans_of (R := Relation.ReflTransGen ModelStep) (fun _ _ _ => Relation.ReflTransGen.trans)
      ih hs.find_model

/-! ## Clean comparison -/

theorem IndexRel.mem_keys {m m' : Node} (h : IndexRel m m') (k : ElementKey) :
    k ∈ (indexElements m').1.keys ↔ k ∈ (indexElements m).1.keys := by
  simp only [Py.Dict.mem_keys, isSome_eq_of_rel (h k)]

/-- Under a key of the first index, related indexes hold elements that compare empty. -/
theorem IndexRel.diffAt_eq_nil {m m' : Node} (h : IndexRel m m') (hok : ModelOk m) {k : ElementKey}
    (hk : k ∈ (indexElements m).1.keys) : diffAt (indexElements m).1 (indexElements m').1 k = some [] := by
  obtain ⟨a, ha⟩ := Option.isSome_iff_exists.1 (Py.Dict.mem_keys.1 hk)
  have hrel := h k
  rw [ha] at hrel
  rcases hb : (indexElements m').1.get? k with _ | b <;> rw [hb] at hrel <;> cases hrel
  rw [diffAt_eq ha hb]
  exact diffElement_of_sameView (hok.elements a ((indexElements_get?_eq_some_iff hok).1 ha).1) ‹_›

/-- Two models whose indexes are related, the first well formed, compare clean. -/
theorem compareModelXml_of_indexRel {A B m m' : Node} (hA : A.find (nsTag "Model") = some m)
    (hB : B.find (nsTag "Model") = some m') (hok : ModelOk m) (hidx : IndexRel m m') :
    ∃ r, compareModelXml A B = some r ∧ r.elements.clean ∧
      r.elements.totalRust = r.elements.totalDotnet :=
  compareModelXml_clean_of hA hB
    (sortedByDisplay_isSome_of_modelOk hok fun _ hk => List.mem_of_mem_filter hk) hidx.mem_keys
    fun _ hk => hidx.diffAt_eq_nil hok hk

/-- A well-formed document compared with itself is clean, header included. -/
theorem compareModelXml_self {A : Node} (hA : DocOk A) :
    ∃ r, compareModelXml A A = some r ∧ r.header.1 = .ok ∧ r.elements.clean := by
  obtain ⟨m, hm, hok⟩ := hA
  obtain ⟨r, hr, hclean, -⟩ :=
    compareModelXml_of_indexRel hm hm hok fun k => rel_refl_of SameView.refl _
  obtain ⟨-, -, -, -, -, -, -, -, -, hhead, -⟩ := compareModelXml_eq_some.1 hr
  exact ⟨r, hr, by rw [hhead, compareHeader_self], hclean⟩

/-- **Cosmetic changes go unnoticed.**  Any run of changes from a well-formed document gives a
document that `compare_model_xml` reports identical to it: nothing missing, nothing extra, no
differing element, and as many elements on each side. -/
theorem compareModelXml_cosmetic {M M' : Node} (hM : DocOk M)
    (hrun : Relation.ReflTransGen DocStep M M') :
    ∃ r, compareModelXml M M' = some r ∧ r.elements.clean ∧
      r.elements.totalRust = r.elements.totalDotnet := by
  obtain ⟨m, hm, hok⟩ := hM
  have hrel := DocStep.run_find_model hrun
  rw [Option.mem_def.1 hm] at hrel
  rcases hm' : M'.find (nsTag "Model") with _ | m' <;> rw [hm'] at hrel <;> cases hrel
  exact compareModelXml_of_indexRel (Option.mem_def.1 hm) hm' hok
    (ModelStep.run_preserves ‹_› hok).2

/-- Two elements of a model swapped, then the two properties of one of them. -/
theorem compareModelXml_cosmetic_swap :
    let t := fun ps : List Node => Node.elem (nsTag "Element")
      [("Type", "SqlTable"), ("Name", "[dbo].[T]")] ps
    let v := Node.elem (nsTag "Element") [("Type", "SqlView"), ("Name", "[dbo].[V]")] []
    let p := Node.elem (nsTag "Property") [("Name", "IsAnsiNullsOn"), ("Value", "True")] []
    let q := Node.elem (nsTag "Property") [("Name", "IsMemoryOptimized"), ("Value", "False")] []
    let doc := fun cs : List Node =>
      Node.elem (nsTag "DataSchemaModel") [] [.elem (nsTag "Model") [] cs]
    DocOk (doc [t [p, q], v]) ∧ Relation.ReflTransGen DocStep (doc [t [p, q], v]) (doc [v, t [q, p]]) ∧
      ∃ r, compareModelXml (doc [t [p, q], v]) (doc [v, t [q, p]]) = some r ∧ r.elements.clean ∧
        r.elements.totalRust = r.elements.totalDotnet :=
  by
  intro t v p q doc
  have hok : DocOk (doc [t [p, q], v]) := by decide
  have h₁ : DocStep (doc [t [p, q], v]) (doc [v, t [p, q]]) :=
    @DocStep.model _ (.elem (nsTag "Model") [] [t [p, q], v]) (.elem (nsTag "Model") [] [v, t [p, q]])
      [] [] rfl (.permElements (.swap _ _ []))
  have h₂ : DocStep (doc [v, t [p, q]]) (doc [v, t [q, p]]) :=
    @DocStep.model _ (.elem (nsTag "Model") [] [v, t [p, q]]) (.elem (nsTag "Model") [] [v, t [q, p]])
      [] [] rfl (@ModelStep.element _ (t [p, q]) (t [q, p]) [v] [] rfl (.permChildren (.swap _ _ [])))
  have hrun := Relation.ReflTransGen.tail (.single h₁) h₂
  exact ⟨hok, hrun, compareModelXml_cosmetic hok hrun⟩

/-- Reordering the entries of a relationship that `element_key` reads changes the key of an
element without a `Name`: the element is reported missing under its old key and extra under its
new one. -/
theorem compareModelXml_key_entry_order :
    DocOk (.elem (nsTag "DataSchemaModel") [] [.elem (nsTag "Model") []
      [.elem (nsTag "Element") [("Type", "SqlDefaultConstraint")]
        [.elem (nsTag "Relationship") [("Name", "DefiningTable")]
          [.elem (nsTag "Entry") [] [.elem (nsTag "References") [("Name", "[dbo].[T1]")] []],
            .elem (nsTag "Entry") [] [.elem (nsTag "References") [("Name", "[dbo].[T2]")] []]]]]]) ∧
    (compareModelXml
        (.elem (nsTag "DataSchemaModel") [] [.elem (nsTag "Model") []
          [.elem (nsTag "Element") [("Type", "SqlDefaultConstraint")]
            [.elem (nsTag "Relationship") [("Name", "DefiningTable")]
              [.elem (nsTag "Entry") [] [.elem (nsTag "References") [("Name", "[dbo].[T1]")] []],
                .elem (nsTag "Entry") [] [.elem (nsTag "References") [("Name", "[dbo].[T2]")] []]]]]])
        (.elem (nsTag "DataSchemaModel") [] [.elem (nsTag "Model") []
          [.elem (nsTag "Element") [("Type", "SqlDefaultConstraint")]
            [.elem (nsTag "Relationship") [("Name", "DefiningTable")]
              [.elem (nsTag "Entry") [] [.elem (nsTag "References") [("Name", "[dbo].[T2]")] []],
                .elem (nsTag "Entry") [] [.elem (nsTag "References") [("Name", "[dbo].[T1]")] []]]]]])).map
      (fun r => (r.elements.missingInRust.length, r.elements.extraInRust.length)) = some (1, 1) := by
  decide

end DacpacCompare
