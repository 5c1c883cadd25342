import DacpacCompare.Model.Soundness

/-!
# Cosmetic changes

Two packages built from one schema differ in ways the comparison is meant not to notice: the
order elements are written in, the order of their properties, relationships, entries and
annotations, and the sequence numbers the builds give annotations (`Disambiguator`).  `Cosmetic`
is one such change inside an element, `ModelStep` and `DocStep` lift it to the model and the
document, and a run of them is any sequence of changes.

The theorem is that a run from a well-formed document compares clean against it
(`compareModelXml_cosmetic`).  Its proof follows the layers of the comparison:

* `Cosmetic.fingerprint_eq` — a change inside an inline element keeps its fingerprint;
* `Cosmetic.sameView` — a change inside an element of the model keeps everything
  `diff_element` reads, up to the order of relationship entries (`SameView`), and keeps the
  element well formed;
* `diffElement_of_sameView` — two such elements compare empty;
* `ModelStep.indexRel` and its run — the two indexes hold related elements under the same keys.

Two changes are left out because the script does notice them.  `element_key` reads the *first*
entry of `DefiningTable`, `ForColumn` and `DefiningColumn`, so reordering the entries of these
relationships in an element without a `Name` changes its key (`compareModelXml_key_entry_order`).
And the fingerprint of an inline element renders an annotation's properties through the `repr` of
a dict, which follows document order, so reordering the properties of an annotation inside an
inline element changes the fingerprint (`inlineElementFingerprint_annotation_order`).
-/

set_option autoImplicit false

namespace DacpacCompare

/-! ## The changes -/

/-- Where an element sits: in the model, or inline in a relationship entry. -/
inductive Place
  | top
  | inline
  deriving DecidableEq

/-- The relationships whose first entry `element_key` reads for an element without a `Name`. -/
def keyRelationships : List String := ["DefiningTable", "ForColumn", "DefiningColumn"]

/-- A `Disambiguator` property with a value. -/
structure IsDisambiguator (p : Node) : Prop where
  tag : p.tag = nsTag "Property"
  name : p.get "Name" = some "Disambiguator"
  valued : (propValue p).isSome

/-- One cosmetic change inside the element `e`, which sits at `pl`. -/
inductive Cosmetic : Place → Node → Node → Prop
  /-- Reorder the children of the element: its properties, relationships and annotations. -/
  | permChildren {pl : Place} {e : Node} {cs : List Node} (h : e.children.Perm cs) :
      Cosmetic pl e (e.setChildren cs)
  /-- Reorder the entries of one relationship; in an element of the model without a `Name`, not
  of a relationship `element_key` reads. -/
  | permEntries {pl : Place} {e r : Node} {pre post es : List Node}
      (he : e.children = pre ++ r :: post) (hr : r.tag = nsTag "Relationship")
      (hkey : pl = .top → e.get "Name" = none → ∀ n ∈ keyRelationships, r.get "Name" ≠ some n)
      (h : r.children.Perm es) :
      Cosmetic pl e (e.setChildren (pre ++ r.setChildren es :: post))
  /-- Reorder the properties of one annotation of an element of the model. -/
  | permAnnotation {e a : Node} {pre post ps : List Node}
      (he : e.children = pre ++ a :: post) (ha : a.tag = nsTag "AttachedAnnotation")
      (h : a.children.Perm ps) :
      Cosmetic .top e (e.setChildren (pre ++ a.setChildren ps :: post))
  /-- Change the `Disambiguator` property of one annotation. -/
  | disambiguator {pl : Place} {e a p p' : Node} {pre post pre' post' : List Node}
      (he : e.children = pre ++ a :: post) (ha : a.tag = nsTag "AttachedAnnotation")
      (hp : a.children = pre' ++ p :: post') (hd : IsDisambiguator p) (hd' : IsDisambiguator p') :
      Cosmetic pl e (e.setChildren (pre ++ a.setChildren (pre' ++ p' :: post') :: post))
  /-- Change the inline element of one entry of one relationship. -/
  | inline {pl : Place} {e r en i i' : Node} {pre post pre₁ post₁ pre₂ post₂ : List Node}
      (he : e.children = pre ++ r :: post) (hr : r.tag = nsTag "Relationship")
      (hr' : r.children = pre₁ ++ en :: post₁) (hen : en.tag = nsTag "Entry")
      (hen' : en.children = pre₂ ++ i :: post₂) (hi : i.tag = nsTag "Element")
      (h : Cosmetic .inline i i') :
      Cosmetic pl e (e.setChildren
        (pre ++ r.setChildren (pre₁ ++ en.setChildren (pre₂ ++ i' :: post₂) :: post₁) :: post))

theorem Cosmetic.tag_eq {pl : Place} {e e' : Node} (h : Cosmetic pl e e') : e'.tag = e.tag := by
  cases h <;> rfl

theorem Cosmetic.get_eq {pl : Place} {e e' : Node} (h : Cosmetic pl e e') (k : String) :
    e'.get k = e.get k := by
  cases h <;> rfl

/-! ## Replacing one child -/

section Replace

variable {e c d : Node} {pre post : List Node}

theorem findall_replace_of_ne (he : e.children = pre ++ c :: post) (htag : d.tag = c.tag)
    {t : String} (ht : c.tag ≠ t) : (e.setChildren (pre ++ d :: post)).findall t = e.findall t := by
  simp [Node.findall, he, List.filter_append, List.filter_cons, htag, ht]

theorem map_findall_replace {α : Type} (he : e.children = pre ++ c :: post) (htag : d.tag = c.tag)
    {t : String} {f : Node → α} (hf : c.tag = t → f d = f c) :
    ((e.setChildren (pre ++ d :: post)).findall t).map f = (e.findall t).map f := by
  rw [Node.findall, Node.findall, he]
  exact map_filter_replace pre post (by simp [htag]) fun h => hf (by simpa using h)

theorem filterMap_findall_replace {α : Type} (he : e.children = pre ++ c :: post)
    (htag : d.tag = c.tag) {t : String} {f : Node → Option α} (hf : c.tag = t → f d = f c) :
    ((e.setChildren (pre ++ d :: post)).findall t).filterMap f = (e.findall t).filterMap f := by
  rw [Node.findall, Node.findall, he]
  exact filterMap_filter_replace pre post (by simp [htag]) fun h => hf (by simpa using h)

theorem mem_findall_replace (he : e.children = pre ++ c :: post) {t : String} {x : Node}
    (hx : x ∈ (e.setChildren (pre ++ d :: post)).findall t) : x = d ∨ x ∈ e.findall t := by
  rw [Node.findall, he]
  exact mem_filter_replace hx

end Replace

/-! ## Entries and the fingerprint -/

/-- `get_ref_name` as a chain of searches. -/
theorem getRefName_eq (e : Node) (relName : String) :
    getRefName e relName =
      (e.children.find? fun c => c.tag = nsTag "Relationship" ∧ c.get "Name" = some relName).bind
        fun rel => (rel.find (nsTag "Entry")).bind fun entry =>
          (entry.find (nsTag "References")).bind fun ref => ref.get "Name" := rfl

section InlineEntry

variable {en i i' : Node} {pre post : List Node}

/-- An entry whose inline element is replaced by one of the same tag and fingerprint keeps its
reference, and the fingerprint of its inline element. -/
theorem find_references_replace (hen : en.children = pre ++ i :: post)
    (hi : i.tag = nsTag "Element") (htag : i'.tag = i.tag) :
    (en.setChildren (pre ++ i' :: post)).find (nsTag "References") = en.find (nsTag "References") := by
  simpa [Node.find, hen] using find?_map_replace (f := id) pre post (by simp [htag])
    (fun h => by simp [hi] at h)

theorem entryPart'_replace (n : Option String) (hen : en.children = pre ++ i :: post)
    (hi : i.tag = nsTag "Element") (htag : i'.tag = i.tag)
    (hfp : inlineElementFingerprint i' = inlineElementFingerprint i) :
    entryPart' n (en.setChildren (pre ++ i' :: post)) = entryPart' n en := by
  unfold entryPart'
  rw [find_references_replace hen hi htag]
  split
  · rfl
  · simp only [Node.find, Node.children_setChildren, hen]
    exact find?_map_replace pre post (by simp [htag]) fun _ => by rw [hfp]

theorem entryOf_replace (hen : en.children = pre ++ i :: post) (hi : i.tag = nsTag "Element")
    (htag : i'.tag = i.tag) (hfp : inlineElementFingerprint i' = inlineElementFingerprint i) :
    entryOf (en.setChildren (pre ++ i' :: post)) = entryOf en := by
  unfold entryOf
  rw [find_references_replace hen hi htag]
  split
  · rfl
  · simp only [Node.find, Node.children_setChildren, hen]
    exact find?_map_replace pre post (by simp [htag]) fun _ => by rw [hfp]

end InlineEntry

/-! ### The fingerprint -/

theorem relParts_singleton (c : Node) : relParts [c] =
    if c.tag = nsTag "Relationship" then (c.findall (nsTag "Entry")).filterMap (entryPart' (c.get "Name"))
    else [] := by
  by_cases h : c.tag = nsTag "Relationship" <;> simp [relParts_eq, h]

theorem relParts_replace {c c' : Node} (pre post : List Node)
    (h : (relParts [c']).Perm (relParts [c])) :
    (relParts (pre ++ c' :: post)).Perm (relParts (pre ++ c :: post)) := by
  rw [← List.singleton_append, ← List.singleton_append (l := post), relParts_append, relParts_append,
    relParts_append, relParts_append]
  exact (h.append_right _).append_left _

theorem relParts_replace_of_ne {c c' : Node} (pre post : List Node)
    (hc : c.tag ≠ nsTag "Relationship") (htag : c'.tag = c.tag) :
    relParts (pre ++ c' :: post) = relParts (pre ++ c :: post) := by
  simp [relParts_eq, List.filter_append, List.filter_cons, htag, hc]

/-- The fingerprint reads an element through its type and three lists it sorts. -/
theorem inlineElementFingerprint_congr {e e' : Node} (htype : e'.get "Type" = e.get "Type")
    (hp : ((e'.findall (nsTag "Property")).map propPart).Perm
      ((e.findall (nsTag "Property")).map propPart))
    (hr : (relParts e'.children).Perm (relParts e.children))
    (ha : ((e'.findall (nsTag "AttachedAnnotation")).map annPart).Perm
      ((e.findall (nsTag "AttachedAnnotation")).map annPart)) :
    inlineElementFingerprint e' = inlineElementFingerprint e := by
  obtain ⟨t, a, x, cs⟩ := e
  obtain ⟨t', a', x', cs'⟩ := e'
  simp only [Node.children_mk] at hr
  rw [inlineElementFingerprint, inlineElementFingerprint, htype,
    Py.sortOn_eq_of_perm _ Py.strKey_injective hp, Py.sortOn_eq_of_perm _ Py.strKey_injective hr,
    Py.sortOn_eq_of_perm _ Py.strKey_injective ha]

/-- A new value for the `Disambiguator` of an annotation leaves what the script keeps of its
properties. -/
theorem annProps_disambiguator {a p p' : Node} {pre post : List Node}
    (hp : a.children = pre ++ p :: post) (hd : IsDisambiguator p) (hd' : IsDisambiguator p') :
    annProps (a.setChildren (pre ++ p' :: post)) = annProps a := by
  simp only [annProps, getProperties_eq, Py.Dict.pop_ofList, List.filter_map]
  rw [Node.findall, Node.findall, hp, List.filter_filter, List.filter_filter]
  congr 1
  exact map_filter_replace pre post (by simp [hd.name, hd'.name]) fun h => by simp [hd.name] at h

/-- Replacing one relationship of an element by one whose entries read the same, up to order,
keeps the fingerprint. -/
theorem inlineElementFingerprint_replace_relationship {e r r' : Node} {pre post : List Node}
    (he : e.children = pre ++ r :: post) (hr : r.tag = nsTag "Relationship") (htag : r'.tag = r.tag)
    (h : ((r'.findall (nsTag "Entry")).filterMap (entryPart' (r'.get "Name"))).Perm
      ((r.findall (nsTag "Entry")).filterMap (entryPart' (r.get "Name")))) :
    inlineElementFingerprint (e.setChildren (pre ++ r' :: post)) = inlineElementFingerprint e := by
  refine inlineElementFingerprint_congr rfl (by rw [findall_replace_of_ne he htag (by simp [hr])]) ?_
    (by rw [findall_replace_of_ne he htag (by simp [hr])])
  rw [Node.children_setChildren, he]
  refine relParts_replace pre post ?_
  simpa only [relParts_singleton, htag, hr, if_true] using h

/-- **A cosmetic change inside an inline element keeps its fingerprint.** -/
theorem Cosmetic.fingerprint_eq {pl : Place} {e e' : Node} (h : Cosmetic pl e e')
    (hpl : pl = .inline) : inlineElementFingerprint e' = inlineElementFingerprint e := by
  induction h with
  | permChildren h =>
    refine inlineElementFingerprint_congr rfl ((h.filter _).symm.map _) ?_ ((h.filter _).symm.map _)
    rw [Node.children_setChildren, relParts_eq, relParts_eq]
    exact ((h.filter _).flatMap_right _).symm
  | permEntries he hr _ h =>
    refine inlineElementFingerprint_replace_relationship he hr rfl ?_
    simp only [Node.get_setChildren, Node.findall, Node.children_setChildren]
    exact (h.filter _).symm.filterMap _
  | permAnnotation => cases hpl
  | @disambiguator _ e a p p' pre post pre' post' he ha hp hd hd' =>
    have hprop := findall_replace_of_ne (d := a.setChildren (pre' ++ p' :: post')) he rfl
      (t := nsTag "Property") (by simp [ha])
    refine inlineElementFingerprint_congr rfl (by rw [hprop]) ?_ ?_
    · rw [Node.children_setChildren, he]
      exact .of_eq (relParts_replace_of_ne pre post (by simp [ha]) rfl)
    · exact .of_eq (map_findall_replace (d := a.setChildren (pre' ++ p' :: post')) he rfl fun _ => by
        simp only [annPart, Node.get_setChildren, annProps_disambiguator hp hd hd'])
  | @inline _ e r en i i' pre post pre₁ post₁ pre₂ post₂ he hr hr' hen hen' hi h ih =>
    refine inlineElementFingerprint_replace_relationship he hr rfl (.of_eq ?_)
    rw [Node.get_setChildren]
    exact filterMap_findall_replace (d := en.setChildren (pre₂ ++ i' :: post₂)) hr' rfl fun _ =>
      entryPart'_replace _ hen' hi h.tag_eq (ih rfl)

/-! ## An element of the model -/

theorem rel_refl_of {α : Type} {R : α → α → Prop} (hR : ∀ a, R a a) : ∀ o, Option.Rel R o o
  | some a => .some (hR a)
  | none => .none

theorem rel_trans_of {α : Type} {R : α → α → Prop} (hR : ∀ a b c, R a b → R b c → R a c) :
    ∀ {o₁ o₂ o₃ : Option α}, Option.Rel R o₁ o₂ → Option.Rel R o₂ o₃ → Option.Rel R o₁ o₃
  | _, _, _, .some h₁, .some h₂ => .some (hR _ _ _ h₁ h₂)
  | _, _, _, .none, .none => .none

theorem isSome_eq_of_rel {α β : Type} {R : α → β → Prop} :
    ∀ {o₁ : Option α} {o₂ : Option β}, Option.Rel R o₁ o₂ → o₂.isSome = o₁.isSome
  | _, _, .some _ => rfl
  | _, _, .none => rfl

/-- Everything `element_key` and `diff_element` read of an element, the entries of each
relationship up to their order. -/
structure SameView (a b : Node) : Prop where
  key : elementKey b = elementKey a
  properties : ∀ n, (getProperties b).get? n = (getProperties a).get? n
  relationships : ∀ n,
    Option.Rel List.Perm ((getRelationships a).get? n) ((getRelationships b).get? n)
  annotations : getAnnotations b = getAnnotations a

theorem SameView.refl (a : Node) : SameView a a :=
  ⟨rfl, fun _ => rfl, fun _ => rel_refl_of List.Perm.refl _, rfl⟩

theorem SameView.trans {a b c : Node} (h₁ : SameView a b) (h₂ : SameView b c) : SameView a c :=
  ⟨h₂.key.trans h₁.key, fun n => (h₂.properties n).trans (h₁.properties n),
    fun n => rel_trans_of (R := List.Perm) (fun _ _ _ => List.Perm.trans) (h₁.relationships n)
      (h₂.relationships n),
    h₂.annotations.trans h₁.annotations⟩

theorem elementKey_congr {e e' : Node} (hget : ∀ k, e'.get k = e.get k)
    (href : e.get "Name" = none → ∀ rn ∈ keyRelationships, getRefName e' rn = getRefName e rn) :
    elementKey e' = elementKey e := by
  unfold elementKey
  simp only [hget]
  cases hn : e.get "Name" with
  | some n => rfl
  | none =>
    rw [href hn "DefiningTable" (by decide), href hn "ForColumn" (by decide),
      href hn "DefiningColumn" (by decide)]

theorem mem_findall_of_children {e c : Node} {pre post : List Node}
    (he : e.children = pre ++ c :: post) {t : String} (hc : c.tag = t) : c ∈ e.findall t :=
  List.mem_filter.2 ⟨by simp [he], by simp [hc]⟩

section Replace

variable {e c d : Node} {pre post : List Node}

/-- `get_ref_name` after replacing a child by one with the same tag and `Name`: unchanged unless
the child is the relationship it reads, and then it reads the new child's first entry. -/
theorem getRefName_replace (he : e.children = pre ++ c :: post) (htag : d.tag = c.tag)
    (hname : d.get "Name" = c.get "Name") {rn : String}
    (hf : c.tag = nsTag "Relationship" → c.get "Name" = some rn →
      ((d.find (nsTag "Entry")).bind fun entry =>
          (entry.find (nsTag "References")).bind fun ref => ref.get "Name") =
        ((c.find (nsTag "Entry")).bind fun entry =>
          (entry.find (nsTag "References")).bind fun ref => ref.get "Name")) :
    getRefName (e.setChildren (pre ++ d :: post)) rn = getRefName e rn := by
  rw [getRefName_eq, getRefName_eq, Node.children_setChildren, he]
  exact find?_bind_replace pre post (by simp [htag, hname]) fun h => by
    simp only [decide_eq_true_eq] at h
    exact hf h.1 h.2

theorem elementOk_replace (hok : ElementOk e) (he : e.children = pre ++ c :: post)
    (htag : d.tag = c.tag) (hname : d.get "Name" = c.get "Name")
    (hprop : c.tag = nsTag "Property" → d = c)
    (hann : c.tag = nsTag "AttachedAnnotation" →
      PropsOk (c.findall (nsTag "Property")) → PropsOk (d.findall (nsTag "Property"))) :
    ElementOk (e.setChildren (pre ++ d :: post)) := by
  have hrels := map_findall_replace (d := d) he htag (t := nsTag "Relationship")
    (f := fun r => r.get "Name") fun _ => hname
  refine ⟨hok.typed, ?_, fun r hr => ?_, hrels ▸ hok.relsDistinct, fun a ha => ?_⟩
  · by_cases hc : c.tag = nsTag "Property"
    · rw [hprop hc, ← he, Node.setChildren_children]; exact hok.props
    · rw [findall_replace_of_ne he htag hc]; exact hok.props
  · have : r.get "Name" ∈ (e.findall (nsTag "Relationship")).map fun r => r.get "Name" :=
      hrels ▸ List.mem_map_of_mem _ hr
    obtain ⟨r', hr', hname'⟩ := List.mem_map.1 this
    exact hname' ▸ hok.relsNamed r' hr'
  · rcases mem_findall_replace he ha with had | ha'
    · have hd : d.tag = nsTag "AttachedAnnotation" :=
        had ▸ of_decide_eq_true (List.mem_filter.1 ha).2
      exact had ▸ hann (htag ▸ hd) (hok.anns c (mem_findall_of_children he (htag ▸ hd)))
    · exact hok.anns a ha'

end Replace

/-! ### Each change keeps the view -/

theorem sameView_permChildren {e : Node} {cs : List Node} (hok : ElementOk e)
    (h : e.children.Perm cs) : SameView e (e.setChildren cs) ∧ ElementOk (e.setChildren cs) := by
  have hf : ∀ t, (e.findall t).Perm ((e.setChildren cs).findall t) := fun t => h.filter _
  refine ⟨⟨elementKey_congr (fun _ => rfl) fun _ rn _ => ?_,
    fun n => (getProperties_get?_perm hok.props (hf _) n).symm, fun n => ?_,
    (getAnnotations_perm (hf _)).symm⟩,
    ⟨hok.typed, hok.props.perm (hf _), fun r hr => hok.relsNamed r ((hf _).mem_iff.2 hr),
      ((hf _).map _).nodup_iff.1 hok.relsDistinct, fun a ha => hok.anns a ((hf _).mem_iff.2 ha)⟩⟩
  · rw [getRefName_eq, getRefName_eq, Node.children_setChildren, ← find?_perm_of_unique h]
    intro a ha b hb hpa hpb
    simp only [decide_eq_true_eq] at hpa hpb
    exact List.inj_on_of_nodup_map hok.relsDistinct (List.mem_filter.2 ⟨ha, by simp [hpa.1]⟩)
      (List.mem_filter.2 ⟨hb, by simp [hpb.1]⟩) (hpa.2.trans hpb.2.symm)
  · rw [getRelationships_eq, getRelationships_eq, Py.Dict.get?_ofList_perm
      (by simpa [Function.comp_def] using hok.relsDistinct) ((hf _).map _) n]
    exact rel_refl_of List.Perm.refl _

theorem sameView_permEntries {e r : Node} {pre post es : List Node} (hok : ElementOk e)
    (he : e.children = pre ++ r :: post) (hr : r.tag = nsTag "Relationship")
    (hkey : e.get "Name" = none → ∀ n ∈ keyRelationships, r.get "Name" ≠ some n)
    (h : r.children.Perm es) :
    SameView e (e.setChildren (pre ++ r.setChildren es :: post)) ∧
      ElementOk (e.setChildren (pre ++ r.setChildren es :: post)) := by
  have hprop := findall_replace_of_ne (d := r.setChildren es) he rfl (t := nsTag "Property")
    (by simp [hr])
  have hann := findall_replace_of_ne (d := r.setChildren es) he rfl
    (t := nsTag "AttachedAnnotation") (by simp [hr])
  refine ⟨⟨elementKey_congr (fun _ => rfl) fun hn rn hrn =>
      getRefName_replace (d := r.setChildren es) he rfl rfl fun _ hname =>
        absurd hname (hkey hn rn hrn),
    fun n => by rw [getProperties_eq, getProperties_eq, hprop], fun n => ?_,
    getAnnotations_congr (by rw [hann])⟩,
    elementOk_replace hok he rfl rfl (fun h' => by simp [hr] at h') (fun h' => by simp [hr] at h')⟩
  rw [getRelationships_eq, getRelationships_eq]
  refine Py.Dict.get?_ofList_rel ?_ n
  rw [Node.findall, Node.findall, he, Node.children_setChildren]
  exact forall₂_map_filter_replace
    (R := fun (p q : Option String × List Entry) => p.1 = q.1 ∧ p.2.Perm q.2)
    (fun _ => ⟨rfl, .refl _⟩) pre post (by simp) fun _ => ⟨rfl, (h.filter _).filterMap _⟩

/-- Replacing an annotation by one that `annOf` reads the same way keeps the view. -/
theorem sameView_annotation {e a a' : Node} {pre post : List Node} (hok : ElementOk e)
    (he : e.children = pre ++ a :: post) (ha : a.tag = nsTag "AttachedAnnotation")
    (htag : a'.tag = a.tag) (hname : a'.get "Name" = a.get "Name") (hannOf : annOf a' = annOf a)
    (hprops : PropsOk (a.findall (nsTag "Property")) → PropsOk (a'.findall (nsTag "Property"))) :
    SameView e (e.setChildren (pre ++ a' :: post)) ∧ ElementOk (e.setChildren (pre ++ a' :: post)) := by
  have hprop := findall_replace_of_ne (d := a') he htag (t := nsTag "Property") (by simp [ha])
  have hrel := findall_replace_of_ne (d := a') he htag (t := nsTag "Relationship") (by simp [ha])
  refine ⟨⟨elementKey_congr (fun _ => rfl) fun _ _ _ =>
      getRefName_replace (d := a') he htag hname fun h' => by simp [ha] at h',
    fun n => by rw [getProperties_eq, getProperties_eq, hprop],
    fun n => by rw [getRelationships_eq, getRelationships_eq, hrel]; exact rel_refl_of .refl _,
    getAnnotations_congr (map_findall_replace (d := a') he htag fun _ => hannOf)⟩,
    elementOk_replace hok he htag hname (fun h' => by simp [ha] at h') fun _ => hprops⟩

theorem sameView_permAnnotation {e a : Node} {pre post ps : List Node} (hok : ElementOk e)
    (he : e.children = pre ++ a :: post) (ha : a.tag = nsTag "AttachedAnnotation")
    (h : a.children.Perm ps) :
    SameView e (e.setChildren (pre ++ a.setChildren ps :: post)) ∧
      ElementOk (e.setChildren (pre ++ a.setChildren ps :: post)) := by
  have hpa : PropsOk (a.findall (nsTag "Property")) := hok.anns a (mem_findall_of_children he ha)
  have hfa : (a.findall (nsTag "Property")).Perm ((a.setChildren ps).findall (nsTag "Property")) :=
    h.filter _
  have hnodup : ∀ x : Node, PropsOk (x.findall (nsTag "Property")) →
      (((x.findall (nsTag "Property")).map fun p => (p.get "Name", propValue p)).map
        Prod.fst).Nodup := fun x hx => by simpa [Function.comp_def] using hx.distinct
  have hitems : (getProperties (a.setChildren ps)).items.Perm (getProperties a).items :=
    ((Py.Dict.items_ofList_perm (hnodup _ (hpa.perm hfa))).trans (hfa.symm.map _)).trans
      (Py.Dict.items_ofList_perm (hnodup _ hpa)).symm
  have hannOf : annOf (a.setChildren ps) = annOf a := by
    rw [annOf, annOf, sortedItems_perm
      (show (annProps (a.setChildren ps)).items.Perm (annProps a).items from hitems.filter _)]
    rfl
  exact sameView_annotation hok he ha rfl rfl hannOf fun hp => hp.perm hfa

theorem propsOk_disambiguator {a p p' : Node} {pre post : List Node}
    (hp : a.children = pre ++ p :: post) (hd : IsDisambiguator p) (hd' : IsDisambiguator p')
    (hok : PropsOk (a.findall (nsTag "Property"))) :
    PropsOk ((a.setChildren (pre ++ p' :: post)).findall (nsTag "Property")) := by
  have htag : p'.tag = p.tag := hd'.tag.trans hd.tag.symm
  refine ⟨fun x hx => ?_, fun x hx => ?_, ?_⟩
  · rcases mem_findall_replace hp hx with rfl | hx
    · simp [hd'.name]
    · exact hok.named x hx
  · rcases mem_findall_replace hp hx with rfl | hx
    · exact hd'.valued
    · exact hok.valued x hx
  · rw [map_findall_replace hp htag fun _ => hd'.name.trans hd.name.symm]
    exact hok.distinct

/-- Replacing a relationship by one with the same name, the same entries and the same first
entry keeps the view. -/
theorem sameView_relationship {e r r' : Node} {pre post : List Node} (hok : ElementOk e)
    (he : e.children = pre ++ r :: post) (hr : r.tag = nsTag "Relationship")
    (htag : r'.tag = r.tag) (hname : r'.get "Name" = r.get "Name")
    (hentries : (r'.findall (nsTag "Entry")).filterMap entryOf =
      (r.findall (nsTag "Entry")).filterMap entryOf)
    (hfirst : ((r'.find (nsTag "Entry")).bind fun entry =>
        (entry.find (nsTag "References")).bind fun ref => ref.get "Name") =
      ((r.find (nsTag "Entry")).bind fun entry =>
        (entry.find (nsTag "References")).bind fun ref => ref.get "Name")) :
    SameView e (e.setChildren (pre ++ r' :: post)) ∧ ElementOk (e.setChildren (pre ++ r' :: post)) := by
  have hprop := findall_replace_of_ne (d := r') he htag (t := nsTag "Property") (by simp [hr])
  have hann := findall_replace_of_ne (d := r') he htag (t := nsTag "AttachedAnnotation")
    (by simp [hr])
  have hrels : getRelationships (e.setChildren (pre ++ r' :: post)) = getRelationships e := by
    rw [getRelationships_eq, getRelationships_eq, map_findall_replace (d := r') he htag fun _ => by
      rw [hname, hentries]]
  exact ⟨⟨elementKey_congr (fun _ => rfl) fun _ _ _ =>
      getRefName_replace (d := r') he htag hname fun _ _ => hfirst,
    fun n => by rw [getProperties_eq, getProperties_eq, hprop],
    fun n => by rw [hrels]; exact rel_refl_of .refl _,
    getAnnotations_congr (by rw [hann])⟩,
    elementOk_replace hok he htag hname (fun h' => by simp [hr] at h') fun h' => by simp [hr] at h'⟩

theorem sameView_inline {e r en i i' : Node} {pre post pre₁ post₁ pre₂ post₂ : List Node}
    (hok : ElementOk e) (he : e.children = pre ++ r :: post) (hr : r.tag = nsTag "Relationship")
    (hr' : r.children = pre₁ ++ en :: post₁) (hen' : en.children = pre₂ ++ i :: post₂)
    (hi : i.tag = nsTag "Element") (htag : i'.tag = i.tag)
    (hfp : inlineElementFingerprint i' = inlineElementFingerprint i) :
    SameView e (e.setChildren
        (pre ++ r.setChildren (pre₁ ++ en.setChildren (pre₂ ++ i' :: post₂) :: post₁) :: post)) ∧
      ElementOk (e.setChildren
        (pre ++ r.setChildren (pre₁ ++ en.setChildren (pre₂ ++ i' :: post₂) :: post₁) :: post)) :=
  sameView_relationship hok he hr rfl rfl
    (filterMap_findall_replace (d := en.setChildren (pre₂ ++ i' :: post₂)) hr' rfl fun _ =>
      entryOf_replace hen' hi htag hfp)
    (by
      rw [Node.find, Node.find, Node.children_setChildren, hr']
      exact find?_bind_replace pre₁ post₁ (by simp) fun _ => by
        simp only [find_references_replace hen' hi htag])

/-- **A cosmetic change inside an element of the model keeps its view and its well-formedness.** -/
theorem Cosmetic.sameView {e e' : Node} (h : Cosmetic .top e e') (hok : ElementOk e) :
    SameView e e' ∧ ElementOk e' := by
  cases h with
  | permChildren h => exact sameView_permChildren hok h
  | permEntries he hr hkey h => exact sameView_permEntries hok he hr (hkey rfl) h
  | permAnnotation he ha h => exact sameView_permAnnotation hok he ha h
  | disambiguator he ha hp hd hd' =>
    exact sameView_annotation hok he ha rfl rfl
      (by rw [annOf, annOf, Node.get_setChildren, annProps_disambiguator hp hd hd'])
      (propsOk_disambiguator hp hd hd')
  | inline he hr hr' _ hen' hi h => exact sameView_inline hok he hr hr' hen' hi h.tag_eq (h.fingerprint_eq rfl)

theorem mem_getD_of_rel {o₁ o₂ : Option (List Entry)} (h : Option.Rel List.Perm o₁ o₂) (e : Entry) :
    e ∈ o₁.getD [] ↔ e ∈ o₂.getD [] := by
  cases h with
  | some h => exact h.mem_iff
  | none => exact Iff.rfl

/-- **Two elements with one view compare empty**, the first well formed. -/
theorem diffElement_of_sameView {a b : Node} (hok : ElementOk a) (h : SameView a b) :
    diffElement a b = some [] := by
  obtain ⟨la, hla⟩ := Option.isSome_iff_exists.1 (getAnnotations_isSome hok.anns)
  have hpa := none_not_mem_keys_getProperties hok.props
  have hra := none_not_mem_keys_getRelationships hok.relsNamed
  have hp : diffProperties (getProperties a) (getProperties b) = some [] :=
    diffProperties_eq_some_nil_of_forall
      (isSome_of_mem_keyUnion hpa (by simpa [h.properties] using hpa)) fun n => by
        rw [h.properties n]
  have hr : diffRelationships (getRelationships a) (getRelationships b) = some [] :=
    diffRelationships_eq_some_nil_of_forall (isSome_of_mem_keyUnion hra
      (by simpa [isSome_eq_of_rel (h.relationships none)] using hra)) fun n =>
        mem_getD_of_rel (h.relationships n)
  rw [diffElement_eq_some]
  exact ⟨[], [], la, la, hp, hr, hla, h.annotations.trans hla,
    by rw [(annotationLines_eq_nil_iff la la).2 fun _ => Iff.rfl]; rfl⟩

/-- **The fingerprint follows the order of an annotation's properties.**  An inline element with
one annotation whose two properties have distinct names: written in the other order, they give
another fingerprint, since the annotation part is the `repr` of a dict in insertion order. -/
theorem inlineElementFingerprint_annotation_order :
    PropsOk ((Node.elem (nsTag "AttachedAnnotation") [("Type", "T")]
      [.elem (nsTag "Property") [("Name", "A"), ("Value", "1")] [],
        .elem (nsTag "Property") [("Name", "B"), ("Value", "2")] []]).findall (nsTag "Property")) ∧
    inlineElementFingerprint (.elem (nsTag "Element") [("Type", "SqlX")]
        [.elem (nsTag "AttachedAnnotation") [("Type", "T")]
          [.elem (nsTag "Property") [("Name", "A"), ("Value", "1")] [],
            .elem (nsTag "Property") [("Name", "B"), ("Value", "2")] []]]) ≠
      inlineElementFingerprint (.elem (nsTag "Element") [("Type", "SqlX")]
        [.elem (nsTag "AttachedAnnotation") [("Type", "T")]
          [.elem (nsTag "Property") [("Name", "B"), ("Value", "2")] [],
            .elem (nsTag "Property") [("Name", "A"), ("Value", "1")] []]]) := by
  decide

end DacpacCompare
