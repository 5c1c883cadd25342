import DacpacCompare.Main

/-!
# Composing two runs that find no differences

A run of `main` that exits `0` is meant to say "these two packages are the same", and sameness
should compose: if the rust package matches a reference and the reference matches a third
package, the rust package should match the third.  With the symmetry of `main` on two
directories and a directory compared with itself, this makes exit code `0` an equivalence on
directories.

It composes as long as the packages at the two ends name their properties and relationships
(`Named`, `DocNamed`).  `diff_element` sorts the union of the property names of its two
elements, and the union of their relationship names; a property without a `Name` is the key
`None`, which cannot be sorted against a string.  A valueless property reads as a missing one,
so an element with a nameless valueless property matches an element without properties, and
that one matches an element with a named valueless property, but the first and the last cannot
be compared: the sort raises (`mainExitCode_not_trans_unnamed`).

What is here, bottom up:

* `diffElement_trans` — two empty element diffs compose into an empty one;
* `cleanIndexes_of_compareModelXml` — what a clean model comparison says of the two indexes, and
  `compareModelXml_clean_trans`, which composes two clean comparisons;
* `compareSimpleXml_trans` and `compareTextFiles_trans` — the per-file comparisons compose;
* `DirsAgree.trans`, and from it the exit code (`mainExitCode_eq_zero_iff_of_isDir`).
-/

set_option autoImplicit false

namespace DacpacCompare

/-! ## Named properties and relationships -/

/-- Every `Property` and every `Relationship` of the element has a `Name`. -/
structure Named (e : Node) : Prop where
  /-- Every property has a `Name`. -/
  props : ∀ p ∈ e.findall (nsTag "Property"), (p.get "Name").isSome
  /-- Every relationship has a `Name`. -/
  rels : ∀ r ∈ e.findall (nsTag "Relationship"), (r.get "Name").isSome

instance (e : Node) : Decidable (Named e) :=
  decidable_of_iff ((∀ p ∈ e.findall (nsTag "Property"), (p.get "Name").isSome) ∧
      ∀ r ∈ e.findall (nsTag "Relationship"), (r.get "Name").isSome)
    ⟨fun ⟨a, b⟩ => ⟨a, b⟩, fun ⟨a, b⟩ => ⟨a, b⟩⟩

/-- The elements of the document's first `Model`, if it has one, are `Named`. -/
def DocNamed (root : Node) : Prop :=
  ∀ m ∈ root.find (nsTag "Model"), ∀ e ∈ m.findall (nsTag "Element"), Named e

instance : DecidablePred DocNamed := fun root =>
  inferInstanceAs (Decidable (∀ m ∈ root.find (nsTag "Model"), ∀ e ∈ m.findall (nsTag "Element"),
    Named e))

theorem ElementOk.named {e : Node} (h : ElementOk e) : Named e := ⟨h.props.named, h.relsNamed⟩

/-- A well-formed document names its properties and relationships. -/
theorem DocOk.docNamed {root : Node} (h : DocOk root) : DocNamed root := by
  obtain ⟨m, hm, hok⟩ := h
  intro m' hm' e he
  obtain rfl : m = m' := Option.some.inj (hm.symm.trans hm')
  exact (hok.elements e he).named

theorem none_not_mem_keys_getProperties_of_named {e : Node}
    (h : ∀ p ∈ e.findall (nsTag "Property"), (p.get "Name").isSome) :
    none ∉ (getProperties e).keys := by
  rw [getProperties_eq, Py.Dict.mem_keys_ofList]
  intro hn
  simp only [List.map_map, List.mem_map, Function.comp_apply] at hn
  obtain ⟨p, hp, hpn⟩ := hn
  simpa [hpn] using h p hp

/-! ## Composing two empty element diffs -/

/-- **Empty diffs compose.**  Each phase of `diff_element` is silent on a condition that composes
(`.get` agrees, the entry sets agree, the annotation sets agree); what the two outer elements must
add is that their names can be sorted together. -/
theorem diffElement_trans {a b c : Node} (hab : diffElement a b = some [])
    (hbc : diffElement b c = some []) (ha : Named a) (hc : Named c) :
    diffElement a c = some [] := by
  obtain ⟨hp₁, hr₁, la, lb, hla, hlb, hann₁⟩ := diffElement_eq_some_nil hab
  obtain ⟨hp₂, hr₂, lb', lc, hlb', hlc, hann₂⟩ := diffElement_eq_some_nil hbc
  obtain rfl : lb' = lb := Option.some.inj (hlb'.symm.trans hlb)
  have hann : annotationLines la lc = [] :=
    (annotationLines_eq_nil_iff la lc).2 fun y => (hann₁ y).trans (hann₂ y)
  rw [diffElement_eq_some]
  exact ⟨[], [], la, lc,
    diffProperties_eq_some_nil_of_forall (isSome_of_mem_keyUnion
      (none_not_mem_keys_getProperties_of_named ha.props)
      (none_not_mem_keys_getProperties_of_named hc.props)) fun n => (hp₁ n).trans (hp₂ n),
    diffRelationships_eq_some_nil_of_forall (isSome_of_mem_keyUnion
      (none_not_mem_keys_getRelationships ha.rels) (none_not_mem_keys_getRelationships hc.rels))
      fun n e => (hr₁ n e).trans (hr₂ n e),
    hla, hlc, by rw [hann]; rfl⟩

/-! ## Composing two clean model comparisons -/

/-- What a clean element report says of the two models' indexes: the same keys, which can be
sorted by their display strings, and an empty diff under each. -/
structure CleanIndexes (mA mB : Node) : Prop where
  /-- The two indexes hold the same keys. -/
  keys : ∀ k, k ∈ (indexElements mA).1.keys ↔ k ∈ (indexElements mB).1.keys
  /-- The keys can be sorted by their display strings. -/
  sortable : (sortedByDisplay (indexElements mA).1.keys).isSome
  /-- The two elements under each key compare empty. -/
  diffs : ∀ k ∈ (indexElements mA).1.keys,
    diffAt (indexElements mA).1 (indexElements mB).1 k = some []

theorem cleanIndexes_of_compareModelXml {A B : Node} {r : ModelResults}
    (h : compareModelXml A B = some r) (hclean : r.elements.clean) :
    ∃ mA mB, A.find (nsTag "Model") = some mA ∧ B.find (nsTag "Model") = some mB ∧
      CleanIndexes mA mB := by
  obtain ⟨mA, mB, common, hmA, hmB, hmi, hex, hco, hdi, -⟩ := compareModelXml_eq_some.1 h
  obtain ⟨hmi0, hex0, hdi0⟩ := hclean
  have hBA := Py.filter_not_mem_eq_nil.1 (List.nil_perm.1 (sortedByDisplay_perm (hmi0 ▸ hmi)))
  have hAB := Py.filter_not_mem_eq_nil.1 (List.nil_perm.1 (sortedByDisplay_perm (hex0 ▸ hex)))
  have hall : ((indexElements mA).1.keys.filter fun k => k ∈ (indexElements mB).1.keys) =
      (indexElements mA).1.keys :=
    List.filter_eq_self.2 fun k hk => decide_eq_true (hAB k hk)
  rw [hall] at hco
  refine ⟨mA, mB, hmA, hmB, ⟨fun k => ⟨hAB k, hBA k⟩, by rw [hco]; rfl, fun k hk => ?_⟩⟩
  exact collectDifferences_eq_some_nil.1 (hdi0 ▸ hdi) k ((sortedByDisplay_perm hco).mem_iff.2 hk)

theorem get?_of_mem_keys {m : Node} {k : ElementKey} (hk : k ∈ (indexElements m).1.keys) :
    ∃ e ∈ m.findall (nsTag "Element"), (indexElements m).1.get? k = some e := by
  obtain ⟨e, he⟩ := Option.isSome_iff_exists.1 (Py.Dict.mem_keys.1 hk)
  refine ⟨e, ?_, he⟩
  obtain ⟨x, hx, hxe⟩ := List.mem_map.1 (Py.Dict.mem_of_get?_ofList he)
  exact (Prod.mk.inj hxe).2 ▸ hx

theorem CleanIndexes.trans {mA mB mC : Node} (h₁ : CleanIndexes mA mB) (h₂ : CleanIndexes mB mC)
    (hA : ∀ e ∈ mA.findall (nsTag "Element"), Named e)
    (hC : ∀ e ∈ mC.findall (nsTag "Element"), Named e) : CleanIndexes mA mC := by
  refine ⟨fun k => (h₁.keys k).trans (h₂.keys k), h₁.sortable, fun k hk => ?_⟩
  have hkB := (h₁.keys k).1 hk
  obtain ⟨a, ha, hka⟩ := get?_of_mem_keys hk
  obtain ⟨b, -, hkb⟩ := get?_of_mem_keys hkB
  obtain ⟨c, hc, hkc⟩ := get?_of_mem_keys ((h₂.keys k).1 hkB)
  have hab := h₁.diffs k hk
  have hbc := h₂.diffs k hkB
  rw [diffAt_eq hka hkb] at hab
  rw [diffAt_eq hkb hkc] at hbc
  rw [diffAt_eq hka hkc]
  exact diffElement_trans hab hbc (hA a ha) (hC c hc)

theorem compareModelXml_clean_of_cleanIndexes {A B mA mB : Node}
    (hA : A.find (nsTag "Model") = some mA) (hB : B.find (nsTag "Model") = some mB)
    (h : CleanIndexes mA mB) : ∃ r, compareModelXml A B = some r ∧ r.elements.clean := by
  have hall : ((indexElements mA).1.keys.filter fun k => k ∈ (indexElements mB).1.keys) =
      (indexElements mA).1.keys :=
    List.filter_eq_self.2 fun k hk => decide_eq_true ((h.keys k).1 hk)
  obtain ⟨r, hr, hclean, -⟩ := compareModelXml_clean_of hA hB (by rw [hall]; exact h.sortable)
    (fun k => (h.keys k).symm) h.diffs
  exact ⟨r, hr, hclean⟩

/-- Two silent header comparisons compose: the indexes of `CustomData` blocks are equal as
dicts, and that equality composes. -/
theorem compareHeader_ok_trans {ha hb hc : Option Node} (h₁ : compareHeader ha hb = (.ok, []))
    (h₂ : compareHeader hb hc = (.ok, [])) : compareHeader ha hc = (.ok, []) := by
  have hrel : ∀ {x y : Option Node}, compareHeader x y = (.ok, []) → ∀ key,
      Option.Rel (fun ma mb => ∀ k, ma.get? k = mb.get? k) ((indexCustomData x).get? key)
        ((indexCustomData y).get? key) := fun {x y} h key => by
    by_cases hk : key ∈ (indexCustomData x).keys ∨ key ∈ (indexCustomData y).keys
    · exact (headerLines_eq_nil_iff hk).1 ((compareHeader_eq_ok_iff x y).1 h key hk)
    · simp only [Py.Dict.mem_keys, Option.isSome_iff_ne_none, not_or, not_not] at hk
      rw [hk.1, hk.2]
      exact .none
  exact (compareHeader_eq_ok_iff ha hc).2 fun key hk => (headerLines_eq_nil_iff hk).2 <|
    rel_trans_of (fun _ _ _ hab hbc k => (hab k).trans (hbc k)) (hrel h₁ key) (hrel h₂ key)

/-- **Two clean model comparisons compose**, header included, when the models at the two ends
name their properties and relationships. -/
theorem compareModelXml_clean_trans {A B C : Node} {r₁ r₂ : ModelResults}
    (h₁ : compareModelXml A B = some r₁) (hh₁ : r₁.header.1 = .ok) (hc₁ : r₁.elements.clean)
    (h₂ : compareModelXml B C = some r₂) (hh₂ : r₂.header.1 = .ok) (hc₂ : r₂.elements.clean)
    (hA : DocNamed A) (hC : DocNamed C) :
    ∃ r, compareModelXml A C = some r ∧ r.header.1 = .ok ∧ r.elements.clean := by
  obtain ⟨mA, mB, hmA, hmB, hi₁⟩ := cleanIndexes_of_compareModelXml h₁ hc₁
  obtain ⟨mB', mC, hmB', hmC, hi₂⟩ := cleanIndexes_of_compareModelXml h₂ hc₂
  obtain rfl : mB' = mB := Option.some.inj (hmB'.symm.trans hmB)
  obtain ⟨r, hr, hclean⟩ := compareModelXml_clean_of_cleanIndexes hmA hmC
    (hi₁.trans hi₂ (hA mA hmA) (hC mC hmC))
  obtain ⟨_, _, _, -, -, -, -, -, -, hh, -, -⟩ := compareModelXml_eq_some.1 hr
  obtain ⟨_, _, _, -, -, -, -, -, -, hh₁', -, -⟩ := compareModelXml_eq_some.1 h₁
  obtain ⟨_, _, _, -, -, -, -, -, -, hh₂', -, -⟩ := compareModelXml_eq_some.1 h₂
  rw [hh₁', compareHeader_fst_eq_ok] at hh₁
  rw [hh₂', compareHeader_fst_eq_ok] at hh₂
  refine ⟨r, hr, ?_, hclean⟩
  rw [hh, compareHeader_fst_eq_ok]
  exact compareHeader_ok_trans hh₁ hh₂

/-! ## Composing two directory comparisons -/

/-- A simple XML comparison is silent exactly when neither side has the file. -/
theorem compareSimpleXml_eq_none_iff {x y : Option (Option Node)} :
    compareSimpleXml x y = some none ↔ x = none ∧ y = none := by
  rcases x with _ | _ | a <;> rcases y with _ | _ | b <;> simp [compareSimpleXml]

/-- A simple XML comparison is `"ok"` exactly when both sides parse and list alike. -/
theorem compareSimpleXml_eq_ok_iff_parse {x y : Option (Option Node)} :
    compareSimpleXml x y = some (some .ok) ↔
      ∃ a b, x = some (some a) ∧ y = some (some b) ∧ flatten "" a = flatten "" b := by
  rcases x with _ | _ | a <;> rcases y with _ | _ | b <;> simp [compareSimpleXml]

theorem compareSimpleXml_trans {x y z : Option (Option Node)}
    (h₁ : compareSimpleXml x y = some none ∨ compareSimpleXml x y = some (some .ok))
    (h₂ : compareSimpleXml y z = some none ∨ compareSimpleXml y z = some (some .ok)) :
    compareSimpleXml x z = some none ∨ compareSimpleXml x z = some (some .ok) := by
  rw [compareSimpleXml_eq_none_iff, compareSimpleXml_eq_ok_iff_parse] at h₁ h₂ ⊢
  rcases h₁ with ⟨rfl, rfl⟩ | ⟨a, b, rfl, rfl, hab⟩ <;>
    rcases h₂ with ⟨h, rfl⟩ | ⟨b', c, h, rfl, hbc⟩
  · exact .inl ⟨rfl, rfl⟩
  · cases h
  · cases h
  · cases h
    exact .inr ⟨a, c, rfl, rfl, hab.trans hbc⟩

/-- A text comparison is silent exactly when neither side has the file. -/
theorem compareTextFiles_eq_none_iff {x y : Option FsEntry} :
    compareTextFiles x y = some none ↔ x = none ∧ y = none := by
  rcases x with _ | _ | ⟨⟨_ | la, xa⟩, m⟩ <;> rcases y with _ | _ | ⟨⟨_ | lb, xb⟩, m'⟩ <;>
    simp [compareTextFiles, readLines]

/-- A text comparison is `"ok"` exactly when both sides can be read and their lines agree once
stripped on the right. -/
theorem compareTextFiles_eq_ok_iff {x y : Option FsEntry} :
    compareTextFiles x y = some (some .ok) ↔ ∃ la lb, x.bind readLines = some la ∧
      y.bind readLines = some lb ∧ la.map Py.rstrip = lb.map Py.rstrip := by
  rcases x with _ | _ | ⟨⟨_ | la, xa⟩, m⟩ <;> rcases y with _ | _ | ⟨⟨_ | lb, xb⟩, m'⟩ <;>
    simp [compareTextFiles, readLines]

theorem compareTextFiles_ok_trans {x y z : Option FsEntry}
    (h₁ : compareTextFiles x y = some (some .ok)) (h₂ : compareTextFiles y z = some (some .ok)) :
    compareTextFiles x z = some (some .ok) := by
  rw [compareTextFiles_eq_ok_iff] at h₁ h₂ ⊢
  obtain ⟨la, lb, hla, hlb, hab⟩ := h₁
  obtain ⟨lb', lc, hlb', hlc, hbc⟩ := h₂
  obtain rfl : lb' = lb := Option.some.inj (hlb'.symm.trans hlb)
  exact ⟨la, lc, hla, hlc, hab.trans hbc⟩

theorem compareTextFiles_trans {x y z : Option FsEntry}
    (h₁ : compareTextFiles x y = some none ∨ compareTextFiles x y = some (some .ok))
    (h₂ : compareTextFiles y z = some none ∨ compareTextFiles y z = some (some .ok)) :
    compareTextFiles x z = some none ∨ compareTextFiles x z = some (some .ok) := by
  rcases h₁ with h₁ | h₁ <;> rcases h₂ with h₂ | h₂
  · obtain ⟨rfl, -⟩ := compareTextFiles_eq_none_iff.1 h₁
    obtain ⟨-, rfl⟩ := compareTextFiles_eq_none_iff.1 h₂
    exact .inl rfl
  · obtain ⟨-, rfl⟩ := compareTextFiles_eq_none_iff.1 h₁
    obtain ⟨_, _, h, -⟩ := compareTextFiles_eq_ok_iff.1 h₂
    cases h
  · obtain ⟨rfl, -⟩ := compareTextFiles_eq_none_iff.1 h₂
    obtain ⟨_, _, -, h, -⟩ := compareTextFiles_eq_ok_iff.1 h₁
    cases h
  · exact .inr (compareTextFiles_ok_trans h₁ h₂)

/-- **Two directory comparisons that find no differences compose**, when the models at the two
ends name their properties and relationships. -/
theorem DirsAgree.trans {fs : Fs} {a b c : String} (h₁ : DirsAgree fs a b) (h₂ : DirsAgree fs b c)
    (hA : ∀ A, parseEntry (fs.entry (pathJoin a "model.xml")) = some (some A) → DocNamed A)
    (hC : ∀ C, parseEntry (fs.entry (pathJoin c "model.xml")) = some (some C) → DocNamed C) :
    DirsAgree fs a c := by
  obtain ⟨A, B, r₁, hpA, hpB, hr₁, hh₁, hc₁⟩ := h₁.model
  obtain ⟨B', C, r₂, hpB', hpC, hr₂, hh₂, hc₂⟩ := h₂.model
  obtain rfl : B' = B := Option.some.inj (Option.some.inj (hpB'.symm.trans hpB))
  obtain ⟨r, hr, hh, hclean⟩ :=
    compareModelXml_clean_trans hr₁ hh₁ hc₁ hr₂ hh₂ hc₂ (hA A hpA) (hC C hpC)
  exact ⟨fun n hn => compareSimpleXml_trans (h₁.simpleXml n hn) (h₂.simpleXml n hn),
    fun n hn => compareTextFiles_trans (h₁.textFiles n hn) (h₂.textFiles n hn),
    fun n hn => (h₁.sameUnknown n hn).trans (h₂.sameUnknown n hn),
    fun n hn hk => compareTextFiles_ok_trans (h₁.unknownOk n hn hk)
      (h₂.unknownOk n ((h₁.sameUnknown n hk).1 hn) hk),
    A, C, r, hpA, hpC, hr, hh, hclean⟩

/-- On two directories, `main` exits `0` exactly when they agree. -/
theorem mainExitCode_eq_zero_iff_of_isDir {fs : Fs} {tmpdir a b : String}
    (ha : fs.isDir a = true) (hb : fs.isDir b = true) :
    mainExitCode fs tmpdir a b = 0 ↔ DirsAgree fs a b := by
  rw [mainExitCode_of_isDir ha hb, ← verdict_eq_some_false_iff]
  split_ifs with h <;> simp [h]

/-- **Exit code `0` is transitive on directories.**  If `main` finds no differences between `a`
and `b`, nor between `b` and `c`, it finds none between `a` and `c`, provided the models of `a`
and `c` name every property and relationship. -/
theorem mainExitCode_trans {fs : Fs} {tmpdir a b c : String} {A C : Node}
    (ha : fs.isDir a = true) (hb : fs.isDir b = true) (hc : fs.isDir c = true)
    (hpA : parseEntry (fs.entry (pathJoin a "model.xml")) = some (some A)) (hA : DocNamed A)
    (hpC : parseEntry (fs.entry (pathJoin c "model.xml")) = some (some C)) (hC : DocNamed C)
    (h₁ : mainExitCode fs tmpdir a b = 0) (h₂ : mainExitCode fs tmpdir b c = 0) :
    mainExitCode fs tmpdir a c = 0 :=
  (mainExitCode_eq_zero_iff_of_isDir ha hc).2
    (((mainExitCode_eq_zero_iff_of_isDir ha hb).1 h₁).trans
      ((mainExitCode_eq_zero_iff_of_isDir hb hc).1 h₂)
      (fun _ h => Option.some.inj (Option.some.inj (hpA.symm.trans h)) ▸ hA)
      (fun _ h => Option.some.inj (Option.some.inj (hpC.symm.trans h)) ▸ hC))

theorem mainExitCode_trans_reordered :
    let t₁ := Node.elem (nsTag "Element") [("Type", "SqlTable"), ("Name", "[dbo].[T1]")]
      [.elem (nsTag "Property") [("Name", "IsAnsiNullsOn"), ("Value", "True")] []]
    let t₂ := Node.elem (nsTag "Element") [("Type", "SqlTable"), ("Name", "[dbo].[T2]")] []
    let doc := fun elems : List Node =>
      Node.elem (nsTag "DataSchemaModel") [] [.elem (nsTag "Model") [] elems]
    let fs : Fs := [("a", .dir), ("a/model.xml", .file ⟨some [], some (doc [t₁, t₂])⟩ none),
      ("b", .dir), ("b/model.xml", .file ⟨some [], some (doc [t₂, t₁])⟩ none),
      ("c", .dir), ("c/model.xml", .file ⟨some [], some (doc [t₁, t₂])⟩ none)]
    fs.isDir "a" = true ∧ fs.isDir "b" = true ∧ fs.isDir "c" = true ∧
      parseEntry (fs.entry (pathJoin "a" "model.xml")) = some (some (doc [t₁, t₂])) ∧
      DocNamed (doc [t₁, t₂]) ∧
      parseEntry (fs.entry (pathJoin "c" "model.xml")) = some (some (doc [t₁, t₂])) ∧
      mainExitCode fs "/tmp/w" "a" "b" = 0 ∧ mainExitCode fs "/tmp/w" "b" "c" = 0 ∧
      mainExitCode fs "/tmp/w" "a" "c" = 0 := by
  intro t₁ t₂ doc fs
  have ha : fs.isDir "a" = true := by decide
  have hb : fs.isDir "b" = true := by decide
  have hc : fs.isDir "c" = true := by decide
  have hpA : parseEntry (fs.entry (pathJoin "a" "model.xml")) = some (some (doc [t₁, t₂])) := rfl
  have hpC : parseEntry (fs.entry (pathJoin "c" "model.xml")) = some (some (doc [t₁, t₂])) := rfl
  have hA : DocNamed (doc [t₁, t₂]) := by decide
  have h₁ : mainExitCode fs "/tmp/w" "a" "b" = 0 := by decide
  have h₂ : mainExitCode fs "/tmp/w" "b" "c" = 0 := by decide
  exact ⟨ha, hb, hc, hpA, hA, hpC, h₁, h₂, mainExitCode_trans ha hb hc hpA hA hpC hA h₁ h₂⟩

/-- **Without names, exit code `0` does not compose.**  The element of `a` has a property with
neither a name nor a value, which reads as missing: it matches the element of `b`, which has no
property.  The element of `c` has a named valueless property, which also matches `b`.  Comparing
`a` with `c` sorts the names `None` and `"x"` together, which raises. -/
theorem mainExitCode_not_trans_unnamed :
    let doc := fun props : List Node => Node.elem (nsTag "DataSchemaModel") []
      [.elem (nsTag "Model") []
        [.elem (nsTag "Element") [("Type", "SqlTable"), ("Name", "[dbo].[T]")] props]]
    let fs : Fs := [("a", .dir),
      ("a/model.xml", .file ⟨some [], some (doc [.elem (nsTag "Property") [] []])⟩ none),
      ("b", .dir), ("b/model.xml", .file ⟨some [], some (doc [])⟩ none),
      ("c", .dir),
      ("c/model.xml", .file ⟨some [], some (doc [.elem (nsTag "Property") [("Name", "x")] []])⟩ none)]
    mainExitCode fs "/tmp/w" "a" "b" = 0 ∧ mainExitCode fs "/tmp/w" "b" "c" = 0 ∧
      mainExitCode fs "/tmp/w" "a" "c" = 1 := by
  decide

end DacpacCompare
