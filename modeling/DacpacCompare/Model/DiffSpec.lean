import DacpacCompare.Model.Diff

/-!
# What `diff_element` reports, phase by phase

Each phase of `diff_element` is a loop over names that writes at most one line per name.  This
file says, for each, exactly when the line is written.

* `propertyLine_eq_none_iff`: a property is silent when `.get` agrees on both sides.
* `relationshipLine_eq_none_iff`: a relationship is silent when its entry lists agree, or when
  it occurs on both sides with the same *set* of entries.  `Entry.str` is injective
  (`Entry.str_injective`), so the set of strings the script compares is the set of entries, and
  the counts it reports are counts of entries (`length_filter_dedup_map`).
* `annotationLines_eq_nil_iff`: the annotation phase is silent exactly when the two sides have
  the same *set* of annotations.  Multiplicity is lost: the per-type report, which carries the
  count note, only runs when the sets differ.

`diffElement_eq_some` splits a successful `diff_element` into its phases;
`diffElement_property_entry` and `diffElement_relationship_entry` put the property and the
relationship phases back into the whole diff, and `annotationLines_type_iff` says type by type
when the annotation phase writes.  Each phase is silent on a condition symmetric in the two
sides, so an empty diff stays empty with the elements swapped (`diffElement_comm_nil`).
-/

set_option autoImplicit false

namespace DacpacCompare

@[simp] theorem mem_keyUnion {κ : Type} [DecidableEq κ] {a b : List κ} {k : κ} :
    k ∈ keyUnion a b ↔ k ∈ a ∨ k ∈ b := by
  by_cases h : k ∈ a <;> simp [keyUnion, h]

theorem mem_of_sortedKeys {ks names : List (Option String)} (h : Py.sortedKeys ks = some names)
    {n : Option String} : n ∈ names ↔ n ∈ ks := by
  unfold Py.sortedKeys at h
  split at h
  · cases h
  · cases h; exact Py.mem_sortOn _

theorem diffElement_eq_some {a b : Node} {ds : List String} :
    diffElement a b = some ds ↔ ∃ pl rl aa ab,
      diffProperties (getProperties a) (getProperties b) = some pl ∧
      diffRelationships (getRelationships a) (getRelationships b) = some rl ∧
      getAnnotations a = some aa ∧ getAnnotations b = some ab ∧
      ds = pl ++ rl ++ annotationLines aa ab := by
  simp only [diffElement, Option.bind_eq_bind, Option.bind_eq_some, Option.pure_def,
    Option.some.injEq]
  constructor
  · rintro ⟨pl, hp, rl, hr, aa, ha, ab, hb, rfl⟩
    exact ⟨pl, rl, aa, ab, hp, hr, ha, hb, rfl⟩
  · rintro ⟨pl, rl, aa, ab, hp, hr, ha, hb, rfl⟩
    exact ⟨pl, hp, rl, hr, aa, ha, ab, hb, rfl⟩

/-! ## Properties -/

theorem propertyLine_eq_none_iff (pa pb : Py.Dict (Option String) (Option String))
    (n : Option String) : propertyLine pa pb n = none ↔ (pa.get? n).join = (pb.get? n).join := by
  unfold propertyLine
  dsimp only
  by_cases h : (pa.get? n).join = (pb.get? n).join
  · exact iff_of_true (if_neg (not_not.2 h)) h
  · simp only [ne_eq, h, not_false_eq_true, if_true, iff_false]
    split_ifs <;> simp

/-- The property phase is silent exactly when `.get` agrees on every name. -/
theorem diffProperties_eq_some_nil {pa pb : Py.Dict (Option String) (Option String)}
    (h : diffProperties pa pb = some []) : ∀ n, (pa.get? n).join = (pb.get? n).join := by
  obtain ⟨names, hn, hl⟩ := Option.map_eq_some'.1 h
  intro n
  by_cases hu : n ∈ keyUnion pa.keys pb.keys
  · exact (propertyLine_eq_none_iff pa pb n).1
      (List.filterMap_eq_nil_iff.1 hl n ((mem_of_sortedKeys hn).2 hu))
  · simp only [mem_keyUnion, Py.Dict.mem_keys, not_or, Option.not_isSome_iff_eq_none] at hu
    rw [hu.1, hu.2]

/-- Neither side names a property or a relationship `None`: every name of the union is a string. -/
theorem isSome_of_mem_keyUnion {ka kb : List (Option String)} (ha : none ∉ ka) (hb : none ∉ kb) :
    ∀ k ∈ keyUnion ka kb, k.isSome := fun _ hk =>
  Option.ne_none_iff_isSome.1 fun h0 => (mem_keyUnion.1 hk).elim (fun hk => ha (h0 ▸ hk))
    fun hk => hb (h0 ▸ hk)

/-- The property phase is silent when `.get` agrees on every name and no name is `None`. -/
theorem diffProperties_eq_some_nil_of_forall {pa pb : Py.Dict (Option String) (Option String)}
    (hnames : ∀ k ∈ keyUnion pa.keys pb.keys, k.isSome)
    (h : ∀ n, (pa.get? n).join = (pb.get? n).join) : diffProperties pa pb = some [] := by
  rw [diffProperties, Py.sortedKeys_of_forall_isSome hnames, Option.map_some',
    List.filterMap_eq_nil_iff.2 fun n _ => (propertyLine_eq_none_iff _ _ n).2 (h n)]

/-- **The property phase, in the whole diff.**  `diff_element` writes the line of a property
name exactly when `.get` differs on the two sides; a property without a value reads as a missing
one, so a name that is valueless on one side and missing on the other is not reported. -/
theorem diffElement_property_entry {a b : Node} {ds : List String} (h : diffElement a b = some ds)
    (n : Option String) :
    (∃ line ∈ ds, propertyLine (getProperties a) (getProperties b) n = some line) ↔
      ((getProperties a).get? n).join ≠ ((getProperties b).get? n).join := by
  obtain ⟨pl, rl, aa, ab, hp, -, -, -, rfl⟩ := diffElement_eq_some.1 h
  obtain ⟨names, hn, rfl⟩ := Option.map_eq_some'.1 hp
  refine ⟨fun ⟨line, _, hl⟩ heq => by simp [(propertyLine_eq_none_iff _ _ n).2 heq] at hl,
    fun hne => ?_⟩
  obtain ⟨line, hl⟩ := Option.isSome_iff_exists.1
    (Option.ne_none_iff_isSome.1 (mt (propertyLine_eq_none_iff _ _ n).1 hne))
  have hu : n ∈ keyUnion (getProperties a).keys (getProperties b).keys := by
    by_contra hu
    simp only [mem_keyUnion, Py.Dict.mem_keys, not_or, Option.not_isSome_iff_eq_none] at hu
    exact hne (by rw [hu.1, hu.2])
  exact ⟨line, List.mem_append_left _ (List.mem_append_left _
    (List.mem_filterMap.2 ⟨n, (mem_of_sortedKeys hn).2 hu, hl⟩)), hl⟩

theorem diffElement_property_entry_valueless :
    let a := Node.elem (nsTag "Element") [("Type", "SqlTable"), ("Name", "[dbo].[T]")]
      [.elem (nsTag "Property") [("Name", "Owner")] []]
    let b := Node.elem (nsTag "Element") [("Type", "SqlTable"), ("Name", "[dbo].[T]")] []
    diffElement a b = some [] ∧ some "Owner" ∈ (getProperties a).keys ∧
      some "Owner" ∉ (getProperties b).keys ∧
      ((∃ line ∈ [], propertyLine (getProperties a) (getProperties b) (some "Owner") = some line) ↔
        ((getProperties a).get? (some "Owner")).join ≠
          ((getProperties b).get? (some "Owner")).join) := by
  intro a b
  have h : diffElement a b = some [] := by decide
  exact ⟨h, by decide, by decide, diffElement_property_entry h (some "Owner")⟩

/-! ## Sets of strings of an injective rendering

Both `set(str(e) ...)` of the relationship phase and `set(str(a) ...)` of the annotation phase
are the set of the values themselves, since `Entry.str` and `annStr` are injective. -/

section DedupMap

variable {α β : Type} [DecidableEq β] {f : α → β}

theorem map_mem_dedup_map (hf : Function.Injective f) {l : List α} {x : α} :
    f x ∈ (l.map f).dedup ↔ x ∈ l := by
  simp [hf.eq_iff]

theorem filter_dedup_map_eq_nil [DecidableEq α] (hf : Function.Injective f) {la lb : List α} :
    (la.map f).dedup.filter (fun s => s ∉ (lb.map f).dedup) = [] ↔ ∀ x ∈ la, x ∈ lb := by
  rw [List.dedup_map_of_injective hf la, List.filter_map, List.map_eq_nil_iff,
    List.filter_eq_nil_iff]
  simp [hf.eq_iff]

/-- The count of strings on one side only is the count of values on one side only. -/
theorem length_filter_dedup_map [DecidableEq α] (hf : Function.Injective f) (la lb : List α) :
    ((la.map f).dedup.filter fun s => s ∉ (lb.map f).dedup).length =
      (la.dedup.filter fun x => x ∉ lb).length := by
  rw [List.dedup_map_of_injective hf la, List.filter_map, List.length_map]
  congr 2
  funext x
  simp only [Function.comp_apply, map_mem_dedup_map hf]

end DedupMap

/-! ## Relationships -/

/-- A relationship is silent when its entry lists agree, or when it occurs on both sides with
the same set of entries. -/
theorem relationshipLine_eq_none_iff (ra rb : Py.Dict (Option String) (List Entry))
    (n : Option String) :
    relationshipLine ra rb n = none ↔ (ra.get? n).getD [] = (rb.get? n).getD [] ∨
      (n ∈ ra.keys ∧ n ∈ rb.keys ∧ ∀ e, e ∈ (ra.get? n).getD [] ↔ e ∈ (rb.get? n).getD []) := by
  unfold relationshipLine entryStrs
  dsimp only
  by_cases heq : (ra.get? n).getD [] = (rb.get? n).getD []
  · simp [heq]
  · have hset : (∀ e, e ∈ (ra.get? n).getD [] ↔ e ∈ (rb.get? n).getD []) ↔
        (∀ e ∈ (ra.get? n).getD [], e ∈ (rb.get? n).getD []) ∧
          ∀ e ∈ (rb.get? n).getD [], e ∈ (ra.get? n).getD [] :=
      ⟨fun h => ⟨fun e => (h e).1, fun e => (h e).2⟩, fun h e => ⟨h.1 e, h.2 e⟩⟩
    by_cases hb : n ∈ rb.keys <;> by_cases ha : n ∈ ra.keys <;>
      simp only [heq, ha, hb, ne_eq, not_false_eq_true, not_true_eq_false, if_true, if_false,
        filter_dedup_map_eq_nil Entry.str_injective, hset, false_or, true_and, and_true,
        reduceCtorEq, ite_eq_right_iff, imp_false, not_or, not_not, false_and, iff_self]

/-- For a name on either side, when the relationship phase writes a line. -/
theorem relationshipLine_isSome_iff {ra rb : Py.Dict (Option String) (List Entry)}
    {n : Option String} (hn : n ∈ ra.keys ∨ n ∈ rb.keys) :
    (relationshipLine ra rb n).isSome ↔
      (n ∉ rb.keys ∧ (ra.get? n).getD [] ≠ []) ∨ (n ∉ ra.keys ∧ (rb.get? n).getD [] ≠ []) ∨
        (n ∈ ra.keys ∧ n ∈ rb.keys ∧ ∃ e, ¬(e ∈ (ra.get? n).getD [] ↔ e ∈ (rb.get? n).getD [])) := by
  rw [Option.isSome_iff_ne_none, ne_eq, relationshipLine_eq_none_iff]
  simp only [Py.Dict.mem_keys] at hn ⊢
  rcases hA : ra.get? n with _ | la <;> rcases hB : rb.get? n with _ | lb <;> simp_all
  rintro e he rfl
  exact he Iff.rfl

/-- The relationship phase is silent exactly when every name has the same set of entries on
both sides, a missing relationship counting as one without entries. -/
theorem diffRelationships_eq_some_nil {ra rb : Py.Dict (Option String) (List Entry)}
    (h : diffRelationships ra rb = some []) (n : Option String) (e : Entry) :
    e ∈ (ra.get? n).getD [] ↔ e ∈ (rb.get? n).getD [] := by
  obtain ⟨names, hn, hl⟩ := Option.map_eq_some'.1 h
  by_cases hu : n ∈ keyUnion ra.keys rb.keys
  · rcases (relationshipLine_eq_none_iff ra rb n).1
      (List.filterMap_eq_nil_iff.1 hl n ((mem_of_sortedKeys hn).2 hu)) with heq | ⟨-, -, hset⟩
    · rw [heq]
    · exact hset e
  · simp only [mem_keyUnion, Py.Dict.mem_keys, not_or, Option.not_isSome_iff_eq_none] at hu
    rw [hu.1, hu.2]

/-- A relationship with the same set of entries on both sides is silent. -/
theorem relationshipLine_eq_none_of_mem_iff {ra rb : Py.Dict (Option String) (List Entry)}
    {n : Option String} (h : ∀ e, e ∈ (ra.get? n).getD [] ↔ e ∈ (rb.get? n).getD []) :
    relationshipLine ra rb n = none := by
  rw [relationshipLine_eq_none_iff]
  rcases ha : ra.get? n with _ | la <;> rcases hb : rb.get? n with _ | lb <;>
    simp only [ha, hb, Option.getD_none, Option.getD_some] at h ⊢
  · exact .inl trivial
  · exact .inl (List.eq_nil_iff_forall_not_mem.2 fun e he => by simpa using (h e).2 he).symm
  · exact .inl (List.eq_nil_iff_forall_not_mem.2 fun e he => by simpa using (h e).1 he)
  · exact .inr ⟨by simp [ha], by simp [hb], h⟩

/-- The relationship phase is silent when every name has the same set of entries on both sides
and no name is `None`. -/
theorem diffRelationships_eq_some_nil_of_forall {ra rb : Py.Dict (Option String) (List Entry)}
    (hnames : ∀ k ∈ keyUnion ra.keys rb.keys, k.isSome)
    (h : ∀ n e, e ∈ (ra.get? n).getD [] ↔ e ∈ (rb.get? n).getD []) :
    diffRelationships ra rb = some [] := by
  rw [diffRelationships, Py.sortedKeys_of_forall_isSome hnames, Option.map_some',
    List.filterMap_eq_nil_iff.2 fun n _ => relationshipLine_eq_none_of_mem_iff (h n)]

theorem relationshipLine_mem_of_diffRelationships {ra rb : Py.Dict (Option String) (List Entry)}
    {rl : List String} (h : diffRelationships ra rb = some rl) {n : Option String}
    (hn : n ∈ ra.keys ∨ n ∈ rb.keys) {line : String} (hl : relationshipLine ra rb n = some line) :
    line ∈ rl := by
  obtain ⟨names, hs, rfl⟩ := Option.map_eq_some'.1 h
  exact List.mem_filterMap.2 ⟨n, (mem_of_sortedKeys hs).2 (mem_keyUnion.2 hn), hl⟩

/-- A relationship that occurs on one side only, with no entries: the names differ, and nothing
is reported. -/
theorem diffElement_empty_relationship :
    (getRelationships (.elem (nsTag "Element") [("Type", "SqlTable"), ("Name", "[dbo].[T]")]
        [.elem (nsTag "Relationship") [("Name", "Columns")] []])).keys ≠
      (getRelationships (.elem (nsTag "Element") [("Type", "SqlTable"), ("Name", "[dbo].[T]")]
        [])).keys ∧
    diffElement
        (.elem (nsTag "Element") [("Type", "SqlTable"), ("Name", "[dbo].[T]")]
          [.elem (nsTag "Relationship") [("Name", "Columns")] []])
        (.elem (nsTag "Element") [("Type", "SqlTable"), ("Name", "[dbo].[T]")] []) =
      some [] := by
  decide

/-- **The relationship phase, in the whole diff.**  For a name on either side, `diff_element`
writes its line exactly when its entry lists differ and it is missing on one side, or when it is
on both sides with different sets of entries; on both sides, the line counts the entries. -/
theorem diffElement_relationship_entry {a b : Node} {ds : List String}
    (h : diffElement a b = some ds) {n : Option String}
    (hn : n ∈ (getRelationships a).keys ∨ n ∈ (getRelationships b).keys) :
    let ra := getRelationships a
    let rb := getRelationships b
    let ea := (ra.get? n).getD []
    let eb := (rb.get? n).getD []
    ((∃ line ∈ ds, relationshipLine ra rb n = some line) ↔
      (n ∉ rb.keys ∧ ea ≠ []) ∨ (n ∉ ra.keys ∧ eb ≠ []) ∨
        (n ∈ ra.keys ∧ n ∈ rb.keys ∧ ∃ e, ¬(e ∈ ea ↔ e ∈ eb))) ∧
      (n ∈ ra.keys → n ∈ rb.keys → ∀ line, relationshipLine ra rb n = some line →
        line = "    Relationship \"" ++ Py.fmt n ++ "\": " ++
          toString (eb.dedup.filter fun e => e ∉ ea).length ++ " only in dotnet, " ++
          toString (ea.dedup.filter fun e => e ∉ eb).length ++ " only in rust") := by
  intro ra rb ea eb
  obtain ⟨pl, rl, aa, ab, -, hr, -, -, rfl⟩ := diffElement_eq_some.1 h
  refine ⟨⟨fun ⟨line, _, hl⟩ => (relationshipLine_isSome_iff hn).1 (by simp [hl]), fun hc => ?_⟩,
    fun ha hb line hl => ?_⟩
  · obtain ⟨line, hl⟩ := Option.isSome_iff_exists.1 ((relationshipLine_isSome_iff hn).2 hc)
    exact ⟨line, List.mem_append_left _ (List.mem_append_right _
      (relationshipLine_mem_of_diffRelationships hr hn hl)), hl⟩
  · unfold relationshipLine entryStrs at hl
    simp only [ne_eq, ha, hb, not_true_eq_false, if_false] at hl
    split_ifs at hl
    cases hl
    rw [length_filter_dedup_map Entry.str_injective, length_filter_dedup_map Entry.str_injective]

theorem diffElement_relationship_entry_columns :
    let table := fun col => Node.elem (nsTag "Element") [("Type", "SqlTable"), ("Name", "[dbo].[T]")]
      [.elem (nsTag "Relationship") [("Name", "Columns")]
        [.elem (nsTag "Entry") [] [.elem (nsTag "References") [("Name", col)] []]]]
    let ds := ["    Relationship \"Columns\": 1 only in dotnet, 1 only in rust"]
    let n := some "Columns"
    diffElement (table "[a]") (table "[b]") = some ds ∧
      (n ∈ (getRelationships (table "[a]")).keys ∨ n ∈ (getRelationships (table "[b]")).keys) ∧
      let ra := getRelationships (table "[a]")
      let rb := getRelationships (table "[b]")
      let ea := (ra.get? n).getD []
      let eb := (rb.get? n).getD []
      ((∃ line ∈ ds, relationshipLine ra rb n = some line) ↔
        (n ∉ rb.keys ∧ ea ≠ []) ∨ (n ∉ ra.keys ∧ eb ≠ []) ∨
          (n ∈ ra.keys ∧ n ∈ rb.keys ∧ ∃ e, ¬(e ∈ ea ↔ e ∈ eb))) ∧
        (n ∈ ra.keys → n ∈ rb.keys → ∀ line, relationshipLine ra rb n = some line →
          line = "    Relationship \"" ++ Py.fmt n ++ "\": " ++
            toString (eb.dedup.filter fun e => e ∉ ea).length ++ " only in dotnet, " ++
            toString (ea.dedup.filter fun e => e ∉ eb).length ++ " only in rust") :=
  have h : diffElement _ _ = some _ := by decide
  have hn : some "Columns" ∈ (getRelationships _).keys ∨ _ := Or.inl (by decide)
  ⟨h, hn, diffElement_relationship_entry h hn⟩

/-! ## Annotations -/

/-- An annotation on one side only makes the line of its type. -/
theorem annotationLine_isSome {aa ab : List Ann} {y : Ann}
    (hy : y ∈ aa ∧ y ∉ ab ∨ y ∉ aa ∧ y ∈ ab) : (annotationLine aa ab y.1).isSome := by
  unfold annotationLine
  rw [if_pos]
  · rfl
  intro heq
  have hfa : y ∈ aa.filter (fun a => a.1 = y.1) ↔ y ∈ aa := by simp
  have hfb : y ∈ ab.filter (fun a => a.1 = y.1) ↔ y ∈ ab := by simp
  rw [heq, hfb] at hfa
  tauto

/-- The guard of the annotation phase holds exactly when the two sides differ as sets. -/
theorem annotationLines_guard_iff (aa ab : List Ann) :
    (aa ≠ ab ∧ ((annStrs aa).filter (fun s => s ∉ annStrs ab) ≠ [] ∨
      (annStrs ab).filter (fun s => s ∉ annStrs aa) ≠ [])) ↔ ¬∀ y, y ∈ aa ↔ y ∈ ab := by
  rw [annStrs, annStrs, ne_eq, ne_eq, ne_eq, filter_dedup_map_eq_nil annStr_injective,
    filter_dedup_map_eq_nil annStr_injective, ← not_and_or]
  constructor
  · rintro ⟨-, h⟩ hs
    exact h ⟨fun y => (hs y).1, fun y => (hs y).2⟩
  · intro h
    exact ⟨by rintro rfl; exact h fun _ => Iff.rfl, fun hs => h fun y => ⟨hs.1 y, hs.2 y⟩⟩

/-- **The annotation phase is silent exactly when the two sides have the same set of
annotations.** -/
theorem annotationLines_eq_nil_iff (aa ab : List Ann) :
    annotationLines aa ab = [] ↔ ∀ y, y ∈ aa ↔ y ∈ ab := by
  unfold annotationLines
  split_ifs with hg
  · have hne := (annotationLines_guard_iff aa ab).1 hg
    refine iff_of_false (fun h => ?_) hne
    push_neg at hne
    obtain ⟨y, hy⟩ := hne
    have hmem : y.1 ∈ Py.sortOn Py.strKey ((aa ++ ab).map Prod.fst).dedup :=
      (Py.mem_sortOn _).2 (List.mem_dedup.2 (List.mem_map_of_mem _
        (List.mem_append.2 (hy.imp And.left And.right))))
    exact Option.isSome_iff_ne_none.1 (annotationLine_isSome hy)
      (List.filterMap_eq_nil_iff.1 h _ hmem)
  · exact iff_of_true rfl (not_not.1 (mt (annotationLines_guard_iff aa ab).2 hg))

/-- The line of a type is there to be written exactly when the annotations of that type differ. -/
theorem annotationLine_isSome_iff {aa ab : List Ann} {t : String} :
    (annotationLine aa ab t).isSome ↔
      aa.filter (fun a => a.1 = t) ≠ ab.filter (fun a => a.1 = t) := by
  simp only [annotationLine]
  split_ifs with h <;> simp [h]

/-- **The annotation phase, type by type.**  The phase writes the line of a type `t` exactly when
the two sides differ as sets of annotations and their annotations of type `t` differ as lists.
So a type whose annotations differ only in how often one occurs is reported when some other
annotation is on one side only, and not otherwise. -/
theorem annotationLines_type_iff (aa ab : List Ann) (t : String) :
    (∃ line ∈ annotationLines aa ab, annotationLine aa ab t = some line) ↔
      (¬∀ y, y ∈ aa ↔ y ∈ ab) ∧ aa.filter (fun a => a.1 = t) ≠ ab.filter (fun a => a.1 = t) := by
  rw [← annotationLine_isSome_iff, ← annotationLines_guard_iff]
  unfold annotationLines
  split_ifs with hg
  · rw [and_iff_right hg]
    refine ⟨fun ⟨line, _, hl⟩ => by simp [hl], fun ht => ?_⟩
    obtain ⟨line, hl⟩ := Option.isSome_iff_exists.1 ht
    refine ⟨line, List.mem_filterMap.2 ⟨t, ?_, hl⟩, hl⟩
    rw [Py.mem_sortOn, List.mem_dedup]
    by_contra hn
    have hnil : ∀ l, l ⊆ aa ++ ab → l.filter (fun a => a.1 = t) = [] := fun l hl =>
      List.filter_eq_nil_iff.2 fun y hy hyt =>
        hn (List.mem_map.2 ⟨y, hl hy, of_decide_eq_true hyt⟩)
    exact annotationLine_isSome_iff.1 ht (by
      rw [hnil aa (List.subset_append_left _ _), hnil ab (List.subset_append_right _ _)])
  · exact iff_of_false (by simp) fun h => hg h.1

/-! ## A silent comparison -/

/-- **What an empty `diff_element` says.**  Every property reads the same on both sides, every
relationship name has the same set of entries, and the two sides have the same set of
annotations. -/
theorem diffElement_eq_some_nil {a b : Node} (h : diffElement a b = some []) :
    (∀ n, ((getProperties a).get? n).join = ((getProperties b).get? n).join) ∧
      (∀ n e, e ∈ ((getRelationships a).get? n).getD [] ↔
        e ∈ ((getRelationships b).get? n).getD []) ∧
      ∃ la lb, getAnnotations a = some la ∧ getAnnotations b = some lb ∧ ∀ y, y ∈ la ↔ y ∈ lb := by
  obtain ⟨pl, rl, aa, ab, hp, hr, ha, hb, hds⟩ := diffElement_eq_some.1 h
  obtain ⟨rfl, rfl, hann⟩ : pl = [] ∧ rl = [] ∧ annotationLines aa ab = [] := by
    simpa using hds.symm
  exact ⟨diffProperties_eq_some_nil hp, diffRelationships_eq_some_nil hr,
    aa, ab, ha, hb, (annotationLines_eq_nil_iff aa ab).1 hann⟩

/-! ## Swapping the two elements

Each phase is silent on a condition symmetric in the two sides, and whether a sort of names
raises depends only on the set of names, so an empty diff stays empty with the sides swapped. -/

theorem keyUnion_perm {κ : Type} [DecidableEq κ] {a b : List κ} (ha : a.Nodup) (hb : b.Nodup) :
    (keyUnion a b).Perm (keyUnion b a) := by
  have hnd : ∀ {a b : List κ}, a.Nodup → b.Nodup → (keyUnion a b).Nodup := fun ha hb =>
    ha.append (hb.filter _) fun k hka hkb => of_decide_eq_true (List.mem_filter.1 hkb).2 hka
  exact (List.perm_ext_iff_of_nodup (hnd ha hb) (hnd hb ha)).2 fun k => by simp [or_comm]

theorem isSome_sortedKeys_keyUnion_comm {a b : List (Option String)} (ha : a.Nodup) (hb : b.Nodup)
    (h : (Py.sortedKeys (keyUnion a b)).isSome) : (Py.sortedKeys (keyUnion b a)).isSome := by
  rw [Py.isSome_sortedKeys] at h ⊢
  rwa [← (keyUnion_perm ha hb).length_eq, ← (keyUnion_perm ha hb).mem_iff]

theorem diffProperties_comm_nil {pa pb : Py.Dict (Option String) (Option String)}
    (h : diffProperties pa pb = some []) : diffProperties pb pa = some [] := by
  obtain ⟨names, hn, -⟩ := Option.map_eq_some'.1 h
  obtain ⟨names', hn'⟩ := Option.isSome_iff_exists.1
    (isSome_sortedKeys_keyUnion_comm pa.nodup_keys pb.nodup_keys (by rw [hn]; rfl))
  rw [diffProperties, hn', Option.map_some', List.filterMap_eq_nil_iff.2 fun n _ =>
    (propertyLine_eq_none_iff _ _ n).2 (diffProperties_eq_some_nil h n).symm]

theorem diffRelationships_comm_nil {ra rb : Py.Dict (Option String) (List Entry)}
    (h : diffRelationships ra rb = some []) : diffRelationships rb ra = some [] := by
  obtain ⟨names, hn, -⟩ := Option.map_eq_some'.1 h
  obtain ⟨names', hn'⟩ := Option.isSome_iff_exists.1
    (isSome_sortedKeys_keyUnion_comm ra.nodup_keys rb.nodup_keys (by rw [hn]; rfl))
  rw [diffRelationships, hn', Option.map_some', List.filterMap_eq_nil_iff.2 fun n _ =>
    relationshipLine_eq_none_of_mem_iff fun e => (diffRelationships_eq_some_nil h n e).symm]

/-- An empty `diff_element` stays empty with the two elements swapped. -/
theorem diffElement_comm_nil {a b : Node} (h : diffElement a b = some []) :
    diffElement b a = some [] := by
  obtain ⟨pl, rl, aa, ab, hp, hr, ha, hb, hds⟩ := diffElement_eq_some.1 h
  obtain ⟨rfl, rfl, hann⟩ : pl = [] ∧ rl = [] ∧ annotationLines aa ab = [] := by
    simpa using hds.symm
  refine diffElement_eq_some.2 ⟨[], [], ab, aa, diffProperties_comm_nil hp,
    diffRelationships_comm_nil hr, hb, ha, ?_⟩
  rw [(annotationLines_eq_nil_iff ab aa).2 fun y => ((annotationLines_eq_nil_iff aa ab).1 hann y).symm]
  rfl

end DacpacCompare
