import DacpacCompare.Model.Read

/-!
# Comparing two elements

`diff_element(a, b)` runs three independent phases over two elements that share a key, and
concatenates their lines.

* **Properties** (`diffProperties`): over the sorted union of the property names, one line per
  name whose `.get` differs on the two sides.  `.get` answers `None` both for a missing name and
  for a property without a value, so the two are indistinguishable here.
* **Relationships** (`diffRelationships`): over the sorted union of the relationship names, a
  missing relationship is read as `[]`; lists that differ give a line when the name is missing
  on one side, and otherwise only when the *sets* of `str(e)` of the entries differ.
* **Annotations** (`annotationLines`): when the sorted lists differ *and* the sets of `str(a)`
  differ, one line per type whose annotations differ, with a count note when their numbers
  differ.

The two sorts of names raise `TypeError` when a name is missing alongside another, and
`get_annotations` can raise too; `diffElement` is `none` exactly then.
-/

set_option autoImplicit false

namespace DacpacCompare

/-- `set(a) | set(b)` for two lists of keys, as a list without repeats. -/
def keyUnion {κ : Type} [DecidableEq κ] (a b : List κ) : List κ := a ++ b.filter fun k => k ∉ a

/-! ## Properties -/

/-- The line the property phase writes for the property `name`, if any. -/
def propertyLine (pa pb : Py.Dict (Option String) (Option String)) (name : Option String) :
    Option String :=
  let va := (pa.get? name).join
  let vb := (pb.get? name).join
  if va ≠ vb then
    if name ∉ pb.keys then
      some ("    Property \"" ++ Py.fmt name ++ "\": missing in dotnet, rust=\"" ++ Py.fmt va ++ "\"")
    else if name ∉ pa.keys then
      some ("    Property \"" ++ Py.fmt name ++ "\": dotnet=\"" ++ Py.fmt vb ++ "\", missing in rust")
    else
      some ("    Property \"" ++ Py.fmt name ++ "\": dotnet=\"" ++ Py.fmt vb ++ "\", rust=\"" ++
        Py.fmt va ++ "\"")
  else none

section PropertyLines

variable {pa pb : Py.Dict (Option String) (Option String)} {n : Option String}

/-- The line for a property only the rust side has. -/
theorem propertyLine_missing_in_dotnet (hne : (pa.get? n).join ≠ (pb.get? n).join)
    (hb : n ∉ pb.keys) :
    propertyLine pa pb n = some ("    Property \"" ++ Py.fmt n ++ "\": missing in dotnet, rust=\"" ++
      Py.fmt (pa.get? n).join ++ "\"") := by
  simp only [propertyLine, if_pos hne, if_pos hb]

/-- The line for a property only the dotnet side has. -/
theorem propertyLine_missing_in_rust (hne : (pa.get? n).join ≠ (pb.get? n).join)
    (hb : n ∈ pb.keys) (ha : n ∉ pa.keys) :
    propertyLine pa pb n = some ("    Property \"" ++ Py.fmt n ++ "\": dotnet=\"" ++
      Py.fmt (pb.get? n).join ++ "\", missing in rust") := by
  simp only [propertyLine, if_pos hne, if_neg (not_not_intro hb), if_pos ha]

/-- The line for a property both sides have, with different values. -/
theorem propertyLine_both (hne : (pa.get? n).join ≠ (pb.get? n).join) (hb : n ∈ pb.keys)
    (ha : n ∈ pa.keys) :
    propertyLine pa pb n = some ("    Property \"" ++ Py.fmt n ++ "\": dotnet=\"" ++
      Py.fmt (pb.get? n).join ++ "\", rust=\"" ++ Py.fmt (pa.get? n).join ++ "\"") := by
  simp only [propertyLine, if_pos hne, if_neg (not_not_intro hb), if_neg (not_not_intro ha)]

end PropertyLines

/-- The property phase of `diff_element`. -/
def diffProperties (pa pb : Py.Dict (Option String) (Option String)) : Option (List String) :=
  (Py.sortedKeys (keyUnion pa.keys pb.keys)).map fun names => names.filterMap (propertyLine pa pb)

/-! ## Relationships -/

/-- `set(str(e) for e in entries)`, as a list without repeats. -/
def entryStrs (es : List Entry) : List String := (es.map Entry.str).dedup

/-- The line the relationship phase writes for the relationship `name`, if any. -/
def relationshipLine (ra rb : Py.Dict (Option String) (List Entry)) (name : Option String) :
    Option String :=
  let ea := (ra.get? name).getD []
  let eb := (rb.get? name).getD []
  if ea ≠ eb then
    if name ∉ rb.keys then
      some ("    Relationship \"" ++ Py.fmt name ++ "\": missing in dotnet, rust has " ++
        toString ea.length ++ " entries")
    else if name ∉ ra.keys then
      some ("    Relationship \"" ++ Py.fmt name ++ "\": dotnet has " ++ toString eb.length ++
        " entries, missing in rust")
    else
      let onlyRust := (entryStrs ea).filter fun s => s ∉ entryStrs eb
      let onlyDotnet := (entryStrs eb).filter fun s => s ∉ entryStrs ea
      if onlyRust ≠ [] ∨ onlyDotnet ≠ [] then
        some ("    Relationship \"" ++ Py.fmt name ++ "\": " ++ toString onlyDotnet.length ++
          " only in dotnet, " ++ toString onlyRust.length ++ " only in rust")
      else none
  else none

section RelationshipLines

variable {ra rb : Py.Dict (Option String) (List Entry)} {n : Option String}

/-- The line for a relationship only the rust side has. -/
theorem relationshipLine_missing_in_dotnet
    (hne : (ra.get? n).getD [] ≠ (rb.get? n).getD []) (hb : n ∉ rb.keys) :
    relationshipLine ra rb n = some ("    Relationship \"" ++ Py.fmt n ++
      "\": missing in dotnet, rust has " ++ toString ((ra.get? n).getD []).length ++ " entries") := by
  simp only [relationshipLine, if_pos hne, if_pos hb]

/-- The line for a relationship only the dotnet side has. -/
theorem relationshipLine_missing_in_rust
    (hne : (ra.get? n).getD [] ≠ (rb.get? n).getD []) (hb : n ∈ rb.keys) (ha : n ∉ ra.keys) :
    relationshipLine ra rb n = some ("    Relationship \"" ++ Py.fmt n ++ "\": dotnet has " ++
      toString ((rb.get? n).getD []).length ++ " entries, missing in rust") := by
  simp only [relationshipLine, if_pos hne, if_neg (not_not_intro hb), if_pos ha]

/-- The line for a relationship both sides have, with entries on one side only. -/
theorem relationshipLine_both (hne : (ra.get? n).getD [] ≠ (rb.get? n).getD [])
    (hb : n ∈ rb.keys) (ha : n ∈ ra.keys)
    (hsets : (entryStrs ((ra.get? n).getD [])).filter (· ∉ entryStrs ((rb.get? n).getD [])) ≠ [] ∨
      (entryStrs ((rb.get? n).getD [])).filter (· ∉ entryStrs ((ra.get? n).getD [])) ≠ []) :
    relationshipLine ra rb n = some ("    Relationship \"" ++ Py.fmt n ++ "\": " ++
      toString ((entryStrs ((rb.get? n).getD [])).filter (· ∉ entryStrs ((ra.get? n).getD []))).length ++
      " only in dotnet, " ++
      toString ((entryStrs ((ra.get? n).getD [])).filter (· ∉ entryStrs ((rb.get? n).getD []))).length ++
      " only in rust") := by
  simp only [relationshipLine, if_pos hne, if_neg (not_not_intro hb), if_neg (not_not_intro ha),
    if_pos hsets]

end RelationshipLines

/-- The relationship phase of `diff_element`. -/
def diffRelationships (ra rb : Py.Dict (Option String) (List Entry)) : Option (List String) :=
  (Py.sortedKeys (keyUnion ra.keys rb.keys)).map fun names =>
    names.filterMap (relationshipLine ra rb)

/-! ## Annotations -/

/-- `set(str(a) for a in anns)`, as a list without repeats. -/
def annStrs (anns : List Ann) : List String := (anns.map annStr).dedup

/-- The line the annotation phase writes for the type `t`, if any. -/
def annotationLine (aa ab : List Ann) (t : String) : Option String :=
  let rustOfType := aa.filter fun a => a.1 = t
  let dotnetOfType := ab.filter fun a => a.1 = t
  if rustOfType ≠ dotnetOfType then
    some ("    Annotation \"" ++ t ++ "\": differs" ++
      if rustOfType.length ≠ dotnetOfType.length then
        " (rust=" ++ toString rustOfType.length ++ ", dotnet=" ++ toString dotnetOfType.length ++ ")"
      else "")
  else none

/-- The line for an annotation type whose annotations differ on the two sides, with the count
note when their numbers differ. -/
theorem annotationLine_eq_some {aa ab : List Ann} {t : String}
    (hne : aa.filter (fun a => a.1 = t) ≠ ab.filter fun a => a.1 = t) :
    annotationLine aa ab t = some ("    Annotation \"" ++ t ++ "\": differs" ++
      if (aa.filter fun a => a.1 = t).length ≠ (ab.filter fun a => a.1 = t).length then
        " (rust=" ++ toString (aa.filter fun a => a.1 = t).length ++ ", dotnet=" ++
          toString (ab.filter fun a => a.1 = t).length ++ ")"
      else "") := by
  simp only [annotationLine, if_pos hne]

/-- The annotation phase of `diff_element`, on the two sorted annotation lists. -/
def annotationLines (aa ab : List Ann) : List String :=
  if aa ≠ ab ∧ ((annStrs aa).filter (fun s => s ∉ annStrs ab) ≠ [] ∨
      (annStrs ab).filter (fun s => s ∉ annStrs aa) ≠ []) then
    (Py.sortOn Py.strKey ((aa ++ ab).map Prod.fst).dedup).filterMap (annotationLine aa ab)
  else []

/-! ## The three phases together -/

/-- `diff_element(elem_a, elem_b)`: `none` where the script raises. -/
def diffElement (a b : Node) : Option (List String) := do
  let pl ← diffProperties (getProperties a) (getProperties b)
  let rl ← diffRelationships (getRelationships a) (getRelationships b)
  let aa ← getAnnotations a
  let ab ← getAnnotations b
  pure (pl ++ rl ++ annotationLines aa ab)

/-- **A difference in multiplicity alone is not reported.**  Two identical annotations against
one: the sorted lists differ, but their sets of strings do not, so the per-type report that would
carry the count note never runs. -/
theorem diffElement_annotation_multiplicity :
    getAnnotations (.elem (nsTag "Element") [("Type", "SqlTable"), ("Name", "[dbo].[T]")]
        [.elem (nsTag "AttachedAnnotation") [("Type", "SqlInlineConstraintAnnotation")] [],
          .elem (nsTag "AttachedAnnotation") [("Type", "SqlInlineConstraintAnnotation")] []]) ≠
      getAnnotations (.elem (nsTag "Element") [("Type", "SqlTable"), ("Name", "[dbo].[T]")]
        [.elem (nsTag "AttachedAnnotation") [("Type", "SqlInlineConstraintAnnotation")] []]) ∧
    diffElement
        (.elem (nsTag "Element") [("Type", "SqlTable"), ("Name", "[dbo].[T]")]
          [.elem (nsTag "AttachedAnnotation") [("Type", "SqlInlineConstraintAnnotation")] [],
            .elem (nsTag "AttachedAnnotation") [("Type", "SqlInlineConstraintAnnotation")] []])
        (.elem (nsTag "Element") [("Type", "SqlTable"), ("Name", "[dbo].[T]")]
          [.elem (nsTag "AttachedAnnotation") [("Type", "SqlInlineConstraintAnnotation")] []]) =
      some [] := by
  decide

end DacpacCompare
