import Mathlib.Logic.Relation
import DacpacCompare.ElementTree

/-!
# The simple XML files

`DacMetadata.xml` and `[Content_Types].xml` are compared by `compare_simple_xml`, which is meant
to ignore the order siblings are written in.  Each element is summarised by `xml_to_canonical`
— its tag, its attributes in key order, its stripped text — and the whole tree by `flatten`, a
pre-order listing of `(path, canonical string)` pairs that visits the children of each element
sorted by their canonical strings.  Two files are "ok" when their listings are equal.

`flatten` is written here by structural recursion, the children's listings computed first and
then sorted by the children's canonical strings; `flatten_mk` is the script's own formulation,
where the children are sorted first and then listed.

The sort key is the child's *own* canonical string, and the sort is stable.  Siblings may
therefore come in any order, at any depth, as long as those that share a canonical string keep
the order they were written in: `Reorder` is one such reordering, and no sequence of them changes
what `compare_simple_xml` says.  Two siblings whose tags, attributes and text agree but whose
subtrees differ are told apart by that order alone, and swapping them changes the listing.
-/

set_option autoImplicit false

namespace DacpacCompare

/-- The status of one file's comparison: `"ok"`, `"different"`, `"missing_in_rust"` or
`"missing_in_dotnet"`. -/
inductive Status
  | ok
  | different
  | missingInRust
  | missingInDotnet
  deriving DecidableEq, Repr

instance : Inhabited Status := ⟨.ok⟩

/-- `xml_to_canonical(elem)` -/
def xmlToCanonical (e : Node) : String :=
  let text := Py.strip (e.text.getD "")
  Py.join "|" (stripNs e.tag :: (Py.sortOn Py.strKey e.attrib.keys).map
    (fun k => k ++ "=" ++ (e.get k).getD "") ++ if text = "" then [] else ["text=" ++ text])

mutual
/-- `flatten(elem, path)` inside `compare_simple_xml`. -/
def flatten (path : String) : Node → List (String × String)
  | .mk tag attrib text cs =>
    (path ++ "/" ++ stripNs tag, xmlToCanonical (.mk tag attrib text cs)) ::
      (Py.sortOn (fun p => Py.strKey p.1) (flattenEach (path ++ "/" ++ stripNs tag) cs)).flatMap
        Prod.snd
/-- Each child's canonical string beside its listing. -/
def flattenEach (current : String) : List Node → List (String × List (String × String))
  | [] => []
  | c :: cs => (xmlToCanonical c, flatten current c) :: flattenEach current cs
end

theorem flattenEach_eq (current : String) (cs : List Node) :
    flattenEach current cs = cs.map fun c => (xmlToCanonical c, flatten current c) := by
  induction cs with
  | nil => rfl
  | cons c cs ih => simp [flattenEach, ih]

/-- `flatten` as the script writes it: sort the children by their canonical strings, then list
each of them. -/
theorem flatten_mk (path tag : String) (attrib : Py.Dict String String) (text : Option String)
    (cs : List Node) :
    flatten path (.mk tag attrib text cs) =
      (path ++ "/" ++ stripNs tag, xmlToCanonical (.mk tag attrib text cs)) ::
        (Py.sortOn (fun c => Py.strKey (xmlToCanonical c)) cs).flatMap
          (flatten (path ++ "/" ++ stripNs tag)) := by
  rw [flatten, flattenEach_eq, Py.sortOn_map, List.flatMap_map]

/-- The canonical string of an element does not read its children. -/
theorem xmlToCanonical_mk (tag : String) (attrib : Py.Dict String String) (text : Option String)
    (cs cs' : List Node) :
    xmlToCanonical (.mk tag attrib text cs) = xmlToCanonical (.mk tag attrib text cs') := rfl

/-- Children that share a canonical string with `c`, in the order they are written in. -/
def tiedWith (cs : List Node) (c : Node) : List Node :=
  cs.filter fun d => xmlToCanonical d = xmlToCanonical c

/-- A reordering of children that keeps the order of the children with each canonical string
leaves every run of the sort key alone. -/
theorem filter_key_eq_of_tied {cs cs' : List Node} (h : cs.Perm cs')
    (htied : ∀ c ∈ cs, tiedWith cs' c = tiedWith cs c) (k : List Char) :
    cs'.filter (fun d => Py.strKey (xmlToCanonical d) = k) =
      cs.filter fun d => Py.strKey (xmlToCanonical d) = k := by
  by_cases hk : ∃ c ∈ cs, Py.strKey (xmlToCanonical c) = k
  · obtain ⟨c, hc, rfl⟩ := hk
    have hcongr : ∀ l : List Node,
        l.filter (fun d => Py.strKey (xmlToCanonical d) = Py.strKey (xmlToCanonical c)) =
          tiedWith l c := fun l =>
      List.filter_congr fun d _ => decide_eq_decide.2 Py.strKey_injective.eq_iff
    rw [hcongr, hcongr, htied c hc]
  · push_neg at hk
    rw [List.filter_eq_nil_iff.2 fun d hd => by simpa using hk d (h.mem_iff.2 hd),
      List.filter_eq_nil_iff.2 fun d hd => by simpa using hk d hd]

/-- Children are listed in the same order whatever order they are written in, as long as the
children with each canonical string keep theirs. -/
theorem flatten_perm_children (path tag : String) (attrib : Py.Dict String String)
    (text : Option String) {cs cs' : List Node} (h : cs.Perm cs')
    (htied : ∀ c ∈ cs, tiedWith cs' c = tiedWith cs c) :
    flatten path (.mk tag attrib text cs') = flatten path (.mk tag attrib text cs) := by
  rw [flatten_mk, flatten_mk, xmlToCanonical_mk tag attrib text cs' cs,
    Py.sortOn_eq_of_filter_eq _ (filter_key_eq_of_tied h htied)]

/-! ## Reordering siblings -/

/-- One reordering of siblings, somewhere in the tree, that keeps the order of the siblings with
each canonical string. -/
inductive Reorder : Node → Node → Prop
  /-- Reorder the children of the element. -/
  | perm {tag : String} {attrib : Py.Dict String String} {text : Option String}
      {cs cs' : List Node} (h : cs.Perm cs') (htied : ∀ c ∈ cs, tiedWith cs' c = tiedWith cs c) :
      Reorder (.mk tag attrib text cs) (.mk tag attrib text cs')
  /-- Reorder below one child. -/
  | child {tag : String} {attrib : Py.Dict String String} {text : Option String}
      {pre post : List Node} {c c' : Node} (h : Reorder c c') :
      Reorder (.mk tag attrib text (pre ++ c :: post)) (.mk tag attrib text (pre ++ c' :: post))

theorem Reorder.canonical_eq {e e' : Node} (h : Reorder e e') :
    xmlToCanonical e' = xmlToCanonical e := by
  cases h <;> rfl

/-- One reordering leaves the listing. -/
theorem Reorder.flatten_eq {e e' : Node} (h : Reorder e e') (path : String) :
    flatten path e' = flatten path e := by
  induction h generalizing path with
  | perm h htied => exact flatten_perm_children _ _ _ _ h htied
  | child h ih =>
    rw [flatten, flatten, flattenEach_eq, flattenEach_eq]
    simp only [List.map_append, List.map_cons, h.canonical_eq, ih]
    rfl

theorem Reorder.run_flatten_eq {e e' : Node} (h : Relation.ReflTransGen Reorder e e')
    (path : String) : flatten path e' = flatten path e := by
  induction h with
  | refl => rfl
  | tail _ hs ih => rw [hs.flatten_eq, ih]

/-- `compare_simple_xml(path_a, path_b)`.  Each side is `none` when the file does not exist,
and otherwise what ElementTree made of it (`none` for a file it cannot parse).  The result is
`none` where the script raises, and otherwise the status, itself `none` where the script
returns `None` because neither side has the file.  The diff lines, computed by `difflib` for
the report only, are left out. -/
def compareSimpleXml (a b : Option (Option Node)) : Option (Option Status) :=
  match a, b with
  | none, none => some none
  | none, some _ => some (some .missingInRust)
  | some _, none => some (some .missingInDotnet)
  | some ta, some tb => do
    let ra ← ta
    let rb ← tb
    pure (some (if flatten "" ra = flatten "" rb then .ok else .different))

/-- **Reordering siblings goes unnoticed, as long as tied siblings keep their order.**  Any
sequence of reorderings that keep the order of the siblings sharing a canonical string, on either
side and at any depth, leaves what `compare_simple_xml` says, and a file compared with such a
reordering of itself is `"ok"`. -/
theorem compareSimpleXml_reorder {a a' b b' : Node} (ha : Relation.ReflTransGen Reorder a a')
    (hb : Relation.ReflTransGen Reorder b b') :
    compareSimpleXml (some (some a')) (some (some b')) =
        compareSimpleXml (some (some a)) (some (some b)) ∧
      compareSimpleXml (some (some a)) (some (some a')) = some (some .ok) := by
  simp [compareSimpleXml, Reorder.run_flatten_eq ha, Reorder.run_flatten_eq hb]

/-- The `<b>` child moved in front of two tied `<a>` children, which keep their order. -/
theorem compareSimpleXml_reorder_beside_tied :
    let a₁ := Node.elem "a" [] [.elem "x" [] []]
    let a₂ := Node.elem "a" [] [.elem "y" [] []]
    let b := Node.elem "b" [] []
    Relation.ReflTransGen Reorder (.elem "r" [] [a₁, a₂, b]) (.elem "r" [] [b, a₁, a₂]) ∧
    compareSimpleXml (some (some (.elem "r" [] [b, a₁, a₂]))) (some (some (.elem "r" [] [a₁, a₂, b]))) =
      compareSimpleXml (some (some (.elem "r" [] [a₁, a₂, b]))) (some (some (.elem "r" [] [a₁, a₂, b]))) ∧
    compareSimpleXml (some (some (.elem "r" [] [a₁, a₂, b]))) (some (some (.elem "r" [] [b, a₁, a₂]))) =
      some (some .ok) := by
  intro a₁ a₂ b
  have htied : ∀ c ∈ [a₁, a₂, b], tiedWith [b, a₁, a₂] c = tiedWith [a₁, a₂, b] c := by
    intro c hc
    simp only [List.mem_cons, List.not_mem_nil, or_false] at hc
    rcases hc with rfl | rfl | rfl <;> rfl
  have h : Relation.ReflTransGen Reorder (.elem "r" [] [a₁, a₂, b]) (.elem "r" [] [b, a₁, a₂]) :=
    .single (Reorder.perm (@List.perm_middle _ b [a₁, a₂] []) htied)
  exact ⟨h, compareSimpleXml_reorder h .refl⟩

/-- **Tied siblings keep their document order.**  The two `<a>` children agree on tag,
attributes and text and differ only below, so swapping them changes the listing and the file is
reported as different. -/
theorem compareSimpleXml_swapped_tied_siblings :
    compareSimpleXml
        (some (some (.elem "r" [] [.elem "a" [] [.elem "x" [] []], .elem "a" [] [.elem "y" [] []]])))
        (some (some (.elem "r" [] [.elem "a" [] [.elem "y" [] []], .elem "a" [] [.elem "x" [] []]]))) =
      some (some .different) := by
  decide

end DacpacCompare
