import DacpacCompare.Model.Header

/-!
# Comparing two model documents

`compare_model_xml` compares the headers, then indexes the `Element` children of each side's
`Model` by `element_key` and splits the keys three ways: keys only on the dotnet side
(`missing_in_rust`), keys only on the rust side (`extra_in_rust`), and common keys, whose two
elements go through `diff_element`; only the keys with a non-empty diff are kept.

The index is a dict, so when two elements of one side share a key the later one replaces the
earlier; the script lists such keys as duplicates on its diagnostic stream and goes on.  A
document without a `Model` makes the script raise, and so do the three sorts by display key
when the key of an untyped singleton element (display `None`) meets another key.

The sorts order keys by their display strings.  Two keys can share one (`("A B",)` and
`("A", "B")`); CPython then keeps them in the iteration order of the set, which depends on the
string hash seed, and the model keeps them in the order of the index.  Nothing proved here looks
at the order of two such keys.
-/

set_option autoImplicit false

namespace DacpacCompare

/-- The keys of `ks` that an earlier key repeats: `duplicates` in `index_elements`. -/
def duplicateKeys (seen : List ElementKey) : List ElementKey → List ElementKey
  | [] => []
  | k :: ks => (if k ∈ seen then [k] else []) ++ duplicateKeys (k :: seen) ks

/-- `index_elements(model)`: the dict from key to element, the last element with a key
winning, and the repeated keys. -/
def indexElements (model : Node) : Py.Dict ElementKey Node × List ElementKey :=
  let elems := model.findall (nsTag "Element")
  (Py.Dict.ofList (elems.map fun e => (elementKey e, e)), duplicateKeys [] (elems.map elementKey))

/-- `sorted(keys, key=lambda k: element_display_key(k))`.  A display key is `None` only for the
untyped singleton key, and it cannot be compared with another. -/
def sortedByDisplay (ks : List ElementKey) : Option (List ElementKey) :=
  if (ks.any fun k => elementDisplayKey k = none) ∧ 1 < ks.length then none
  else some (Py.sortOn (fun k => Py.optKey (elementDisplayKey k)) ks)

/-- `diff_element(elems_a[key], elems_b[key])` -/
def diffAt (ia ib : Py.Dict ElementKey Node) (k : ElementKey) : Option (List String) :=
  match ia.get? k, ib.get? k with
  | some a, some b => diffElement a b
  | _, _ => none

/-- The loop over the common keys that keeps the non-empty diffs. -/
def collectDifferences (ia ib : Py.Dict ElementKey Node) :
    List ElementKey → Option (List (ElementKey × List String))
  | [] => some []
  | k :: ks => do
    let d ← diffAt ia ib k
    let rest ← collectDifferences ia ib ks
    pure (if d = [] then rest else (k, d) :: rest)

/-- `results["elements"]` -/
structure ElementResults where
  missingInRust : List ElementKey
  extraInRust : List ElementKey
  differences : List (ElementKey × List String)
  totalRust : Nat
  totalDotnet : Nat
  deriving DecidableEq

/-- What `compare_model_xml` returns. -/
structure ModelResults where
  header : Status × List String
  elements : ElementResults
  deriving DecidableEq

/-- `compare_model_xml(path_a, path_b)` on the two parsed documents: `none` where it raises. -/
def compareModelXml (rootA rootB : Node) : Option ModelResults := do
  let modelA ← rootA.find (nsTag "Model")
  let modelB ← rootB.find (nsTag "Model")
  let ia := (indexElements modelA).1
  let ib := (indexElements modelB).1
  let missing ← sortedByDisplay (ib.keys.filter fun k => k ∉ ia.keys)
  let extra ← sortedByDisplay (ia.keys.filter fun k => k ∉ ib.keys)
  let common ← sortedByDisplay (ia.keys.filter fun k => k ∈ ib.keys)
  let differences ← collectDifferences ia ib common
  pure
    { header := compareHeader (rootA.find (nsTag "Header")) (rootB.find (nsTag "Header"))
      elements :=
        { missingInRust := missing
          extraInRust := extra
          differences := differences
          totalRust := ia.keys.length
          totalDotnet := ib.keys.length } }

/-- Whether the element comparison found nothing: no missing, no extra, no different
element. -/
def ElementResults.clean (r : ElementResults) : Prop :=
  r.missingInRust = [] ∧ r.extraInRust = [] ∧ r.differences = []

instance (r : ElementResults) : Decidable r.clean := inferInstanceAs (Decidable (_ ∧ _ ∧ _))

end DacpacCompare
