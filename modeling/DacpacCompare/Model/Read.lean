import DacpacCompare.ElementTree
import Mathlib.Data.Prod.Lex

/-!
# Reading a model element

`model.xml` is a flat list of `Element`s, each with a `Type`, usually a `Name`, and children of
three kinds: `Property` (a name and a value), `Relationship` (a name and a list of `Entry`s,
each a `References` to another element or an inline `Element`), and `AttachedAnnotation` (a
type and its own properties).  `diff_element` never compares elements directly; it compares
what these readers make of them.

* `getRefName` and `elementKey` — the identity of an element: its `(Type, Name)`, or for an
  unnamed element the names its `DefiningTable`, `ForColumn` and `DefiningColumn` relationships
  point at, or the bare type.  `get_ref_name` reads the *first* entry of the relationship.
* `getProperties` — the dict of property values; `propValue` is a `Value` attribute, or else
  the stripped text of a `Value` child, or `None`.
* `getRelationships` — the dict from relationship name to its entries, each entry reduced to an
  `Entry`: a reference's rendered key `Name` or `Name@ExternalSource`, or an inline element's
  fingerprint.
* `inlineElementFingerprint` — the string an inline element is compared by.  It is defined by
  structural recursion through the element's relationships and entries
  (`relParts`, `entryParts`, `firstInline`); `inlineElementFingerprint_eq` is the script's own
  formulation with `findall` and `find`.
* `getAnnotations` — the sorted list of `(type, sorted items)` of the annotations, the
  `Disambiguator` property removed.  Its two sorts raise `TypeError` on some inputs with
  missing names or values, as CPython's do; `sortedItems` and `sortAnns` say exactly when.
-/

set_option autoImplicit false

namespace DacpacCompare

/-- Python's truth value of a `str` or `None`: `some s` for a non-empty string. -/
def truthy (o : Option String) : Option String := o.filter fun s => s ≠ ""

/-! ## Keys -/

/-- `get_ref_name(elem, rel_name)`: the `Name` of the `References` of the first `Entry` of the
first `Relationship` called `rel_name`. -/
def getRefName (e : Node) (relName : String) : Option String := do
  let rel ← e.children.find? fun c => c.tag = nsTag "Relationship" ∧ c.get "Name" = some relName
  let entry ← rel.find (nsTag "Entry")
  let ref ← entry.find (nsTag "References")
  ref.get "Name"

/-- An element key: the tuple `(type, discriminator)` or the singleton `(type,)`. -/
inductive ElementKey
  | pair (type : Option String) (disc : String)
  | single (type : Option String)
  deriving DecidableEq, Repr

/-- `element_key(elem)` -/
def elementKey (e : Node) : ElementKey :=
  match e.get "Name" with
  | some name => .pair (e.get "Type") name
  | none =>
    match truthy (getRefName e "DefiningTable"), truthy (getRefName e "ForColumn"),
      truthy (getRefName e "DefiningColumn") with
    | some t, some c, _ => .pair (e.get "Type") ("DefiningTable=" ++ t ++ ",ForColumn=" ++ c)
    | some t, none, some c =>
      .pair (e.get "Type") ("DefiningTable=" ++ t ++ ",DefiningColumn=" ++ c)
    | some t, none, none => .pair (e.get "Type") ("DefiningTable=" ++ t)
    | none, _, _ => .single (e.get "Type")

/-- `element_display_key(key)`: `None` for the singleton key of an element without a type. -/
def elementDisplayKey : ElementKey → Option String
  | .pair t d => some (Py.fmt t ++ " " ++ d)
  | .single t => t

/-! ## Properties -/

/-- The value of a `Property`: its `Value` attribute, else the stripped text of its first
`Value` child, else `None`. -/
def propValue (p : Node) : Option String :=
  match p.get "Value" with
  | some v => some v
  | none => (p.find (nsTag "Value")).map fun v => Py.strip (v.text.getD "")

/-- `get_properties(elem)` -/
def getProperties (e : Node) : Py.Dict (Option String) (Option String) :=
  Py.Dict.ofList ((e.findall (nsTag "Property")).map fun p => (p.get "Name", propValue p))

/-! ## Relationships and the inline fingerprint -/

/-- A relationship entry as `get_relationships` records it: `("ref", key)` or
`("inline", fingerprint)`. -/
inductive Entry
  | ref (key : String)
  | inline (fingerprint : String)
  deriving DecidableEq, Repr

/-- `str(e)` of an entry. -/
def Entry.str : Entry → String
  | .ref k => Py.tuple (Py.repr "ref") (Py.repr k)
  | .inline f => Py.tuple (Py.repr "inline") (Py.repr f)

/-- The two strings of the tuple an entry is. -/
def Entry.parts : Entry → String × String
  | .ref k => ("ref", k)
  | .inline f => ("inline", f)

theorem Entry.str_eq (e : Entry) : e.str = Py.tuple (Py.repr e.parts.1) (Py.repr e.parts.2) := by
  cases e <;> rfl

/-- Distinct entries have distinct strings. -/
theorem Entry.str_injective : Function.Injective Entry.str := by
  intro x y hxy
  rw [Entry.str_eq, Entry.str_eq] at hxy
  have hinj := (Py.selfDelimiting_repr.tuple Py.selfDelimiting_repr).injective
  have := @hinj x.parts y.parts hxy
  cases x <;> cases y <;> simp_all [Entry.parts]

/-- The key of a `References`: its `Name` (empty when missing), followed by `@` and the
`ExternalSource` when that is non-empty. -/
def refKey (r : Node) : String :=
  match truthy (r.get "ExternalSource") with
  | some ext => (r.get "Name").getD "" ++ "@" ++ ext
  | none => (r.get "Name").getD ""

/-- The `P:` part of a property in the fingerprint. -/
def propPart (p : Node) : String := "P:" ++ Py.fmt (p.get "Name") ++ "=" ++ Py.fmt (propValue p)

/-- `repr` of a dict whose keys and values are `str` or `None`. -/
def reprDict (d : Py.Dict (Option String) (Option String)) : String :=
  Py.seq "\x7b" "\x7d" (d.items.map fun p => Py.reprOpt p.1 ++ ": " ++ Py.reprOpt p.2)

/-- The properties of an annotation as the script compares them, `Disambiguator` removed. -/
def annProps (ann : Node) : Py.Dict (Option String) (Option String) :=
  (getProperties ann).pop (some "Disambiguator")

/-- The `A:` part of an annotation in the fingerprint. -/
def annPart (ann : Node) : String :=
  "A:" ++ (ann.get "Type").getD "" ++ "=" ++ reprDict (annProps ann)

/-- The `R:` part of an entry whose target is written `target`. -/
def relPart (relName : Option String) (target : String) : String :=
  "R:" ++ Py.fmt relName ++ "=" ++ target

mutual
/-- `inline_element_fingerprint(elem)` -/
def inlineElementFingerprint : Node → String
  | .mk tag attrib text cs =>
    Py.join "|" ([((Node.mk tag attrib text cs).get "Type").getD ""] ++
      Py.sortOn Py.strKey (((Node.mk tag attrib text cs).findall (nsTag "Property")).map propPart) ++
      Py.sortOn Py.strKey (relParts cs) ++
      Py.sortOn Py.strKey
        (((Node.mk tag attrib text cs).findall (nsTag "AttachedAnnotation")).map annPart))
/-- The `R:` parts of the relationships among `cs`. -/
def relParts : List Node → List String
  | [] => []
  | rel :: cs =>
    (if rel.tag = nsTag "Relationship" then entryPartsOf (rel.get "Name") rel else []) ++
      relParts cs
/-- The `R:` parts of one relationship. -/
def entryPartsOf (relName : Option String) : Node → List String
  | .mk _ _ _ entries => entryParts relName entries
/-- The `R:` parts of the entries among `es`. -/
def entryParts (relName : Option String) : List Node → List String
  | [] => []
  | entry :: es =>
    (if entry.tag = nsTag "Entry" then (entryPart relName entry).toList else []) ++
      entryParts relName es
/-- The `R:` part of one entry: its first `References`, else its first inline `Element`. -/
def entryPart (relName : Option String) : Node → Option String
  | .mk _ _ _ cs =>
    match cs.find? fun c => c.tag = nsTag "References" with
    | some ref => some (relPart relName (refKey ref))
    | none => (firstInline cs).map fun f => relPart relName ("(" ++ f ++ ")")
/-- The fingerprint of the first inline `Element` among `cs`. -/
def firstInline : List Node → Option String
  | [] => none
  | c :: cs => if c.tag = nsTag "Element" then some (inlineElementFingerprint c) else firstInline cs
end

theorem firstInline_eq (cs : List Node) :
    firstInline cs = (cs.find? fun c => c.tag = nsTag "Element").map inlineElementFingerprint := by
  induction cs with
  | nil => rfl
  | cons c cs ih => by_cases h : c.tag = nsTag "Element" <;> simp [firstInline, h, ih]

/-- The `R:` part of an entry, as the script reads it off the entry. -/
def entryPart' (relName : Option String) (entry : Node) : Option String :=
  match entry.find (nsTag "References") with
  | some ref => some (relPart relName (refKey ref))
  | none => (entry.find (nsTag "Element")).map fun inner =>
      relPart relName ("(" ++ inlineElementFingerprint inner ++ ")")

theorem entryPart_eq (relName : Option String) (entry : Node) :
    entryPart relName entry = entryPart' relName entry := by
  cases entry
  simp only [entryPart, entryPart', Node.find, Node.children_mk, firstInline_eq, Option.map_map]
  rfl

theorem entryParts_eq (relName : Option String) (es : List Node) :
    entryParts relName es =
      (es.filter fun e => e.tag = nsTag "Entry").filterMap (entryPart' relName) := by
  induction es with
  | nil => rfl
  | cons e es ih =>
    by_cases h : e.tag = nsTag "Entry" <;>
      cases hp : entryPart' relName e <;> simp [entryParts, h, ih, entryPart_eq, hp]

theorem relParts_eq (cs : List Node) :
    relParts cs = (cs.filter fun c => c.tag = nsTag "Relationship").flatMap fun rel =>
      (rel.findall (nsTag "Entry")).filterMap (entryPart' (rel.get "Name")) := by
  induction cs with
  | nil => rfl
  | cons c cs ih =>
    cases c with
    | mk t a x es =>
      by_cases h : t = nsTag "Relationship" <;>
        simp_all [relParts, entryPartsOf, entryParts_eq, Node.findall]

theorem relParts_append (cs cs' : List Node) : relParts (cs ++ cs') = relParts cs ++ relParts cs' := by
  simp [relParts_eq, List.filter_append]

/-- **The fingerprint as the script computes it.** -/
theorem inlineElementFingerprint_eq (e : Node) :
    inlineElementFingerprint e =
      Py.join "|" ([(e.get "Type").getD ""] ++
        Py.sortOn Py.strKey ((e.findall (nsTag "Property")).map propPart) ++
        Py.sortOn Py.strKey ((e.findall (nsTag "Relationship")).flatMap fun rel =>
          (rel.findall (nsTag "Entry")).filterMap (entryPart' (rel.get "Name"))) ++
        Py.sortOn Py.strKey ((e.findall (nsTag "AttachedAnnotation")).map annPart)) := by
  cases e
  rw [inlineElementFingerprint, relParts_eq]
  rfl

/-- The entry `get_relationships` records for an `Entry` element, if any. -/
def entryOf (entry : Node) : Option Entry :=
  match entry.find (nsTag "References") with
  | some ref => some (.ref (refKey ref))
  | none => (entry.find (nsTag "Element")).map fun inner => .inline (inlineElementFingerprint inner)

/-- `get_relationships(elem)` -/
def getRelationships (e : Node) : Py.Dict (Option String) (List Entry) :=
  Py.Dict.ofList ((e.findall (nsTag "Relationship")).map fun rel =>
    (rel.get "Name", (rel.findall (nsTag "Entry")).filterMap entryOf))

/-! ## Annotations -/

/-- One item of an annotation's property dict. -/
abbrev Item := Option String × Option String

/-- What `get_annotations` records for one annotation: its type and its sorted items. -/
abbrev Ann := String × List Item

/-- Python's order on an item, a tuple compared key first. -/
def itemKey (p : Item) : WithBot (List Char) ×ₗ WithBot (List Char) :=
  toLex (Py.optKey p.1, Py.optKey p.2)

theorem itemKey_injective : Function.Injective itemKey := fun p q h => by
  have := Prod.ext_iff.1 (toLex.injective h)
  exact Prod.ext (Py.optKey_injective this.1) (Py.optKey_injective this.2)

/-- `sorted(props.items())`.  The keys are distinct, so two items always differ in their keys and
the values are never compared; the sort raises exactly when `None` is one of two or more keys
(see `Py.sortedKeys`). -/
def sortedItems (d : Py.Dict (Option String) (Option String)) : Option (List Item) :=
  if none ∈ d.keys ∧ 1 < d.keys.length then none else some (Py.sortOn itemKey d.items)

/-- Whether Python can compare two items that differ: the first place they differ must hold
two strings. -/
def itemComparable (x y : Item) : Bool :=
  if x.1 = y.1 then x.2.isSome && y.2.isSome else x.1.isSome && y.1.isSome

/-- Whether Python can compare two item lists: they agree, or one extends the other, or their
first differing items are comparable. -/
def itemsComparable : List Item → List Item → Bool
  | x :: xs, y :: ys => if x = y then itemsComparable xs ys else itemComparable x y
  | _, _ => true

/-- Whether Python can compare two annotations. -/
def annComparable (a b : Ann) : Bool := a.1 ≠ b.1 || itemsComparable a.2 b.2

/-- Python's order on annotations, with `None` placed below every string; on two annotations
Python can compare, it is Python's order. -/
def annKey (a : Ann) : List Char ×ₗ List (WithBot (List Char) ×ₗ WithBot (List Char)) :=
  toLex (Py.strKey a.1, a.2.map itemKey)

theorem annKey_injective : Function.Injective annKey := fun a b h => by
  have := Prod.ext_iff.1 (toLex.injective h)
  exact Prod.ext (Py.strKey_injective this.1) ((List.map_injective_iff.2 itemKey_injective) this.2)

theorem itemComparable_comm (x y : Item) : itemComparable x y = itemComparable y x := by
  by_cases h : x.1 = y.1 <;> simp [itemComparable, h, eq_comm, Bool.and_comm]

theorem itemsComparable_comm : ∀ xs ys : List Item, itemsComparable xs ys = itemsComparable ys xs
  | [], [] | [], _ :: _ | _ :: _, [] => rfl
  | x :: xs, y :: ys => by
    by_cases h : x = y
    · simp [itemsComparable, h, itemsComparable_comm xs ys]
    · simp [itemsComparable, h, Ne.symm h, itemComparable_comm]

theorem annComparable_comm (a b : Ann) : annComparable a b = annComparable b a := by
  simp [annComparable, eq_comm, itemsComparable_comm]

/-- `anns.sort()`.  CPython raises as soon as it compares two annotations it cannot compare, and
for these values that happens exactly when two such annotations are present: no annotation
lies strictly between two of them while being comparable with both, so a sort that never
compared them could not have put them in order. -/
def sortAnns (anns : List Ann) : Option (List Ann) :=
  if anns.Pairwise fun a b => annComparable a b then some (Py.sortOn annKey anns) else none

/-- Sorting annotations forgets the order they came in. -/
theorem sortAnns_perm {l l' : List Ann} (h : l.Perm l') : sortAnns l = sortAnns l' := by
  have hpw := h.pairwise_iff fun {a b} (hab : annComparable a b = true) => by
    rwa [annComparable_comm]
  unfold sortAnns
  split_ifs with h₁ h₂ h₂
  · rw [Py.sortOn_eq_of_perm annKey annKey_injective h]
  · exact absurd (hpw.1 h₁) h₂
  · exact absurd (hpw.2 h₂) h₁
  · rfl

/-- Sorting the items of a dict forgets the order they came in. -/
theorem sortedItems_perm {d d' : Py.Dict (Option String) (Option String)} (h : d.items.Perm d'.items) :
    sortedItems d = sortedItems d' := by
  have hk : d.keys.Perm d'.keys := h.map _
  unfold sortedItems
  simp only [hk.length_eq, hk.mem_iff, Py.sortOn_eq_of_perm itemKey itemKey_injective h]

/-- The entry `get_annotations` records for one annotation. -/
def annOf (ann : Node) : Option Ann :=
  (sortedItems (annProps ann)).map fun items => ((ann.get "Type").getD "", items)

/-- `get_annotations(elem)` -/
def getAnnotations (e : Node) : Option (List Ann) :=
  ((e.findall (nsTag "AttachedAnnotation")).mapM annOf).bind sortAnns

/-- `get_annotations` reads the annotations only through `annOf`. -/
theorem getAnnotations_congr {e e' : Node}
    (h : (e'.findall (nsTag "AttachedAnnotation")).map annOf =
      (e.findall (nsTag "AttachedAnnotation")).map annOf) :
    getAnnotations e' = getAnnotations e := by
  rw [getAnnotations, getAnnotations, Py.mapM_congr_map h]

/-- `get_annotations` forgets the order of the annotations. -/
theorem getAnnotations_perm {e e' : Node}
    (h : (e.findall (nsTag "AttachedAnnotation")).Perm (e'.findall (nsTag "AttachedAnnotation"))) :
    getAnnotations e = getAnnotations e' := by
  unfold getAnnotations
  by_cases hall : ∀ a ∈ e.findall (nsTag "AttachedAnnotation"), (annOf a).isSome
  · have hall' : ∀ a ∈ e'.findall (nsTag "AttachedAnnotation"), (annOf a).isSome :=
      fun a ha => hall a (h.mem_iff.2 ha)
    rw [Py.mapM_eq_some_iff.2 ⟨hall, rfl⟩, Py.mapM_eq_some_iff.2 ⟨hall', rfl⟩, Option.some_bind,
      Option.some_bind, sortAnns_perm (h.filterMap annOf)]
  · have hall' : ¬∀ a ∈ e'.findall (nsTag "AttachedAnnotation"), (annOf a).isSome :=
      fun h' => hall fun a ha => h' a (h.mem_iff.1 ha)
    rw [Option.not_isSome_iff_eq_none.1 (mt Py.isSome_mapM_iff.1 hall),
      Option.not_isSome_iff_eq_none.1 (mt Py.isSome_mapM_iff.1 hall')]

/-- `str(a)` of an annotation. -/
def annStr (a : Ann) : String :=
  Py.tuple (Py.repr a.1) (Py.seq "[" "]" (a.2.map fun p => Py.tuple (Py.reprOpt p.1) (Py.reprOpt p.2)))

/-- Distinct annotations have distinct strings. -/
theorem annStr_injective : Function.Injective annStr := by
  have hitem := Py.selfDelimiting_reprOpt.tuple Py.selfDelimiting_reprOpt
  have hstart : ∀ p : Item, ∃ h t, (Py.tuple (Py.reprOpt p.1) (Py.reprOpt p.2)).data = h :: t ∧
      h ≠ ']' := fun p => ⟨'(', _, by simp [Py.tuple]; rfl, by decide⟩
  exact (Py.selfDelimiting_repr.tuple
    (hitem.seq "[" "]" (show "]".data = [']'] from rfl) (by decide) hstart)).injective

end DacpacCompare
