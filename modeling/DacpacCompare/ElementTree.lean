import DacpacCompare.Repr

/-!
# Elements as ElementTree parses them

Every document the script looks at reaches it through `xml.etree.ElementTree`, and the script
only ever asks an element four things: its tag, an attribute (`elem.get`), its text, and its
children with a given tag (`elem.find`, `elem.findall`).  A `Node` holds exactly that, with the
attributes a `Py.Dict` because ElementTree keeps them in one.  Tags carry their namespace in
braces, as ElementTree writes them; `nsTag` builds the tags of the dacpac schema and `stripNs`
is the script's `strip_ns`.

Parsing itself — text to `Node`, or the exception a malformed file raises — is ElementTree's
business and sits outside the model: a parsed file is a `Node`, and a file that does not parse
is a `none` where the script would raise.
-/

set_option autoImplicit false

namespace DacpacCompare

/-- An element as `xml.etree.ElementTree` parses it: its tag (namespace in braces), its
attributes, its text (`None` when it has none), and its children in document order. -/
inductive Node where
  | mk (tag : String) (attrib : Py.Dict String String) (text : Option String) (children : List Node)

namespace Node

/-- `elem.tag` -/
def tag : Node → String
  | mk t _ _ _ => t

/-- `elem.attrib` -/
def attrib : Node → Py.Dict String String
  | mk _ a _ _ => a

/-- `elem.text` -/
def text : Node → Option String
  | mk _ _ x _ => x

/-- `list(elem)` -/
def children : Node → List Node
  | mk _ _ _ cs => cs

/-- `elem.get(k)` -/
def get (e : Node) (k : String) : Option String := e.attrib.get? k

/-- `elem.findall(t)`: the children with tag `t`, in document order. -/
def findall (e : Node) (t : String) : List Node := e.children.filter fun c => c.tag = t

/-- `elem.find(t)`: the first child with tag `t`. -/
def find (e : Node) (t : String) : Option Node := e.children.find? fun c => c.tag = t

/-- `ET.Element(tag, attrib)` with the children `cs` and no text. -/
def elem (tag : String) (attrib : List (String × String)) (cs : List Node) : Node :=
  mk tag (Py.Dict.ofList attrib) none cs

@[simp] theorem tag_mk (t a x cs) : (mk t a x cs).tag = t := rfl
@[simp] theorem attrib_mk (t a x cs) : (mk t a x cs).attrib = a := rfl
@[simp] theorem text_mk (t a x cs) : (mk t a x cs).text = x := rfl
@[simp] theorem children_mk (t a x cs) : (mk t a x cs).children = cs := rfl

theorem find_eq_head?_findall (e : Node) (t : String) : e.find t = (e.findall t).head? := by
  simp [find, findall]

/-! ### Rearranging children

The changes a comparison is meant not to notice are rearrangements of children: `setChildren`
writes them, and the lemmas below say when a search over the children cannot tell. -/

/-- The element with its children replaced by `cs`. -/
def setChildren (e : Node) (cs : List Node) : Node := mk e.tag e.attrib e.text cs

@[simp] theorem tag_setChildren (e : Node) (cs : List Node) : (e.setChildren cs).tag = e.tag := rfl
@[simp] theorem attrib_setChildren (e : Node) (cs : List Node) :
    (e.setChildren cs).attrib = e.attrib := rfl
@[simp] theorem children_setChildren (e : Node) (cs : List Node) :
    (e.setChildren cs).children = cs := rfl
@[simp] theorem get_setChildren (e : Node) (cs : List Node) (k : String) :
    (e.setChildren cs).get k = e.get k := rfl
@[simp] theorem setChildren_children (e : Node) : e.setChildren e.children = e := by
  cases e; rfl

end Node

/-- Replacing one item by another that the search reads the same way does not change what the
search finds. -/
theorem find?_bind_replace {α β : Type} {p : α → Bool} {f : α → Option β} {c c' : α}
    (pre post : List α) (hp : p c' = p c) (hf : p c → f c' = f c) :
    ((pre ++ c' :: post).find? p).bind f = ((pre ++ c :: post).find? p).bind f := by
  simp only [List.find?_append, List.find?_cons, hp]
  cases pre.find? p with
  | some a => rfl
  | none => cases h : p c <;> simp [h, hf]

/-- The same for a search followed by a map. -/
theorem find?_map_replace {α β : Type} {p : α → Bool} {f : α → β} {c c' : α}
    (pre post : List α) (hp : p c' = p c) (hf : p c → f c' = f c) :
    ((pre ++ c' :: post).find? p).map f = ((pre ++ c :: post).find? p).map f := by
  simp only [Option.map_eq_bind]
  exact find?_bind_replace pre post hp fun h => by simp [hf h]

/-- The same for a filter followed by a map. -/
theorem map_filter_replace {α β : Type} {p : α → Bool} {f : α → β} {c c' : α}
    (pre post : List α) (hp : p c' = p c) (hf : p c → f c' = f c) :
    ((pre ++ c' :: post).filter p).map f = ((pre ++ c :: post).filter p).map f := by
  cases h : p c <;> simp [List.filter_append, List.filter_cons, hp, h, hf]


/-- The same for a filter followed by a `filterMap`. -/
theorem filterMap_filter_replace {α β : Type} {p : α → Bool} {f : α → Option β} {c c' : α}
    (pre post : List α) (hp : p c' = p c) (hf : p c → f c' = f c) :
    ((pre ++ c' :: post).filter p).filterMap f = ((pre ++ c :: post).filter p).filterMap f := by
  cases h : p c
  · simp [List.filter_append, List.filter_cons, hp, h]
  · simp only [List.filter_append, List.filter_cons, hp, h, if_true, List.filterMap_append,
      List.filterMap_cons, hf h]

/-- Replacing one item by a related one relates the two filtered lists item by item. -/
theorem forall₂_map_filter_replace {α β : Type} {p : α → Bool} {f : α → β} {R : β → β → Prop}
    (hR : ∀ b, R b b) {c c' : α} (pre post : List α) (hp : p c' = p c) (hf : p c → R (f c) (f c')) :
    List.Forall₂ R (((pre ++ c :: post).filter p).map f) (((pre ++ c' :: post).filter p).map f) := by
  have hrefl : ∀ l : List β, List.Forall₂ R l l := fun l => List.forall₂_same.2 fun b _ => hR b
  simp only [List.filter_append, List.filter_cons, hp, List.map_append]
  refine List.rel_append (hrefl _) ?_
  cases h : p c
  · exact hrefl _
  · exact List.Forall₂.cons (hf h) (hrefl _)

theorem mem_filter_replace {α : Type} {p : α → Bool} {c c' x : α} {pre post : List α}
    (hx : x ∈ (pre ++ c' :: post).filter p) : x = c' ∨ x ∈ (pre ++ c :: post).filter p := by
  simp only [List.mem_filter, List.mem_append, List.mem_cons] at hx ⊢
  tauto

/-- Among items of which at most one passes the test, the search finds it wherever it is. -/
theorem find?_eq_some_iff_of_unique {α : Type} {p : α → Bool} {l : List α}
    (hu : ∀ a ∈ l, ∀ b ∈ l, p a → p b → a = b) {a : α} : l.find? p = some a ↔ a ∈ l ∧ p a := by
  refine ⟨fun h => ⟨List.mem_of_find?_eq_some h, List.find?_some h⟩, fun ⟨ha, hpa⟩ => ?_⟩
  have hs : (l.find? p).isSome := List.find?_isSome.2 ⟨a, ha, hpa⟩
  obtain ⟨b, hb⟩ := Option.isSome_iff_exists.1 hs
  rw [hb, hu b (List.mem_of_find?_eq_some hb) a ha (List.find?_some hb) hpa]

theorem find?_perm_of_unique {α : Type} {p : α → Bool} {l l' : List α} (h : l.Perm l')
    (hu : ∀ a ∈ l, ∀ b ∈ l, p a → p b → a = b) : l.find? p = l'.find? p :=
  Option.ext fun a => by
    rw [Option.mem_def, Option.mem_def, find?_eq_some_iff_of_unique hu,
      find?_eq_some_iff_of_unique fun a ha b hb => hu a (h.mem_iff.2 ha) b (h.mem_iff.2 hb),
      h.mem_iff]

/-! ## The dacpac namespace -/

/-- `NS` -/
def NS : String := "http://schemas.microsoft.com/sqlserver/dac/Serialization/2012/02"

/-- `NS_BRACKET`, the namespace as ElementTree puts it in front of a tag. -/
def nsBracket : String := "\x7b" ++ NS ++ "\x7d"

/-- The tag ElementTree gives the schema's element `name`. -/
def nsTag (name : String) : String := nsBracket ++ name

/-- `strip_ns(tag)` -/
def stripNs (tag : String) : String :=
  if nsBracket.data.isPrefixOf tag.data then ⟨tag.data.drop nsBracket.data.length⟩ else tag

theorem stripNs_nsTag (name : String) : stripNs (nsTag name) = name := by
  simp [stripNs, nsTag, List.isPrefixOf_iff_prefix]

@[simp] theorem nsTag_inj {a b : String} : nsTag a = nsTag b ↔ a = b :=
  ⟨fun h => by rw [← stripNs_nsTag a, h, stripNs_nsTag], congrArg nsTag⟩

end DacpacCompare
