import Mathlib.Data.List.Basic
import Mathlib.Data.List.Perm.Basic
import Mathlib.Data.String.Basic
import DacpacCompare.SimpleXml

/-!
# What an "ok" from `compare_simple_xml` tells

`compare_simple_xml` calls two files "ok" when `flatten` lists them alike.  This file says when
that means the two trees are the same, up to the order of children at every depth
(`SameUpToOrder`): same tags once the namespace is stripped, same attributes as maps, same text
once stripped.

`xml_to_canonical` joins its parts with `|` and writes each attribute as `k=v`, with nothing
escaped, so the listing can only be read back when the strings of each element leave those
separators alone (`CanonLocal`, and at every depth `CanonOk`).  Otherwise two different elements
share a canonical string: an attribute named `text` passes for the element's text, and a value
holding `|b=2` for a second attribute.

What is here:

* `Py.data_join` and `splitOn_canonical` — the canonical string split at `|` gives back its parts,
  and `xmlToCanonical_inj` reads the tag, the attributes and the text off them.
* `level` and `Shallow` — the depth of the parent of an entry, read off the entry itself.  Every
  entry of a listing under the path `p` is at depth `p.length` or below, which is what lets a
  listing be cut into the listings of the siblings.
* `flatten_append_inj` and `flatMap_flatten_append_inj` — a listing followed by shallower entries
  determines the element up to the order of its children, and the entries that follow, by
  induction on the element with the children's listings read back one after another.
-/

set_option autoImplicit false

namespace DacpacCompare

namespace Py

/-- `sep.join(parts)` is the parts with the separator between them. -/
theorem data_join (sep : String) : ∀ ps : List String,
    (join sep ps).data = sep.data.intercalate (ps.map String.data)
  | [] => rfl
  | [p] => by simp [join, List.intercalate]
  | p :: q :: ps => by
    rw [data_join_cons_cons, data_join sep (q :: ps)]
    simp [List.intercalate, List.append_assoc]

/-- Splitting a join at a one-character separator that no part holds gives back the parts. -/
theorem splitOn_join {c : Char} {ps : List String} (h : ∀ p ∈ ps, c ∉ p.data)
    (hne : ps ≠ []) :
    (join ⟨[c]⟩ ps).data.splitOn c = ps.map String.data := by
  rw [data_join]
  exact List.splitOn_intercalate _ c (by simpa using h) (by simpa using hne)

end Py

/-! ## Reading the canonical string back -/

/-- The `k=v` parts of `xml_to_canonical`, in key order. -/
def attribParts (e : Node) : List String :=
  (Py.sortOn Py.strKey e.attrib.keys).map fun k => k ++ "=" ++ (e.get k).getD ""

/-- The `text=` part of `xml_to_canonical`, left out when the stripped text is empty. -/
def textParts (text : String) : List String := if text = "" then [] else ["text=" ++ text]

/-- The parts `xml_to_canonical` joins with `|`. -/
def canonicalParts (e : Node) : List String :=
  stripNs e.tag :: (attribParts e ++ textParts (Py.strip (e.text.getD "")))

theorem xmlToCanonical_eq (e : Node) : xmlToCanonical e = Py.join "|" (canonicalParts e) := rfl

/-- What `xml_to_canonical` needs of one element to be read back: the strings it writes leave
the separators `|` and `=` alone, and no attribute is called `text`. -/
structure CanonLocal (e : Node) : Prop where
  /-- The tag, once its namespace is stripped, has no `|`. -/
  tag : '|' ∉ (stripNs e.tag).data
  /-- No attribute name has a `|` or a `=`, and none is `text`. -/
  names : ∀ k ∈ e.attrib.keys, '|' ∉ k.data ∧ '=' ∉ k.data ∧ k ≠ "text"
  /-- No attribute value has a `|`. -/
  values : ∀ k ∈ e.attrib.keys, '|' ∉ ((e.get k).getD "").data
  /-- The stripped text has no `|`. -/
  text : '|' ∉ (Py.strip (e.text.getD "")).data

instance (e : Node) : Decidable (CanonLocal e) :=
  decidable_of_iff ('|' ∉ (stripNs e.tag).data ∧
      (∀ k ∈ e.attrib.keys, '|' ∉ k.data ∧ '=' ∉ k.data ∧ k ≠ "text") ∧
      (∀ k ∈ e.attrib.keys, '|' ∉ ((e.get k).getD "").data) ∧
      '|' ∉ (Py.strip (e.text.getD "")).data)
    ⟨fun ⟨a, b, c, d⟩ => ⟨a, b, c, d⟩, fun ⟨a, b, c, d⟩ => ⟨a, b, c, d⟩⟩

theorem CanonLocal.not_mem_parts {e : Node} (h : CanonLocal e) :
    ∀ p ∈ canonicalParts e, '|' ∉ p.data := by
  simp only [canonicalParts, attribParts, textParts, List.mem_cons, List.mem_append,
    List.mem_map, Py.mem_sortOn]
  rintro p (rfl | ⟨k, hk, rfl⟩ | hp)
  · exact h.tag
  · simpa [(h.names k hk).1] using h.values k hk
  · split_ifs at hp
    · exact absurd hp (List.not_mem_nil p)
    · rw [List.mem_singleton.1 hp]
      simpa using h.text

theorem splitOn_canonical {e : Node} (h : CanonLocal e) :
    (xmlToCanonical e).data.splitOn '|' = (canonicalParts e).map String.data :=
  Py.splitOn_join h.not_mem_parts (List.cons_ne_nil _ _)

/-- A part read at its first `=`: the name before it and the value after it. -/
def readPart (s : String) : List Char × List Char :=
  (s.data.takeWhile (· != '='), (s.data.dropWhile (· != '=')).drop 1)

theorem readPart_append {k : String} (hk : '=' ∉ k.data) (v : String) :
    readPart (k ++ "=" ++ v) = (k.data, v.data) := by
  have hk' : ∀ c ∈ k.data, (c != '=') = true := fun c hc => bne_iff_ne.2 fun h => hk (h ▸ hc)
  rw [readPart, String.data_append, String.data_append, List.append_assoc,
    List.takeWhile_append_of_pos hk', List.dropWhile_append_of_pos hk']
  simp

theorem readPart_text (t : String) : readPart ("text=" ++ t) = ("text".data, t.data) :=
  readPart_append (k := "text") (by decide) t

theorem map_readPart_attribParts {e : Node} (h : ∀ k ∈ e.attrib.keys, '=' ∉ k.data) :
    (attribParts e).map readPart =
      (Py.sortOn Py.strKey e.attrib.keys).map fun k => (k.data, ((e.get k).getD "").data) := by
  rw [attribParts, List.map_map, List.map_inj_left]
  exact fun k hk => readPart_append (h k ((Py.mem_sortOn _).1 hk)) _

/-- Leaving out the parts named `text` leaves the attribute parts. -/
theorem filter_attribParts_append {e : Node} (h : CanonLocal e) (t : String) :
    (attribParts e ++ textParts t).filter (fun s => (readPart s).1 ≠ "text".data) =
      attribParts e := by
  rw [List.filter_append, List.filter_eq_self.2, List.filter_eq_nil_iff.2, List.append_nil]
  · intro s hs
    simp only [textParts] at hs
    split_ifs at hs
    · exact absurd hs (List.not_mem_nil s)
    · simp [List.mem_singleton.1 hs, readPart_text]
  · simp only [attribParts, List.mem_map, Py.mem_sortOn]
    rintro _ ⟨k, hk, rfl⟩
    simpa [readPart_append (h.names k hk).2.1, String.ext_iff] using (h.names k hk).2.2

/-- The attribute parts come before the text part, which is told apart by its name `text`. -/
theorem attribParts_eq_of_append {e e' : Node} {t t' : String} (h : CanonLocal e)
    (h' : CanonLocal e') (heq : attribParts e ++ textParts t = attribParts e' ++ textParts t') :
    attribParts e = attribParts e' ∧ textParts t = textParts t' := by
  have hattr : attribParts e = attribParts e' := by
    rw [← filter_attribParts_append h t, ← filter_attribParts_append h' t', heq]
  rw [hattr] at heq
  exact ⟨hattr, List.append_cancel_left heq⟩

theorem get?_eq_of_attribParts_eq {e e' : Node} (h : ∀ k ∈ e.attrib.keys, '=' ∉ k.data)
    (h' : ∀ k ∈ e'.attrib.keys, '=' ∉ k.data) (heq : attribParts e = attribParts e')
    (k : String) :
    e.get k = e'.get k := by
  have hr := congrArg (List.map readPart) heq
  rw [map_readPart_attribParts h, map_readPart_attribParts h'] at hr
  have hkeys : Py.sortOn Py.strKey e.attrib.keys = Py.sortOn Py.strKey e'.attrib.keys :=
    List.map_injective_iff.2 (fun _ _ => String.ext) (by
      simpa [List.map_map, Function.comp_def] using congrArg (List.map Prod.fst) hr)
  have hmem : k ∈ e.attrib.keys ↔ k ∈ e'.attrib.keys := by
    rw [← Py.mem_sortOn Py.strKey, hkeys, Py.mem_sortOn]
  rw [hkeys, List.map_inj_left] at hr
  by_cases hk : k ∈ e'.attrib.keys
  · obtain ⟨v, hv⟩ := Option.isSome_iff_exists.1 (Py.Dict.mem_keys.1 (hmem.2 hk))
    obtain ⟨v', hv'⟩ := Option.isSome_iff_exists.1 (Py.Dict.mem_keys.1 hk)
    have hval := (Prod.mk.inj (hr k ((Py.mem_sortOn _).2 hk))).2
    simp only [Node.get, hv, hv', Option.getD_some] at hval ⊢
    rw [String.ext hval]
  · simp only [Node.get]
    rw [Option.not_isSome_iff_eq_none.1 (mt Py.Dict.mem_keys.2 (mt hmem.1 hk)),
      Option.not_isSome_iff_eq_none.1 (mt Py.Dict.mem_keys.2 hk)]

theorem textParts_inj {t t' : String} (h : textParts t = textParts t') : t = t' := by
  simp only [textParts] at h
  split_ifs at h with h₁ h₂
  · rw [h₁, h₂]
  · have hd := congrArg String.data (List.singleton_inj.1 h)
    simp only [String.data_append, List.append_cancel_left_eq] at hd
    exact String.ext hd

/-- **The canonical string determines the element.**  Two elements whose strings leave the
separators alone have one canonical string only when they agree on the stripped tag, on every
attribute and on the stripped text. -/
theorem xmlToCanonical_inj {e e' : Node} (h : CanonLocal e) (h' : CanonLocal e')
    (heq : xmlToCanonical e = xmlToCanonical e') :
    stripNs e.tag = stripNs e'.tag ∧ (∀ k, e.get k = e'.get k) ∧
      Py.strip (e.text.getD "") = Py.strip (e'.text.getD "") := by
  have hparts : canonicalParts e = canonicalParts e' :=
    List.map_injective_iff.2 (fun _ _ => String.ext)
      (by rw [← splitOn_canonical h, ← splitOn_canonical h', heq])
  obtain ⟨htag, hrest⟩ := List.cons.inj hparts
  obtain ⟨hattr, htext⟩ := attribParts_eq_of_append h h' hrest
  exact ⟨htag, get?_eq_of_attribParts_eq (fun k hk => (h.names k hk).2.1)
    (fun k hk => (h'.names k hk).2.1) hattr, textParts_inj htext⟩

/-! ## Equal up to the order of children -/

/-- Two elements are the same up to the order of children at every depth: the tags agree once
the namespace is stripped, the attributes agree as maps, the texts agree once stripped, and the
children of the first, reordered, match those of the second one by one. -/
inductive SameUpToOrder : Node → Node → Prop
  | mk {t t' : String} {a a' : Py.Dict String String} {x x' : Option String}
      {cs cs' : List Node} (ds : List Node) (tag : stripNs t = stripNs t')
      (attrib : ∀ k, a.get? k = a'.get? k) (text : Py.strip (x.getD "") = Py.strip (x'.getD ""))
      (perm : cs.Perm ds) (children : List.Forall₂ SameUpToOrder ds cs') :
      SameUpToOrder (.mk t a x cs) (.mk t' a' x' cs')

/-- The conditions of `CanonLocal` at every depth. -/
inductive CanonOk : Node → Prop
  | mk {t : String} {a : Py.Dict String String} {x : Option String} {cs : List Node}
      (h : CanonLocal (.mk t a x cs)) (children : ∀ c ∈ cs, CanonOk c) : CanonOk (.mk t a x cs)

theorem CanonOk.canonLocal {e : Node} : CanonOk e → CanonLocal e
  | .mk h _ => h

/-! ## Reading a listing back -/

/-- The length of the path of an entry's parent, read off the entry: the entry's path less the
tag that `xml_to_canonical` writes first, and the `/` before that tag. -/
def level (entry : String × String) : Nat :=
  entry.1.length - (((entry.2.data.splitOn '|').headD []).length + 1)

/-- The first of the entries `u`, if there is one, was made under a parent whose path is shorter
than `m`. -/
def Shallow (m : Nat) (u : List (String × String)) : Prop := ∀ e ∈ u.head?, level e < m

theorem shallow_nil (m : Nat) : Shallow m [] := fun _ h => nomatch h

theorem level_entry (p : String) {e : Node} (h : CanonLocal e) :
    level (p ++ "/" ++ stripNs e.tag, xmlToCanonical e) = p.length := by
  simp only [level, splitOn_canonical h, canonicalParts, List.map_cons, List.headD_cons,
    String.length_append, String.length_data]
  have : "/".length = 1 := rfl
  omega

theorem head?_flatten_append (p : String) (e : Node) (u : List (String × String)) :
    (flatten p e ++ u).head? = some (p ++ "/" ++ stripNs e.tag, xmlToCanonical e) := by
  cases e
  rfl

theorem shallow_flatten_append {p : String} {e : Node} (h : CanonLocal e) {m : Nat}
    (u : List (String × String)) : Shallow m (flatten p e ++ u) ↔ p.length < m := by
  rw [Shallow, head?_flatten_append]
  simp [level_entry p h]

theorem Shallow.mono {m m' : Nat} {u : List (String × String)} (h : Shallow m u) (hm : m ≤ m') :
    Shallow m' u :=
  fun e he => lt_of_lt_of_le (h e he) hm

theorem shallow_flatMap_append {p : String} {ds : List Node} (hds : ∀ d ∈ ds, CanonOk d)
    {u : List (String × String)} (hu : Shallow (p.length + 1) u) :
    Shallow (p.length + 1) (ds.flatMap (flatten p) ++ u) := by
  cases ds with
  | nil => exact hu
  | cons d ds =>
    rw [List.flatMap_cons, List.append_assoc,
      shallow_flatten_append (hds d (List.mem_cons_self _ _)).canonLocal]
    exact Nat.lt_succ_self _

/-- Entries made higher up than `p` do not start with the listing of an element under `p`. -/
theorem ne_flatten_append {p : String} {d : Node} (hd : CanonOk d) {u : List (String × String)}
    (hu : Shallow p.length u) (w : List (String × String)) : u ≠ flatten p d ++ w := by
  rintro rfl
  exact lt_irrefl _ ((shallow_flatten_append hd.canonLocal w).1 hu)

/-- The listings of siblings under the path `p`, followed by entries made higher up, determine
the siblings one by one and the entries that follow, given that each sibling's own listing does. -/
theorem flatMap_flatten_append_inj {p : String} {cs ds : List Node} (hcs : ∀ c ∈ cs, CanonOk c)
    (hds : ∀ d ∈ ds, CanonOk d)
    (hnode : ∀ c ∈ cs, ∀ {d : Node}, CanonOk d → ∀ {u v : List (String × String)},
      Shallow (p.length + 1) u → Shallow (p.length + 1) v →
      flatten p c ++ u = flatten p d ++ v → SameUpToOrder c d ∧ u = v)
    {u v : List (String × String)} (hu : Shallow p.length u) (hv : Shallow p.length v)
    (h : cs.flatMap (flatten p) ++ u = ds.flatMap (flatten p) ++ v) :
    List.Forall₂ SameUpToOrder cs ds ∧ u = v := by
  induction cs generalizing ds with
  | nil =>
    cases ds with
    | nil => exact ⟨.nil, h⟩
    | cons d ds =>
      simp only [List.flatMap_nil, List.flatMap_cons, List.nil_append, List.append_assoc] at h
      exact absurd h (ne_flatten_append (hds d (List.mem_cons_self _ _)) hu _)
  | cons c cs ih =>
    rw [List.forall_mem_cons] at hcs hnode
    cases ds with
    | nil =>
      simp only [List.flatMap_nil, List.flatMap_cons, List.nil_append, List.append_assoc] at h
      exact absurd h.symm (ne_flatten_append hcs.1 hv _)
    | cons d ds =>
      rw [List.forall_mem_cons] at hds
      simp only [List.flatMap_cons, List.append_assoc] at h
      obtain ⟨hcd, hrest⟩ := hnode.1 hds.1 (shallow_flatMap_append hcs.2 (hu.mono le_self_add))
        (shallow_flatMap_append hds.2 (hv.mono le_self_add)) h
      obtain ⟨hF, huv⟩ := ih hcs.2 hds.2 hnode.2 hrest
      exact ⟨.cons hcd hF, huv⟩

/-- **A listing reads back.**  The listing of an element under the path `p`, followed by entries
made no deeper than `p`, determines the element up to the order of its children, and the entries
that follow. -/
theorem flatten_append_inj {e : Node} (he : CanonOk e) :
    ∀ {e' : Node}, CanonOk e' → ∀ {p : String} {u v : List (String × String)},
      Shallow (p.length + 1) u → Shallow (p.length + 1) v →
      flatten p e ++ u = flatten p e' ++ v → SameUpToOrder e e' ∧ u = v := by
  induction he with
  | @mk t a x cs hloc hcs ih =>
    rintro _ (@⟨t', a', x', cs', hloc', hcs'⟩) p u v hu hv h
    rw [flatten_mk, flatten_mk, List.cons_append, List.cons_append, List.cons.injEq,
      Prod.mk.injEq] at h
    obtain ⟨⟨-, hcanon⟩, hrest⟩ := h
    obtain ⟨htag, hattr, htext⟩ := xmlToCanonical_inj hloc hloc' hcanon
    simp only [Node.tag_mk] at htag
    rw [htag] at hrest
    have hdeep : p.length + 1 ≤ (p ++ "/" ++ stripNs t').length := by
      simp only [String.length_append]
      exact Nat.le_add_right _ _
    obtain ⟨hF, huv⟩ := flatMap_flatten_append_inj
      (fun c hc => hcs c ((Py.mem_sortOn _).1 hc)) (fun c hc => hcs' c ((Py.mem_sortOn _).1 hc))
      (fun c hc _ hd => ih c ((Py.mem_sortOn _).1 hc) hd) (hu.mono hdeep) (hv.mono hdeep) hrest
    obtain ⟨ds, hperm, hds⟩ : Relation.Comp List.Perm (List.Forall₂ SameUpToOrder)
        (Py.sortOn (fun c => Py.strKey (xmlToCanonical c)) cs) cs' := by
      rw [← List.forall₂_comp_perm_eq_perm_comp_forall₂]
      exact ⟨_, hF, Py.sortOn_perm _ _⟩
    exact ⟨.mk ds htag hattr htext ((Py.sortOn_perm _ cs).symm.trans hperm) hds, huv⟩

theorem compareSimpleXml_eq_ok_iff {a b : Node} :
    compareSimpleXml (some (some a)) (some (some b)) = some (some .ok) ↔
      flatten "" a = flatten "" b := by
  simp [compareSimpleXml]

/-- **An "ok" means the same tree up to the order of children**, for files whose strings leave
the separators of `xml_to_canonical` alone at every depth. -/
theorem compareSimpleXml_ok_sameUpToOrder {T₁ T₂ : Node} (h₁ : CanonOk T₁)
    (h₂ : CanonOk T₂)
    (h : compareSimpleXml (some (some T₁)) (some (some T₂)) = some (some .ok)) :
    SameUpToOrder T₁ T₂ := by
  have hflat : flatten "" T₁ ++ [] = flatten "" T₂ ++ [] := by
    rw [List.append_nil, List.append_nil]
    exact compareSimpleXml_eq_ok_iff.1 h
  exact (flatten_append_inj h₁ h₂ (shallow_nil _) (shallow_nil _) hflat).1

theorem compareSimpleXml_ok_sameUpToOrder_swapped :
    let x := Node.elem "x" [] []
    let y := Node.elem "y" [("b", "2")] []
    CanonOk (.elem "r" [("a", "1")] [x, y]) ∧ CanonOk (.elem "r" [("a", "1")] [y, x]) ∧
      compareSimpleXml (some (some (.elem "r" [("a", "1")] [x, y])))
        (some (some (.elem "r" [("a", "1")] [y, x]))) = some (some .ok) ∧
      SameUpToOrder (.elem "r" [("a", "1")] [x, y]) (.elem "r" [("a", "1")] [y, x]) := by
  intro x y
  have hx : CanonOk x := .mk (by decide) fun _ h => absurd h (List.not_mem_nil _)
  have hy : CanonOk y := .mk (by decide) fun _ h => absurd h (List.not_mem_nil _)
  have h₁ : CanonOk (.elem "r" [("a", "1")] [x, y]) :=
    .mk (by decide) (by simpa only [List.forall_mem_cons] using ⟨hx, hy, nofun⟩)
  have h₂ : CanonOk (.elem "r" [("a", "1")] [y, x]) :=
    .mk (by decide) (by simpa only [List.forall_mem_cons] using ⟨hy, hx, nofun⟩)
  have hok : compareSimpleXml (some (some (.elem "r" [("a", "1")] [x, y])))
      (some (some (.elem "r" [("a", "1")] [y, x]))) = some (some .ok) := by
    decide
  exact ⟨h₁, h₂, hok, compareSimpleXml_ok_sameUpToOrder h₁ h₂ hok⟩

/-- **An "ok" between different trees.**  An attribute named `text` is written as the element's
text is, and a value holding `|b=2` as a second attribute is: each pair below is "ok", although
in the first the attributes and the texts differ and in the second the attributes do. -/
theorem compareSimpleXml_ok_unescaped :
    compareSimpleXml (some (some (.elem "r" [("text", "x")] [])))
        (some (some (.mk "r" Py.Dict.empty (some "x") []))) = some (some .ok) ∧
      ¬SameUpToOrder (.elem "r" [("text", "x")] []) (.mk "r" Py.Dict.empty (some "x") []) ∧
      compareSimpleXml (some (some (.elem "r" [("a", "1|b=2")] [])))
        (some (some (.elem "r" [("a", "1"), ("b", "2")] []))) = some (some .ok) ∧
      ¬SameUpToOrder (.elem "r" [("a", "1|b=2")] []) (.elem "r" [("a", "1"), ("b", "2")] []) := by
  refine ⟨by decide, ?_, by decide, ?_⟩
  · rintro ⟨_, -, hattr, -, -, -⟩
    exact absurd (hattr "text") (by decide)
  · rintro ⟨_, -, hattr, -, -, -⟩
    exact absurd (hattr "a") (by decide)

end DacpacCompare
