import DacpacCompare.Model.Read

/-!
# What an element key identifies

`element_key` names an element of a model by a tuple: `(Type, Name)` for a named element; for an
unnamed one `(Type, composite)`, the composite written from the names that its first
`DefiningTable`, `ForColumn` and `DefiningColumn` entries reference; and `(Type,)` when it has
none of them.  The keys are meant to identify elements: two elements of one type should share a
key exactly when they have the same *identity*, the same name or the same referenced table and
column.

## What is here

* `Identity` and `identityOf` — the identity of an element, one case per branch of
  `element_key`, taken in the same order.
* `Identity.key` — the key `element_key` writes for an identity.  When no referenced name is
  empty, the key of an element is the key of its identity (`elementKey_eq_key`); Python's truth
  test drops an empty name, which is why the condition is there.
* `Identity.key_injective` — two identities get two keys when their strings cannot be confused
  in a key: a name does not begin with `DefiningTable=`, and a table name has no comma.

So for elements of one type that meet both conditions, one key means one identity.  Without them
the two part ways in both directions: a name spelled like a composite shares the composite's key,
and an empty `ForColumn` name sends two elements with one identity to their `DefiningColumn`
keys.
-/

set_option autoImplicit false

namespace DacpacCompare

/-- The identity of a top-level element, one case per branch of `element_key`. -/
inductive Identity
  /-- `Named(Name)` -/
  | named (name : String)
  /-- `TableColumn(t, c)`: the table `DefiningTable` references and the column `ForColumn`
  references. -/
  | tableColumn (table column : String)
  /-- `TableDefiningColumn(t, c)`: the table `DefiningTable` references and the column
  `DefiningColumn` references. -/
  | tableDefiningColumn (table column : String)
  /-- `Table(t)` -/
  | table (table : String)
  /-- `Singleton` -/
  | singleton
  deriving DecidableEq, Repr

/-- The identity of an element: the first case that applies, in the order `element_key` tries
them.  A relationship references the name `get_ref_name` finds for it. -/
def identityOf (e : Node) : Identity :=
  match e.get "Name" with
  | some name => .named name
  | none =>
    match getRefName e "DefiningTable", getRefName e "ForColumn",
      getRefName e "DefiningColumn" with
    | some t, some c, _ => .tableColumn t c
    | some t, none, some c => .tableDefiningColumn t c
    | some t, none, none => .table t
    | none, _, _ => .singleton

/-- The key `element_key` writes for an identity, on an element of type `type`. -/
def Identity.key (type : Option String) : Identity → ElementKey
  | .named name => .pair type name
  | .tableColumn t c => .pair type ("DefiningTable=" ++ t ++ ",ForColumn=" ++ c)
  | .tableDefiningColumn t c => .pair type ("DefiningTable=" ++ t ++ ",DefiningColumn=" ++ c)
  | .table t => .pair type ("DefiningTable=" ++ t)
  | .singleton => .single type

/-! ## The key of an identity -/

theorem truthy_eq_self {o : Option String} (h : o ≠ some "") : truthy o = o := by
  rcases o with _ | s
  · rfl
  · simp [truthy, show s ≠ "" from fun hs => h (hs ▸ rfl)]

/-- When no referenced name is empty, `element_key` writes the key of the element's identity. -/
theorem elementKey_eq_key {e : Node}
    (h : ∀ r ∈ ["DefiningTable", "ForColumn", "DefiningColumn"], getRefName e r ≠ some "") :
    elementKey e = (identityOf e).key (e.get "Type") := by
  simp only [elementKey, identityOf, truthy_eq_self (h "DefiningTable" (by simp)),
    truthy_eq_self (h "ForColumn" (by simp)), truthy_eq_self (h "DefiningColumn" (by simp))]
  cases e.get "Name"
  · cases getRefName e "DefiningTable" <;> cases getRefName e "ForColumn" <;>
      cases getRefName e "DefiningColumn" <;> rfl
  · rfl

/-! ## Reading an identity back from its key -/

/-- The strings of an identity cannot be confused in a key: a name does not begin with
`DefiningTable=`, and a table name has no comma. -/
def Identity.Readable : Identity → Prop
  | .named name => ¬"DefiningTable=".data <+: name.data
  | .tableColumn t _ => ',' ∉ t.data
  | .tableDefiningColumn t _ => ',' ∉ t.data
  | .table t => ',' ∉ t.data
  | .singleton => True

instance : DecidablePred Identity.Readable
  | .named name => inferInstanceAs (Decidable (¬"DefiningTable=".data <+: name.data))
  | .tableColumn t _ => inferInstanceAs (Decidable (',' ∉ t.data))
  | .tableDefiningColumn t _ => inferInstanceAs (Decidable (',' ∉ t.data))
  | .table t => inferInstanceAs (Decidable (',' ∉ t.data))
  | .singleton => inferInstanceAs (Decidable True)

/-- A table name without a comma ends where the rest of the composite begins. -/
theorem append_inj_of_comma : ∀ {t t' r r' : List Char}, ',' ∉ t → ',' ∉ t' →
    (∀ c ∈ r.head?, c = ',') → (∀ c ∈ r'.head?, c = ',') → t ++ r = t' ++ r' →
    t = t' ∧ r = r'
  | [], [], _, _, _, _, _, _, h => ⟨rfl, h⟩
  | [], c :: _, _, _, _, ht', hr, _, h => by
    subst h
    obtain rfl := hr c rfl
    exact absurd (List.mem_cons_self _ _) ht'
  | c :: _, [], _, _, ht, _, _, hr', h => by
    subst h
    obtain rfl := hr' c rfl
    exact absurd (List.mem_cons_self _ _) ht
  | _ :: _, _ :: _, _, _, ht, ht', hr, hr', h => by
    obtain ⟨rfl, h'⟩ := List.cons.inj h
    obtain ⟨rfl, rfl⟩ := append_inj_of_comma (fun hc => ht (List.mem_cons_of_mem _ hc))
      (fun hc => ht' (List.mem_cons_of_mem _ hc)) hr hr' h'
    exact ⟨rfl, rfl⟩

/-- A composite identity as its key spells it: the table, and what follows the table. -/
def Identity.composite : Identity → Option (String × String)
  | .tableColumn t c => some (t, ",ForColumn=" ++ c)
  | .tableDefiningColumn t c => some (t, ",DefiningColumn=" ++ c)
  | .table t => some (t, "")
  | _ => none

theorem Identity.key_of_composite {i : Identity} {t r : String} (h : i.composite = some (t, r))
    (type : Option String) : i.key type = .pair type ("DefiningTable=" ++ t ++ r) := by
  cases i <;>
    simp only [Identity.composite, Option.some.injEq, Prod.mk.injEq, reduceCtorEq] at h <;>
    obtain ⟨rfl, rfl⟩ := h <;> simp [Identity.key, String.append_assoc]

/-- What follows the table is empty or starts with a comma, and tells the three kinds apart. -/
theorem Identity.composite_rest {i : Identity} {t r : String} (h : i.composite = some (t, r)) :
    ∀ c ∈ r.data.head?, c = ',' := by
  cases i <;>
    simp only [Identity.composite, Option.some.injEq, Prod.mk.injEq, reduceCtorEq] at h <;>
    obtain ⟨rfl, rfl⟩ := h <;> intro c hc <;> cases hc <;> rfl

theorem Identity.composite_injective {i j : Identity} {x : String × String}
    (hi : i.composite = some x) (hj : j.composite = some x) : i = j := by
  have hcol : ∀ {a b c d : String}, a.data.length = b.data.length → a ++ c = b ++ d →
      a = b ∧ c = d :=
    fun hl h => by
      have hd := congrArg String.data h
      simp only [String.data_append] at hd
      obtain ⟨h₁, h₂⟩ := List.append_inj hd hl
      exact ⟨String.ext h₁, String.ext h₂⟩
  have hkind : ∀ c d : String, ",ForColumn=" ++ c ≠ ",DefiningColumn=" ++ d := fun c d h =>
    absurd (congrArg (fun s : String => s.data.take 2) h) (show [',', 'F'] ≠ [',', 'D'] by decide)
  have hnil : ∀ {r c : String}, r.data.head? = some ',' → "" ≠ r ++ c := fun hr h =>
    absurd (congrArg (fun s : String => (s.data.head?).isSome) h) (by simp [hr])
  cases i <;> cases j <;>
    simp only [Identity.composite, Option.some.injEq, reduceCtorEq] at hi hj <;>
    subst hi <;> simp only [Prod.mk.injEq] at hj ⊢ <;> obtain ⟨rfl, h⟩ := hj
  · rw [(hcol rfl h).2]
  · exact absurd h.symm (hkind _ _)
  · exact absurd h (hnil rfl)
  · exact absurd h (hkind _ _)
  · rw [(hcol rfl h).2]
  · exact absurd h (hnil rfl)
  · exact absurd h.symm (hnil rfl)
  · exact absurd h.symm (hnil rfl)
  · rfl

/-- **Two readable identities, two keys.**  A composite key starts with `DefiningTable=`, so a
readable name is no composite; the table of a composite ends at its first comma; and what follows
the table tells the three composites apart and carries the column. -/
theorem Identity.key_injective {type : Option String} {i j : Identity} (hi : i.Readable)
    (hj : j.Readable) (h : i.key type = j.key type) : i = j := by
  have htable : ∀ {k : Identity} {t r : String}, k.Readable → k.composite = some (t, r) →
      ',' ∉ t.data := fun {k} _ _ hk hc => by
    cases k <;>
      simp only [Identity.composite, Option.some.injEq, Prod.mk.injEq, reduceCtorEq] at hc <;>
      obtain ⟨rfl, -⟩ := hc <;> exact hk
  have hname : ∀ {n t r : String}, Identity.Readable (.named n) →
      n ≠ "DefiningTable=" ++ t ++ r :=
    fun {_ t r} hn h => hn ⟨(t ++ r).data, by rw [h]; simp [String.data_append]⟩
  rcases hci : i.composite with _ | ⟨t, r⟩ <;> rcases hcj : j.composite with _ | ⟨t', r'⟩
  · cases i <;> simp only [Identity.composite, reduceCtorEq] at hci <;>
      cases j <;> simp only [Identity.composite, reduceCtorEq] at hcj <;>
      simp only [Identity.key, ElementKey.pair.injEq, reduceCtorEq, true_and,
        Identity.named.injEq] at h ⊢
    exact h
  · rw [Identity.key_of_composite hcj] at h
    cases i <;> simp only [Identity.composite, reduceCtorEq] at hci <;>
      simp only [Identity.key, ElementKey.pair.injEq, reduceCtorEq, true_and] at h
    exact absurd h (hname hi)
  · rw [Identity.key_of_composite hci] at h
    cases j <;> simp only [Identity.composite, reduceCtorEq] at hcj <;>
      simp only [Identity.key, ElementKey.pair.injEq, reduceCtorEq, true_and] at h
    exact absurd h.symm (hname hj)
  · rw [Identity.key_of_composite hci, Identity.key_of_composite hcj, ElementKey.pair.injEq] at h
    have hd := congrArg String.data h.2
    simp only [String.data_append, List.append_assoc, List.append_cancel_left_eq] at hd
    obtain ⟨h₁, h₂⟩ := append_inj_of_comma (htable hi hci) (htable hj hcj)
      (Identity.composite_rest hci) (Identity.composite_rest hcj) hd
    obtain ⟨rfl, rfl⟩ : t = t' ∧ r = r' := ⟨String.ext h₁, String.ext h₂⟩
    exact Identity.composite_injective hci hcj

/-! ## Keys and identities -/

/-- The conditions under which an element's key spells its identity. -/
structure KeyOk (e : Node) : Prop where
  /-- No referenced name is empty, so the truth test keeps every one. -/
  refs : ∀ r ∈ ["DefiningTable", "ForColumn", "DefiningColumn"], getRefName e r ≠ some ""
  /-- The identity's strings cannot be confused in a key. -/
  readable : (identityOf e).Readable

instance (e : Node) : Decidable (KeyOk e) :=
  decidable_of_iff
    ((∀ r ∈ ["DefiningTable", "ForColumn", "DefiningColumn"], getRefName e r ≠ some "") ∧
      (identityOf e).Readable)
    ⟨fun ⟨a, b⟩ => ⟨a, b⟩, fun ⟨a, b⟩ => ⟨a, b⟩⟩

/-- **One key, one identity.**  For two elements of one type whose referenced names are not empty,
whose names do not begin with `DefiningTable=` and whose table names have no comma,
`element_key` gives one key exactly when the two have one identity. -/
theorem elementKey_eq_iff_identityOf {e₁ e₂ : Node} (htype : e₁.get "Type" = e₂.get "Type")
    (h₁ : KeyOk e₁) (h₂ : KeyOk e₂) :
    elementKey e₁ = elementKey e₂ ↔ identityOf e₁ = identityOf e₂ := by
  rw [elementKey_eq_key h₁.refs, elementKey_eq_key h₂.refs, htype]
  exact ⟨Identity.key_injective h₁.readable h₂.readable, fun h => by rw [h]⟩

theorem elementKey_eq_iff_identityOf_two_columns :
    let ref := fun rel target : String => Node.elem (nsTag "Relationship") [("Name", rel)]
      [.elem (nsTag "Entry") [] [.elem (nsTag "References") [("Name", target)] []]]
    let default := fun column : String => Node.elem (nsTag "Element")
      [("Type", "SqlDefaultConstraint")] [ref "DefiningTable" "[dbo].[T]", ref "ForColumn" column]
    (default "[dbo].[T].[a]").get "Type" = (default "[dbo].[T].[b]").get "Type" ∧
      KeyOk (default "[dbo].[T].[a]") ∧ KeyOk (default "[dbo].[T].[b]") ∧
      (elementKey (default "[dbo].[T].[a]") = elementKey (default "[dbo].[T].[b]") ↔
        identityOf (default "[dbo].[T].[a]") = identityOf (default "[dbo].[T].[b]")) := by
  intro ref default
  have htype : (default "[dbo].[T].[a]").get "Type" = (default "[dbo].[T].[b]").get "Type" := by
    decide
  have h₁ : KeyOk (default "[dbo].[T].[a]") := by decide
  have h₂ : KeyOk (default "[dbo].[T].[b]") := by decide
  exact ⟨htype, h₁, h₂, elementKey_eq_iff_identityOf htype h₁ h₂⟩

/-- **Keys and identities part ways.**  A constraint named `DefiningTable=[dbo].[T]` gets the key of
an unnamed one on the table `[dbo].[T]`; and two unnamed constraints on one table whose `ForColumn`
references the empty name have one identity, but the truth test drops that name and their keys
are written from their different `DefiningColumn` names. -/
theorem elementKey_identity_collisions :
    let ref := fun rel target : String => Node.elem (nsTag "Relationship") [("Name", rel)]
      [.elem (nsTag "Entry") [] [.elem (nsTag "References") [("Name", target)] []]]
    let named := Node.elem (nsTag "Element")
      [("Type", "SqlDefaultConstraint"), ("Name", "DefiningTable=[dbo].[T]")] []
    let onTable := Node.elem (nsTag "Element") [("Type", "SqlDefaultConstraint")]
      [ref "DefiningTable" "[dbo].[T]"]
    let onColumn := fun column : String => Node.elem (nsTag "Element")
      [("Type", "SqlDefaultConstraint")]
      [ref "DefiningTable" "[dbo].[T]", ref "ForColumn" "", ref "DefiningColumn" column]
    (named.get "Type" = onTable.get "Type" ∧ elementKey named = elementKey onTable ∧
      identityOf named ≠ identityOf onTable) ∧
    ((onColumn "[a]").get "Type" = (onColumn "[b]").get "Type" ∧
      identityOf (onColumn "[a]") = identityOf (onColumn "[b]") ∧
      elementKey (onColumn "[a]") ≠ elementKey (onColumn "[b]")) := by
  decide

end DacpacCompare
