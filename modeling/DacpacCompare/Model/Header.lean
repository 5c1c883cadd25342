import DacpacCompare.Model.DiffSpec
import DacpacCompare.SimpleXml

/-!
# Comparing the headers

The `Header` of `model.xml` is a list of `CustomData` blocks, each with a `Category`, a `Type`
and a list of `Metadata` name/value pairs.  `compare_header` indexes each side's blocks by
`(Category, Type)` with `index_custom_data` and compares the two indexes key by key.  The index
is a dict, so of several blocks with the same `(Category, Type)` only the last is kept: a header
with one `Reference` block per referenced package is compared on its last block alone.

Past that, the comparison is what it is meant to be: it reports nothing exactly when the two
indexes are equal as Python dicts, keys compared as sets and metadata as maps.
-/

set_option autoImplicit false

namespace DacpacCompare

/-- `d1 == d2` on two dicts: Python compares them as maps. -/
def Py.Dict.eqv {κ ν : Type} [DecidableEq κ] [DecidableEq ν] (d₁ d₂ : Py.Dict κ ν) : Bool :=
  d₁.items.length = d₂.items.length ∧ d₁.items.all fun p => d₂.get? p.1 = some p.2

/-- `d1 == d2` is equality of the two maps. -/
theorem Py.Dict.eqv_iff {κ ν : Type} [DecidableEq κ] [DecidableEq ν] {d₁ d₂ : Py.Dict κ ν} :
    d₁.eqv d₂ = true ↔ ∀ k, d₁.get? k = d₂.get? k := by
  have hnd : ∀ d : Py.Dict κ ν, d.items.Nodup := fun d => d.nodup.of_map _
  simp only [Py.Dict.eqv, decide_eq_true_eq, List.all_eq_true]
  constructor
  · rintro ⟨hlen, hall⟩
    have hsub : d₁.items ⊆ d₂.items := fun p hp => (Py.Dict.get?_eq_some_iff d₂).1 (hall p hp)
    have hperm := (List.subperm_of_subset (hnd d₁) hsub).perm_of_length_le hlen.ge
    exact fun k => Option.ext fun v => by
      rw [Option.mem_def, Option.mem_def, Py.Dict.get?_eq_some_iff, Py.Dict.get?_eq_some_iff, hperm.mem_iff]
  · intro h
    have hperm : d₁.items.Perm d₂.items := (List.perm_ext_iff_of_nodup (hnd d₁) (hnd d₂)).2
      fun p => by rw [← Py.Dict.get?_eq_some_iff, ← Py.Dict.get?_eq_some_iff, h]
    exact ⟨hperm.length_eq, fun p hp => by rw [← h]; exact (Py.Dict.get?_eq_some_iff d₁).2 hp⟩

/-- The metadata of one `CustomData` block, as `index_custom_data` reads it. -/
def metadataOf (cd : Node) : Py.Dict String String :=
  Py.Dict.ofList ((cd.findall (nsTag "Metadata")).map fun m =>
    ((m.get "Name").getD "", (m.get "Value").getD ""))

/-- The key of one `CustomData` block. -/
def customDataKey (cd : Node) : String × String :=
  ((cd.get "Category").getD "", (cd.get "Type").getD "")

/-- `index_custom_data(header)` -/
def indexCustomData : Option Node → Py.Dict (String × String) (Py.Dict String String)
  | none => Py.Dict.empty
  | some header => Py.Dict.ofList ((header.findall (nsTag "CustomData")).map fun cd =>
      (customDataKey cd, metadataOf cd))

/-- Python's order on a pair of strings. -/
def pairKey (k : String × String) : List Char ×ₗ List Char := toLex (Py.strKey k.1, Py.strKey k.2)

/-- The label of a block in the report. -/
def customDataLabel (key : String × String) : String :=
  if key.2 ≠ "" then "CustomData(" ++ key.1 ++ ", " ++ key.2 ++ ")" else "CustomData(" ++ key.1 ++ ")"

/-- The lines `compare_header` writes for the block key `key`. -/
def headerLines (ca cb : Py.Dict (String × String) (Py.Dict String String)) (key : String × String) :
    List String :=
  if key ∉ cb.keys then ["  " ++ customDataLabel key ++ ": missing in dotnet"]
  else if key ∉ ca.keys then ["  " ++ customDataLabel key ++ ": missing in rust"]
  else
    let ma := (ca.get? key).getD Py.Dict.empty
    let mb := (cb.get? key).getD Py.Dict.empty
    if ma.eqv mb then []
    else ("  " ++ customDataLabel key ++ ":") ::
      (Py.sortOn Py.strKey (keyUnion ma.keys mb.keys)).filterMap fun mk =>
        if ma.get? mk ≠ mb.get? mk then
          some ("    " ++ mk ++ ": dotnet=\"" ++ Py.fmt (mb.get? mk) ++ "\", rust=\"" ++
            Py.fmt (ma.get? mk) ++ "\"")
        else none

/-- `compare_header(header_a, header_b)` -/
def compareHeader (ha hb : Option Node) : Status × List String :=
  let ca := indexCustomData ha
  let cb := indexCustomData hb
  let diffs := (Py.sortOn pairKey (keyUnion ca.keys cb.keys)).flatMap (headerLines ca cb)
  if diffs = [] then (.ok, []) else (.different, diffs)

/-! ## What a silent header comparison means -/

/-- `ca == cb` on two indexes of `CustomData` blocks: the same keys, and under each key metadata
equal as maps. -/
def IndexEq (ca cb : Py.Dict (String × String) (Py.Dict String String)) : Prop :=
  ∀ key, Option.Rel (fun ma mb => ∀ k, ma.get? k = mb.get? k) (ca.get? key) (cb.get? key)

/-- A key of either index gets no lines exactly when both indexes hold it, with metadata equal
as maps. -/
theorem headerLines_eq_nil_iff {ca cb : Py.Dict (String × String) (Py.Dict String String)}
    {key : String × String} (hk : key ∈ ca.keys ∨ key ∈ cb.keys) :
    headerLines ca cb key = [] ↔
      Option.Rel (fun ma mb => ∀ k, ma.get? k = mb.get? k) (ca.get? key) (cb.get? key) := by
  unfold headerLines
  rcases ha : ca.get? key with _ | ma <;> rcases hb : cb.get? key with _ | mb
  · simp [ha, hb] at hk
  · exact iff_of_false (by simp [ha, hb]) nofun
  · exact iff_of_false (by simp [ha, hb]) nofun
  · simp only [Py.Dict.mem_keys, ha, hb, Option.isSome_some, not_true_eq_false, if_false,
      Option.getD_some, ← Py.Dict.eqv_iff]
    constructor
    · intro h
      split_ifs at h with he
      exact .some he
    · rintro ⟨he⟩
      rw [if_pos he]

/-- The header comparison is silent exactly when no key of either index gets a line. -/
theorem compareHeader_eq_ok_iff (ha hb : Option Node) :
    compareHeader ha hb = (.ok, []) ↔ ∀ key, key ∈ (indexCustomData ha).keys ∨
      key ∈ (indexCustomData hb).keys → headerLines (indexCustomData ha) (indexCustomData hb) key = [] := by
  simp only [compareHeader]
  split_ifs with h
  · simpa only [true_iff, List.flatMap_eq_nil_iff, Py.mem_sortOn, mem_keyUnion] using h
  · simpa only [List.flatMap_eq_nil_iff, Py.mem_sortOn, mem_keyUnion, Prod.mk.injEq,
      reduceCtorEq, false_and, false_iff] using h

/-- A header compared with itself is silent. -/
theorem compareHeader_self (h : Option Node) : compareHeader h h = (.ok, []) :=
  (compareHeader_eq_ok_iff h h).2 fun key hk => (headerLines_eq_nil_iff hk).2 <| by
    cases (indexCustomData h).get? key with
    | none => exact .none
    | some _ => exact .some fun _ => rfl

/-- The header comparison is silent on `(a, b)` exactly when it is silent on `(b, a)`. -/
theorem compareHeader_eq_ok_comm (ha hb : Option Node) :
    compareHeader hb ha = (.ok, []) ↔ compareHeader ha hb = (.ok, []) := by
  have hrel : ∀ {o₁ o₂ : Option (Py.Dict String String)},
      Option.Rel (fun ma mb => ∀ k, ma.get? k = mb.get? k) o₁ o₂ →
        Option.Rel (fun ma mb => ∀ k, ma.get? k = mb.get? k) o₂ o₁
    | _, _, .some h => .some fun k => (h k).symm
    | _, _, .none => .none
  have hone : ∀ ha hb, compareHeader ha hb = (.ok, []) → compareHeader hb ha = (.ok, []) :=
    fun ha hb h => (compareHeader_eq_ok_iff hb ha).2 fun key hk => (headerLines_eq_nil_iff hk).2
      (hrel ((headerLines_eq_nil_iff hk.symm).1 ((compareHeader_eq_ok_iff ha hb).1 h key hk.symm)))
  exact ⟨hone hb ha, hone ha hb⟩

/-- The header's status is `"ok"` exactly when the comparison is silent. -/
theorem compareHeader_fst_eq_ok (ha hb : Option Node) :
    (compareHeader ha hb).1 = .ok ↔ compareHeader ha hb = (.ok, []) := by
  simp only [compareHeader]
  split_ifs <;> simp

/-- The header comparison is silent exactly when the two indexes are equal as Python dicts. -/
theorem compareHeader_eq_ok_iff_indexEq (ha hb : Option Node) :
    compareHeader ha hb = (.ok, []) ↔ IndexEq (indexCustomData ha) (indexCustomData hb) := by
  rw [compareHeader_eq_ok_iff]
  refine ⟨fun h key => ?_, fun h key hk => (headerLines_eq_nil_iff hk).2 (h key)⟩
  by_cases hk : key ∈ (indexCustomData ha).keys ∨ key ∈ (indexCustomData hb).keys
  · exact (headerLines_eq_nil_iff hk).1 (h key hk)
  · simp only [Py.Dict.mem_keys, Option.isSome_iff_ne_none, not_or, not_not] at hk
    rw [hk.1, hk.2]
    exact .none

/-- The status is `"different"` exactly when the comparison is not silent. -/
theorem compareHeader_fst_eq_different (ha hb : Option Node) :
    (compareHeader ha hb).1 = .different ↔ compareHeader ha hb ≠ (.ok, []) := by
  simp only [compareHeader]
  split_ifs <;> simp

/-- **The header comparison returns `("ok", [])` exactly when the two indexes are equal as
Python dicts, and `"different"` otherwise.** -/
theorem compareHeader_ok_iff (ha hb : Option Node) :
    (compareHeader ha hb = (.ok, []) ↔ IndexEq (indexCustomData ha) (indexCustomData hb)) ∧
      ((compareHeader ha hb).1 = .different ↔ ¬IndexEq (indexCustomData ha) (indexCustomData hb)) :=
  ⟨compareHeader_eq_ok_iff_indexEq ha hb,
    (compareHeader_fst_eq_different ha hb).trans (not_congr (compareHeader_eq_ok_iff_indexEq ha hb))⟩

/-- **Only the last block of a key is compared.**  Two `Reference`/`SqlSchema` blocks, one per
referenced package: the header that has both is reported identical to the header that has the
second alone, and different from the same two blocks in the other order. -/
theorem compareHeader_repeated_key :
    compareHeader
        (some (.elem (nsTag "Header") []
          [.elem (nsTag "CustomData") [("Category", "Reference"), ("Type", "SqlSchema")]
            [.elem (nsTag "Metadata") [("Name", "FileName"), ("Value", "a.dacpac")] []],
          .elem (nsTag "CustomData") [("Category", "Reference"), ("Type", "SqlSchema")]
            [.elem (nsTag "Metadata") [("Name", "FileName"), ("Value", "b.dacpac")] []]]))
        (some (.elem (nsTag "Header") []
          [.elem (nsTag "CustomData") [("Category", "Reference"), ("Type", "SqlSchema")]
            [.elem (nsTag "Metadata") [("Name", "FileName"), ("Value", "b.dacpac")] []]])) =
      (.ok, []) ∧
    (compareHeader
        (some (.elem (nsTag "Header") []
          [.elem (nsTag "CustomData") [("Category", "Reference"), ("Type", "SqlSchema")]
            [.elem (nsTag "Metadata") [("Name", "FileName"), ("Value", "a.dacpac")] []],
          .elem (nsTag "CustomData") [("Category", "Reference"), ("Type", "SqlSchema")]
            [.elem (nsTag "Metadata") [("Name", "FileName"), ("Value", "b.dacpac")] []]]))
        (some (.elem (nsTag "Header") []
          [.elem (nsTag "CustomData") [("Category", "Reference"), ("Type", "SqlSchema")]
            [.elem (nsTag "Metadata") [("Name", "FileName"), ("Value", "b.dacpac")] []],
          .elem (nsTag "CustomData") [("Category", "Reference"), ("Type", "SqlSchema")]
            [.elem (nsTag "Metadata") [("Name", "FileName"), ("Value", "a.dacpac")] []]]))).1 =
      .different := by
  decide

end DacpacCompare
