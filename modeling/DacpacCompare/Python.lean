import Mathlib.Data.List.Sort
import Mathlib.Data.List.Lex
import Mathlib.Data.List.Dedup
import Mathlib.Data.String.Basic
import Mathlib.Order.WithBot

/-!
# The pieces of Python the comparison leans on

`tools/compare_dacpacs.py` is written against a handful of builtins, and what it reports depends
on exactly how they behave.  This file fixes them once, so that the rest of the development can
read like the script.

* `Py.Dict` — a `dict`: the list of its items in insertion order, with the keys kept distinct by
  a field.  `Dict.set` is `d[k] = v` (an existing key keeps its place and takes the new value,
  a new one goes to the end) and `Dict.ofList` is the loop `for ...: d[k] = v` that builds every
  dict in the script.  `Dict.get_ofList` is the fact all of them use: the last write wins.
* `Py.sortOn` — `sorted(xs, key=...)`.  CPython's sort is stable and so is insertion sort, so the
  two agree on every list; `sortOn_eq_of_perm` is why the script sorts at all: when the key
  is injective, the result forgets the order the items came in.
* `Py.sortedKeys` — `sorted` on a set of dictionary keys that may hold `None`, which raises
  `TypeError` as CPython does.
* `Py.strip`, `Py.rstrip` and `Py.fmt` — `str.strip()`, `str.rstrip()`, and what an f-string
  prints for a value that is a `str` or `None`.

Strings are ordered by their lists of characters, which is both Lean's and Python's order (by
code point); the comparisons go through `String.data` so that `decide` can run them.
-/

set_option autoImplicit false

namespace DacpacCompare
namespace Py

/-! ## Dictionaries -/

/-- A Python `dict`: its items in insertion order, the keys distinct. -/
@[ext] structure Dict (κ ν : Type) where
  items : List (κ × ν)
  nodup : (items.map Prod.fst).Nodup

namespace Dict

variable {κ ν : Type} [DecidableEq κ]

/-- `{}` -/
def empty : Dict κ ν := ⟨[], List.nodup_nil⟩

/-- The keys, in insertion order. -/
def keys (d : Dict κ ν) : List κ := d.items.map Prod.fst

omit [DecidableEq κ] in
theorem nodup_keys (d : Dict κ ν) : d.keys.Nodup := d.nodup

/-- `d.get(k)`, with `none` for a missing key. -/
def get? (d : Dict κ ν) (k : κ) : Option ν := (d.items.find? fun p => p.1 = k).map Prod.snd

/-- The items after `d[k] = v`: an existing key is updated in place. -/
def setItems (k : κ) (v : ν) : List (κ × ν) → List (κ × ν)
  | [] => [(k, v)]
  | p :: ps => if p.1 = k then (k, v) :: ps else p :: setItems k v ps

theorem keys_setItems (k : κ) (v : ν) (ps : List (κ × ν)) :
    (setItems k v ps).map Prod.fst =
      if k ∈ ps.map Prod.fst then ps.map Prod.fst else ps.map Prod.fst ++ [k] := by
  induction ps with
  | nil => simp [setItems]
  | cons p ps ih =>
    by_cases hp : p.1 = k
    · simp [setItems, hp]
    · by_cases hk : k ∈ ps.map Prod.fst <;> simp_all [setItems, Ne.symm hp]

/-- `d[k] = v` -/
def set (d : Dict κ ν) (k : κ) (v : ν) : Dict κ ν :=
  ⟨setItems k v d.items, by
    rw [keys_setItems]
    split
    · exact d.nodup
    · exact d.nodup.append (List.nodup_singleton k) (List.disjoint_singleton.2 ‹_›)⟩

/-- `d.pop(k, None)`, keeping the dict. -/
def pop (d : Dict κ ν) (k : κ) : Dict κ ν :=
  ⟨d.items.filter (fun p => p.1 ≠ k), ((List.filter_sublist _).map _).nodup d.nodup⟩

/-- A dict filled by assigning the pairs one after another. -/
def ofList (ps : List (κ × ν)) : Dict κ ν := ps.foldl (fun d p => d.set p.1 p.2) empty

@[simp] theorem mem_keys {d : Dict κ ν} {k : κ} : k ∈ d.keys ↔ (d.get? k).isSome := by
  simp [keys, get?, List.find?_isSome]

@[simp] theorem get?_set (d : Dict κ ν) (k k' : κ) (v : ν) :
    (d.set k v).get? k' = if k = k' then some v else d.get? k' := by
  obtain ⟨ps, _⟩ := d
  simp only [set, get?]
  induction ps with
  | nil => by_cases h : k = k' <;> simp [setItems, h]
  | cons p ps ih =>
    by_cases hp : p.1 = k
    · subst hp; by_cases h : p.1 = k' <;> simp [setItems, h]
    · simp only [setItems, hp, if_false, List.find?_cons]
      by_cases h : p.1 = k'
      · subst h; simp [Ne.symm hp]
      · simp_all

@[simp] theorem get?_empty (k : κ) : (empty : Dict κ ν).get? k = none := rfl

@[simp] theorem get?_pop (d : Dict κ ν) (k k' : κ) :
    (d.pop k).get? k' = if k = k' then none else d.get? k' := by
  obtain ⟨ps, _⟩ := d
  simp only [pop, get?]
  induction ps with
  | nil => simp
  | cons p ps ih =>
    by_cases hk : k = k'
    · subst hk; simp_all [List.find?_filter]
    · by_cases hp : p.1 = k <;> by_cases h : p.1 = k' <;> simp_all [List.filter_cons]

/-- The last write wins: the value is that of the last pair with the key. -/
theorem get_ofList (ps : List (κ × ν)) (k : κ) :
    (ofList ps).get? k = (ps.reverse.find? fun p => p.1 = k).map Prod.snd := by
  suffices ∀ d : Dict κ ν, (ps.foldl (fun d p => d.set p.1 p.2) d).get? k =
      ((ps.reverse.find? fun p => p.1 = k).map Prod.snd).or (d.get? k) by
    simpa using this empty
  induction ps with
  | nil => simp
  | cons p ps ih =>
    intro d
    rw [List.foldl_cons, ih, get?_set, List.reverse_cons, List.find?_append]
    cases ps.reverse.find? (fun p => p.1 = k) <;> by_cases h : p.1 = k <;> simp [h]

theorem mem_keys_ofList (ps : List (κ × ν)) (k : κ) :
    k ∈ (ofList ps).keys ↔ k ∈ ps.map Prod.fst := by
  simp [get_ofList, List.find?_isSome]

/-- Every value of a dict built from pairs is the value of one of the pairs. -/
theorem mem_of_get?_ofList {ps : List (κ × ν)} {k : κ} {v : ν} (h : (ofList ps).get? k = some v) :
    (k, v) ∈ ps := by
  rw [get_ofList, Option.map_eq_some'] at h
  obtain ⟨q, hq, rfl⟩ := h
  have hk : q.1 = k := by simpa using List.find?_some hq
  exact hk ▸ List.mem_reverse.1 (List.mem_of_find?_eq_some hq)

/-! ### Distinct keys

The script builds most of its dicts from lists whose keys are distinct (property names, relationship
names, element keys, under the conditions the proofs assume).  Then the dict holds exactly the
pairs of the list, and the order they came in is immaterial. -/

/-- Among pairs with distinct keys, the first pair with key `k` is the pair with key `k`. -/
theorem find?_fst_eq_some_iff {ps : List (κ × ν)} (hnd : (ps.map Prod.fst).Nodup) {k : κ} {v : ν} :
    (ps.find? fun p => p.1 = k).map Prod.snd = some v ↔ (k, v) ∈ ps := by
  rw [Option.map_eq_some']
  constructor
  · rintro ⟨q, hq, rfl⟩
    have hk : q.1 = k := by simpa using List.find?_some hq
    exact hk ▸ List.mem_of_find?_eq_some hq
  · intro h
    have hs : (ps.find? fun p => p.1 = k).isSome := List.find?_isSome.2 ⟨(k, v), h, by simp⟩
    obtain ⟨q, hq⟩ := Option.isSome_iff_exists.1 hs
    have hqk : q.1 = k := by simpa using List.find?_some hq
    exact ⟨q, hq, by rw [List.inj_on_of_nodup_map hnd (List.mem_of_find?_eq_some hq) h hqk]⟩

theorem get?_eq_some_iff (d : Dict κ ν) {k : κ} {v : ν} : d.get? k = some v ↔ (k, v) ∈ d.items :=
  find?_fst_eq_some_iff d.nodup

/-- Every pair of a dict built from pairs is one of the pairs. -/
theorem mem_of_mem_items_ofList {ps : List (κ × ν)} {p : κ × ν} (h : p ∈ (ofList ps).items) :
    p ∈ ps :=
  mem_of_get?_ofList ((get?_eq_some_iff _).2 h)

/-- The pair written last is in the dict. -/
theorem mem_items_ofList_concat (ps : List (κ × ν)) (k : κ) (v : ν) :
    (k, v) ∈ (ofList (ps ++ [(k, v)])).items :=
  (get?_eq_some_iff _).1 (by simp [get_ofList])

/-- With distinct keys, the dict built from `ps` holds exactly the pairs of `ps`. -/
theorem get?_ofList_eq_some_iff {ps : List (κ × ν)} (hnd : (ps.map Prod.fst).Nodup) {k : κ}
    {v : ν} : (ofList ps).get? k = some v ↔ (k, v) ∈ ps := by
  rw [get_ofList, find?_fst_eq_some_iff (by rwa [List.map_reverse, List.nodup_reverse]),
    List.mem_reverse]

theorem items_ofList_perm {ps : List (κ × ν)} (hnd : (ps.map Prod.fst).Nodup) :
    (ofList ps).items.Perm ps :=
  (List.perm_ext_iff_of_nodup (List.Nodup.of_map _ (ofList ps).nodup) (List.Nodup.of_map _ hnd)).2
    fun q => by rw [← get?_eq_some_iff, get?_ofList_eq_some_iff hnd]

/-- With distinct keys, the order the pairs come in is immaterial. -/
theorem get?_ofList_perm {ps qs : List (κ × ν)} (hnd : (ps.map Prod.fst).Nodup) (h : ps.Perm qs)
    (k : κ) : (ofList ps).get? k = (ofList qs).get? k :=
  Option.ext fun v => by
    rw [Option.mem_def, Option.mem_def, get?_ofList_eq_some_iff hnd, get?_ofList_eq_some_iff ((h.map _).nodup_iff.1 hnd), h.mem_iff]

/-! ### Related lists of pairs -/

theorem find?_map_rel {α β γ δ : Type} {S : α → β → Prop} {R : γ → δ → Prop} {p : α → Bool}
    {q : β → Bool} {f : α → γ} {g : β → δ} {l₁ : List α} {l₂ : List β} (h : List.Forall₂ S l₁ l₂)
    (hpq : ∀ a b, S a b → p a = q b) (hfg : ∀ a b, S a b → R (f a) (g b)) :
    Option.Rel R ((l₁.find? p).map f) ((l₂.find? q).map g) := by
  induction h with
  | nil => exact .none
  | @cons a b _ _ hab _ ih =>
    rw [List.find?_cons, List.find?_cons, hpq a b hab]
    cases q b
    · exact ih
    · exact .some (hfg a b hab)

/-- Two lists of pairs with the same keys in the same places and related values build dicts that
are related at every key, whether or not the keys are distinct. -/
theorem get?_ofList_rel {ν' : Type} {R : ν → ν' → Prop} {ps : List (κ × ν)} {qs : List (κ × ν')}
    (h : List.Forall₂ (fun p q => p.1 = q.1 ∧ R p.2 q.2) ps qs) (k : κ) :
    Option.Rel R ((ofList ps).get? k) ((ofList qs).get? k) := by
  rw [get_ofList, get_ofList]
  exact find?_map_rel (List.forall₂_reverse_iff.2 h) (fun a b hab => by rw [hab.1]) fun a b hab => hab.2

/-! ### `pop` -/

theorem setItems_filter_self (k : κ) (v : ν) (ps : List (κ × ν)) :
    (setItems k v ps).filter (fun p => p.1 ≠ k) = ps.filter fun p => p.1 ≠ k := by
  induction ps with
  | nil => simp [setItems]
  | cons p ps ih => by_cases hp : p.1 = k <;> simp_all [setItems]

theorem setItems_filter_of_ne {k k' : κ} (hk : k' ≠ k) (v : ν) (ps : List (κ × ν)) :
    (setItems k' v ps).filter (fun p => p.1 ≠ k) = setItems k' v (ps.filter fun p => p.1 ≠ k) := by
  induction ps with
  | nil => simp [setItems, hk]
  | cons p ps ih =>
    by_cases hp : p.1 = k'
    · have : p.1 ≠ k := hp ▸ hk
      simp_all [setItems]
    · by_cases hpk : p.1 = k <;> simp_all [setItems]

/-- Popping a key from a dict built from pairs is building it from the other pairs. -/
theorem pop_ofList (ps : List (κ × ν)) (k : κ) :
    (ofList ps).pop k = ofList (ps.filter fun p => p.1 ≠ k) := by
  suffices ∀ d : Dict κ ν, (ps.foldl (fun d p => d.set p.1 p.2) d).pop k =
      (ps.filter fun p => p.1 ≠ k).foldl (fun d p => d.set p.1 p.2) (d.pop k) from this empty
  induction ps with
  | nil => intro d; rfl
  | cons p ps ih =>
    intro d
    rw [List.foldl_cons, ih]
    by_cases hp : p.1 = k
    · have : (d.set p.1 p.2).pop k = d.pop k := Dict.ext (by
        simp only [pop, set, hp, setItems_filter_self])
      rw [List.filter_cons_of_neg (by simpa using hp), this]
    · have : (d.set p.1 p.2).pop k = (d.pop k).set p.1 p.2 := Dict.ext (by
        simp only [pop, set, setItems_filter_of_ne hp])
      rw [List.filter_cons_of_pos (by simpa using hp), List.foldl_cons, this]

end Dict

/-! ## Sorting -/

/-- `sorted(xs, key=key)`.  Both sorts are stable, so they agree on every list. -/
def sortOn {α β : Type} [LinearOrder β] (key : α → β) (l : List α) : List α :=
  l.insertionSort fun a b => key a ≤ key b

section sortOn

variable {α β : Type} [LinearOrder β] (key : α → β)

theorem sortOn_perm (l : List α) : (sortOn key l).Perm l := List.perm_insertionSort _ l

@[simp] theorem mem_sortOn {l : List α} {a : α} : a ∈ sortOn key l ↔ a ∈ l :=
  (sortOn_perm key l).mem_iff

@[simp] theorem sortOn_eq_nil {l : List α} : sortOn key l = [] ↔ l = [] := by
  rw [← List.length_eq_zero, (sortOn_perm key l).length_eq, List.length_eq_zero]

/-- Sorting by an injective key forgets the order of the input. -/
theorem sortOn_eq_of_perm (hkey : Function.Injective key) {l₁ l₂ : List α} (h : l₁.Perm l₂) :
    sortOn key l₁ = sortOn key l₂ := by
  haveI : IsAntisymm α fun a b => key a ≤ key b := ⟨fun _ _ h₁ h₂ => hkey (le_antisymm h₁ h₂)⟩
  haveI : IsTotal α fun a b => key a ≤ key b := ⟨fun a b => le_total (key a) (key b)⟩
  haveI : IsTrans α fun a b => key a ≤ key b := ⟨fun _ _ _ h₁ h₂ => le_trans h₁ h₂⟩
  exact List.eq_of_perm_of_sorted ((sortOn_perm key l₁).trans (h.trans (sortOn_perm key l₂).symm))
    (List.sorted_insertionSort _ _) (List.sorted_insertionSort _ _)

/-- The sort is stable: the items with any one key come out in the order they came in. -/
theorem filter_sortOn [DecidableEq β] (l : List α) (b : β) :
    (sortOn key l).filter (fun a => key a = b) = l.filter fun a => key a = b := by
  have hpw : (l.filter fun a => key a = b).Pairwise fun a c => key a ≤ key c :=
    List.pairwise_of_forall_mem_list fun a ha c hc => by
      rw [of_decide_eq_true (List.mem_filter.1 ha).2, of_decide_eq_true (List.mem_filter.1 hc).2]
  have hsub := (List.sublist_insertionSort hpw (List.filter_sublist l)).filter fun a => key a = b
  simp only [List.filter_filter, Bool.and_self] at hsub
  exact (hsub.eq_of_length ((sortOn_perm key l).filter _).length_eq.symm).symm

/-- Two lists sorted by `key` that hold the same items in the same order under every key are
equal. -/
theorem eq_of_sorted_of_filter_eq [DecidableEq β] {l₁ l₂ : List α} (h₁ : l₁.Sorted fun a c => key a ≤ key c)
    (h₂ : l₂.Sorted fun a c => key a ≤ key c)
    (h : ∀ b, l₁.filter (fun a => key a = b) = l₂.filter fun a => key a = b) : l₁ = l₂ := by
  have hmem : ∀ {x : α} {l : List α}, x ∈ l → x ∈ l.filter fun y => key y = key x :=
    fun hx => List.mem_filter.2 ⟨hx, decide_eq_true rfl⟩
  have hle : ∀ {x y : α} {l : List α}, (x :: l).Sorted (fun a c => key a ≤ key c) → y ∈ x :: l →
      key x ≤ key y := fun hs hy => by
    rcases List.mem_cons.1 hy with rfl | hy
    · exact le_rfl
    · exact List.rel_of_sorted_cons hs _ hy
  induction l₁ generalizing l₂ with
  | nil =>
    cases l₂ with
    | nil => rfl
    | cons c u => simpa [List.filter_cons] using h (key c)
  | cons a t ih =>
    cases l₂ with
    | nil => simpa [List.filter_cons] using h (key a)
    | cons c u =>
      have hc : c ∈ a :: t := List.mem_of_mem_filter ((h (key c)).symm ▸ hmem (List.mem_cons_self c u))
      have ha : a ∈ c :: u := List.mem_of_mem_filter (h (key a) ▸ hmem (List.mem_cons_self a t))
      have hkey : key c = key a := le_antisymm (hle h₂ ha) (hle h₁ hc)
      have hhead := h (key a)
      simp only [List.filter_cons, hkey, decide_True, if_true, List.cons.injEq] at hhead
      obtain ⟨rfl, -⟩ := hhead
      refine congrArg _ (ih h₁.of_cons h₂.of_cons fun b => ?_)
      have hb := h b
      simp only [List.filter_cons] at hb
      split_ifs at hb
      exacts [(List.cons.inj hb).2, hb]

/-- Sorting forgets the order of items with different keys, and nothing else. -/
theorem sortOn_eq_of_filter_eq [DecidableEq β] {l₁ l₂ : List α}
    (h : ∀ b, l₁.filter (fun a => key a = b) = l₂.filter fun a => key a = b) :
    sortOn key l₁ = sortOn key l₂ := by
  haveI : IsTotal α fun a c => key a ≤ key c := ⟨fun a c => le_total (key a) (key c)⟩
  haveI : IsTrans α fun a c => key a ≤ key c := ⟨fun _ _ _ => le_trans⟩
  exact eq_of_sorted_of_filter_eq key (List.sorted_insertionSort _ _) (List.sorted_insertionSort _ _)
    fun b => by rw [filter_sortOn, filter_sortOn, h]

/-- Sorting a list of images is sorting the list by the composite key. -/
theorem sortOn_map {γ : Type} (h : γ → α) (l : List γ) :
    sortOn key (l.map h) = (sortOn (fun c => key (h c)) l).map h :=
  (List.map_insertionSort _ _ h l fun _ _ _ _ => Iff.rfl).symm

end sortOn

/-- Python's order on `str`, by code point. -/
def strKey (s : String) : List Char := s.data

theorem strKey_injective : Function.Injective strKey := fun _ _ h => String.ext h

/-- The sort key of a dictionary key that may be `None`; `None` never meets a string in a sort
that returns, so where it sits is immaterial. -/
def optKey (o : Option String) : WithBot (List Char) := o.map strKey

theorem optKey_injective : Function.Injective optKey :=
  Option.map_injective strKey_injective

/-- `sorted(ks)` for a set of dictionary keys that may hold `None`.  On a list of two or more
CPython compares every element at least once, and `None` compares with nothing, so the sort
raises `TypeError` exactly when `None` is one of two or more keys. -/
def sortedKeys (ks : List (Option String)) : Option (List (Option String)) :=
  if none ∈ ks ∧ 1 < ks.length then none else some (sortOn optKey ks)

theorem sortedKeys_of_forall_isSome {ks : List (Option String)} (h : ∀ k ∈ ks, k.isSome) :
    sortedKeys ks = some (sortOn optKey ks) := by
  rw [sortedKeys, if_neg]
  exact fun ⟨hn, _⟩ => by simpa using h none hn

theorem isSome_sortedKeys {ks : List (Option String)} :
    (sortedKeys ks).isSome ↔ ¬ (none ∈ ks ∧ 1 < ks.length) := by
  unfold sortedKeys; split <;> simp_all

/-! ## Comprehensions -/

/-- A comprehension of the items of one list that are not in another, as the script writes
for keys found on one side only, is empty exactly when every item is in the other list. -/
theorem filter_not_mem_eq_nil {α : Type} [DecidableEq α] {l l' : List α} :
    (l.filter fun k => k ∉ l') = [] ↔ ∀ k ∈ l, k ∈ l' := by
  simp only [List.filter_eq_nil_iff, decide_eq_true_eq, not_not]

/-! ## Strings -/

/-- `str.isspace()` on one character: CPython's `_PyUnicode_IsWhitespace`. -/
def isSpace (c : Char) : Bool :=
  let n := c.toNat
  (9 ≤ n && n ≤ 13) || (28 ≤ n && n ≤ 32) || n == 0x85 || n == 0xa0 || n == 0x1680 ||
    (0x2000 ≤ n && n ≤ 0x200a) || n == 0x2028 || n == 0x2029 || n == 0x202f || n == 0x205f ||
    n == 0x3000

/-- `str.strip()` -/
def strip (s : String) : String :=
  ⟨((s.data.dropWhile isSpace).reverse.dropWhile isSpace).reverse⟩

/-- `str.rstrip()` -/
def rstrip (s : String) : String := ⟨(s.data.reverse.dropWhile isSpace).reverse⟩

/-- What an f-string prints for a value that is a `str` or `None`. -/
def fmt : Option String → String
  | none => "None"
  | some s => s

/-! ## Loops that raise

A loop that builds a list and raises as soon as one item raises is `List.mapM` in `Option`. -/

theorem mapM_eq_some_iff {α β : Type} {f : α → Option β} {l : List α} {ys : List β} :
    l.mapM f = some ys ↔ (∀ x ∈ l, (f x).isSome) ∧ l.filterMap f = ys := by
  induction l generalizing ys with
  | nil =>
    simp only [List.mapM_nil, List.filterMap_nil, Option.pure_def, Option.some.injEq]
    exact ⟨fun h => ⟨by simp, h⟩, fun h => h.2⟩
  | cons a l ih =>
    cases h : f a with
    | none =>
      rw [List.mapM_cons, h]
      simp [h]
    | some b =>
      simp only [List.mapM_cons, h, Option.pure_def, Option.bind_eq_bind, Option.some_bind,
        List.mem_cons, forall_eq_or_imp, Option.isSome_some, true_and, List.filterMap_cons]
      constructor
      · intro hs
        obtain ⟨bs, hbs, hys⟩ := Option.bind_eq_some.1 hs
        cases hys
        exact (ih.1 hbs).imp_right (congrArg _)
      · rintro ⟨hall, rfl⟩
        rw [(ih.2 ⟨hall, rfl⟩)]
        rfl

/-- The loop sees the items only through `f`. -/
theorem mapM_congr_map {α β : Type} {f : α → Option β} :
    ∀ {l l' : List α}, l.map f = l'.map f → l.mapM f = l'.mapM f
  | [], [], _ => rfl
  | [], _ :: _, h => by simp at h
  | _ :: _, [], h => by simp at h
  | a :: l, b :: l', h => by
    simp only [List.map_cons, List.cons.injEq] at h
    rw [List.mapM_cons, List.mapM_cons, h.1, mapM_congr_map h.2]

theorem isSome_mapM_iff {α β : Type} {f : α → Option β} {l : List α} :
    (l.mapM f).isSome ↔ ∀ x ∈ l, (f x).isSome := by
  rw [Option.isSome_iff_exists]
  simp only [mapM_eq_some_iff, exists_and_left, exists_eq', and_true]

end Py
end DacpacCompare
