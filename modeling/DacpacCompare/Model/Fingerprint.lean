import DacpacCompare.Model.WellFormed
import Mathlib.Data.Set.Function

/-!
# Reading an inline fingerprint back

An inline element has no key of its own; `get_relationships` records it by
`inline_element_fingerprint`, the texts of its type, its properties, its relationship entries and
its annotations joined by `|`.  Nothing is escaped, so the fingerprint identifies the element
only where the texts it is built from leave its separators alone: a property value `b|P:c=d`
writes what the two properties `a=b` and `c=d` write (`inlineElementFingerprint_separator_collision`).

This file says when the fingerprint can be read back, and reads it.  The reader splits a
fingerprint at the `|` that stand outside every parenthesis (`splitTop`), which undoes the join
whenever every part balances its parentheses and keeps its `|` inside them (`Guarded`,
`splitTop_join`).  That holds when the texts the fingerprint copies are plain — no `|`, no
parenthesis — since a nested element is written in parentheses (`FpOk.guarded`).  Each part then
names what it was written from, given that a name before a `=` or an `@` holds none
(`renderProp_injOn`, `renderRel_injOn`, `renderAnn_injOn`), and the three sorted groups of parts
are told apart by their first letter.

What is here:

* `Plain`, `FpLocalOk`, `FpOk` — the conditions, on one element and at every depth;
* `propPairs`, `relTargets`, `annViews` — what the fingerprint is written from, in document order;
* `sameContent_of_fingerprint_eq` — one fingerprint means the same type, and the same properties,
  entries and annotations up to order;
* `inlineElementFingerprint_faithful` — and so, by induction, elements alike at every depth.
-/

set_option autoImplicit false

namespace DacpacCompare

/-! ## Splitting at the top-level bars -/

/-- The depth of parentheses after reading `c` at depth `d`. -/
def nextDepth (d : Nat) (c : Char) : Nat :=
  if c = '(' then d + 1 else if c = ')' then d - 1 else d

/-- The depth after reading `s` from depth `d`: `none` at a `|` outside every parenthesis, and at
a `)` that closes none. -/
def depthAfter (d : Nat) : List Char → Option Nat
  | [] => some d
  | c :: s => if d = 0 ∧ (c = '|' ∨ c = ')') then none else depthAfter (nextDepth d c) s

/-- A part of a fingerprint: its parentheses balance, and every `|` in it stands inside them. -/
def Guarded (s : String) : Prop := depthAfter 0 s.data = some 0

/-- Split a text at the `|` outside every parenthesis; `cur` is the part read so far, reversed. -/
def splitTop (d : Nat) (cur : List Char) : List Char → List (List Char)
  | [] => [cur.reverse]
  | c :: s => if d = 0 ∧ c = '|' then cur.reverse :: splitTop 0 [] s
    else splitTop (nextDepth d c) (c :: cur) s

theorem splitTop_append {s : List Char} {d d' : Nat} (h : depthAfter d s = some d')
    (cur rest : List Char) : splitTop d cur (s ++ rest) = splitTop d' (s.reverse ++ cur) rest := by
  induction s generalizing d cur with
  | nil => cases h; rfl
  | cons c s ih =>
    simp only [depthAfter] at h
    split_ifs at h with hc
    rw [List.cons_append, splitTop, if_neg fun h' => hc ⟨h'.1, .inl h'.2⟩, ih h]
    simp

/-- **Splitting undoes the join of guarded parts.** -/
theorem splitTop_join : ∀ {ps : List String}, ps ≠ [] → (∀ p ∈ ps, Guarded p) →
    splitTop 0 [] (Py.join "|" ps).data = ps.map String.data
  | [p], _, h => by
    simpa [Py.join, splitTop] using splitTop_append (h p (List.mem_singleton_self p)) [] []
  | p :: q :: ps, _, h => by
    rw [Py.data_join_cons_cons, List.append_assoc,
      splitTop_append (h p (List.mem_cons_self _ _)), List.append_nil,
      show "|".data ++ (Py.join "|" (q :: ps)).data = '|' :: (Py.join "|" (q :: ps)).data from rfl,
      splitTop, if_pos ⟨rfl, rfl⟩, List.reverse_reverse,
      splitTop_join (List.cons_ne_nil q ps) fun x hx => h x (List.mem_cons_of_mem _ hx)]
    rfl

theorem join_injective {ps qs : List String} (hp : ps ≠ []) (hq : qs ≠ [])
    (hgp : ∀ p ∈ ps, Guarded p) (hgq : ∀ q ∈ qs, Guarded q) (h : Py.join "|" ps = Py.join "|" qs) :
    ps = qs := by
  have hsplit := splitTop_join hp hgp
  rw [h, splitTop_join hq hgq] at hsplit
  exact List.map_injective_iff.2 (fun _ _ => String.ext) hsplit.symm

/-! ### Guarded parts -/

theorem depthAfter_append (d : Nat) (s t : List Char) :
    depthAfter d (s ++ t) = (depthAfter d s).bind fun d' => depthAfter d' t := by
  induction s generalizing d with
  | nil => rfl
  | cons c s ih =>
    simp only [List.cons_append, depthAfter]
    split_ifs
    · rfl
    · exact ih _

theorem nextDepth_add {d : Nat} {c : Char} (k : Nat) (h : ¬(d = 0 ∧ c = ')')) :
    nextDepth (d + k) c = nextDepth d c + k := by
  unfold nextDepth
  split_ifs with h₁ h₂
  · omega
  · have : d ≠ 0 := fun hd => h ⟨hd, h₂⟩
    omega
  · rfl

/-- Deeper inside parentheses, a part reads the same way. -/
theorem depthAfter_add {s : List Char} {d d' : Nat} (h : depthAfter d s = some d') (k : Nat) :
    depthAfter (d + k) s = some (d' + k) := by
  induction s generalizing d with
  | nil => cases h; rfl
  | cons c s ih =>
    simp only [depthAfter] at h ⊢
    split_ifs at h with hc
    rw [if_neg fun h' => hc ⟨by omega, h'.2⟩, nextDepth_add k fun h' => hc ⟨h'.1, .inr h'.2⟩]
    exact ih h

/-- Inside one parenthesis, a join of guarded parts closes where it opened. -/
theorem depthAfter_join : ∀ {ps : List String}, (∀ p ∈ ps, Guarded p) →
    depthAfter 1 (Py.join "|" ps).data = some 1
  | [], _ => rfl
  | [p], h => depthAfter_add (h p (List.mem_singleton_self p)) 1
  | p :: q :: ps, h => by
    rw [Py.data_join_cons_cons, depthAfter_append, depthAfter_append,
      depthAfter_add (h p (List.mem_cons_self _ _)) 1]
    exact depthAfter_join fun x hx => h x (List.mem_cons_of_mem _ hx)

theorem guarded_paren {f : String} (h : depthAfter 1 f.data = some 1) : Guarded ("(" ++ f ++ ")") := by
  rw [Guarded, String.data_append, String.data_append, depthAfter_append, depthAfter_append]
  simp only [show depthAfter 0 "(".data = some 1 from rfl, Option.some_bind, h]
  rfl

/-! ### Plain texts -/

/-- A character the reader takes as text: not `|` and not a parenthesis. -/
def IsText (c : Char) : Prop := c ≠ '|' ∧ c ≠ '(' ∧ c ≠ ')'

instance : DecidablePred IsText := fun c =>
  inferInstanceAs (Decidable (c ≠ '|' ∧ c ≠ '(' ∧ c ≠ ')'))

/-- A text the fingerprint can carry as it is. -/
def Plain (s : String) : Prop := ∀ c ∈ s.data, IsText c

instance : DecidablePred Plain := fun s => inferInstanceAs (Decidable (∀ c ∈ s.data, IsText c))

@[simp] theorem plain_append {a b : String} : Plain (a ++ b) ↔ Plain a ∧ Plain b := by
  simp only [Plain, String.data_append, List.mem_append, or_imp, forall_and]

theorem depthAfter_of_text {s : List Char} (h : ∀ c ∈ s, IsText c) (d : Nat) :
    depthAfter d s = some d := by
  induction s with
  | nil => rfl
  | cons c s ih =>
    obtain ⟨h₁, h₂, h₃⟩ := h c (List.mem_cons_self _ _)
    rw [depthAfter, if_neg fun h' => h'.2.elim h₁ h₃, nextDepth, if_neg h₂, if_neg h₃]
    exact ih fun x hx => h x (List.mem_cons_of_mem _ hx)

theorem Plain.guarded {s : String} (h : Plain s) : Guarded s := depthAfter_of_text h 0

theorem guarded_plain_append {a b : String} (ha : Plain a) (hb : Guarded b) : Guarded (a ++ b) := by
  rw [Guarded, String.data_append, depthAfter_append, depthAfter_of_text ha, Option.some_bind]
  exact hb

theorem plain_join {sep : String} (hsep : Plain sep) :
    ∀ {ps : List String}, (∀ p ∈ ps, Plain p) → Plain (Py.join sep ps)
  | [], _ => fun _ h => absurd h (List.not_mem_nil _)
  | [p], h => h p (List.mem_singleton_self p)
  | p :: q :: ps, h => by
    rw [Py.join, plain_append, plain_append]
    exact ⟨⟨h p (List.mem_cons_self _ _), hsep⟩,
      plain_join hsep fun x hx => h x (List.mem_cons_of_mem _ hx)⟩

theorem isText_of_mem_hexDigits {c : Char} : ∀ {w n : Nat}, c ∈ Py.hexDigits w n → IsText c
  | 0, _, h => absurd h (List.not_mem_nil _)
  | w + 1, n, h => by
    have hdigit : ∀ i : Fin 16, IsText (Py.hexDigit i) := by decide
    rcases List.mem_cons.1 h with rfl | h
    · exact hdigit ⟨_, Nat.mod_lt _ (by omega)⟩
    · exact isText_of_mem_hexDigits h

/-- `repr` writes a text character as text. -/
theorem isText_of_mem_escape {q c : Char} (hc : IsText c) : ∀ x ∈ Py.escape q c, IsText x := by
  have hite : ∀ {p : Prop} [Decidable p] {l₁ l₂ : List Char}, (∀ x ∈ l₁, IsText x) →
      (∀ x ∈ l₂, IsText x) → ∀ x ∈ (if p then l₁ else l₂), IsText x := fun h₁ h₂ =>
    iteInduction (motive := fun l => ∀ x ∈ l, IsText x) (fun _ => h₁) fun _ => h₂
  have hbs : IsText '\\' := by decide
  have hpair : ∀ k, IsText k → ∀ x ∈ ['\\', k], IsText x := fun k hk x hx => by
    rcases List.mem_cons.1 hx with rfl | hx
    · exact hbs
    · exact List.mem_singleton.1 hx ▸ hk
  have hhex : ∀ k w n, IsText k → ∀ x ∈ '\\' :: k :: Py.hexDigits w n, IsText x :=
    fun k w n hk x hx => by
      rcases List.mem_cons.1 hx with rfl | hx
      · exact hbs
      rcases List.mem_cons.1 hx with rfl | hx
      · exact hk
      · exact isText_of_mem_hexDigits hx
  unfold Py.escape
  exact hite (hpair c hc) <| hite (hpair 't' (by decide)) <| hite (hpair 'n' (by decide)) <|
    hite (hpair 'r' (by decide)) <| hite (hhex 'x' 2 _ (by decide)) <|
    hite (fun x hx => List.mem_singleton.1 hx ▸ hc) <| hite (hhex 'x' 2 _ (by decide)) <|
    hite (hhex 'u' 4 _ (by decide)) (hhex 'U' 8 _ (by decide))

theorem plain_repr {s : String} (h : Plain s) : Plain (Py.repr s) := by
  have hq : IsText (Py.quoteFor s.data) := by
    rcases Py.isQuote_quoteFor s.data with h' | h' <;> rw [h'] <;> decide
  intro c hc
  simp only [Py.repr, List.mem_cons, List.mem_append, List.mem_flatMap, List.not_mem_nil,
    or_false] at hc
  rcases hc with (rfl | ⟨x, hx, hc⟩) | rfl
  · exact hq
  · exact isText_of_mem_escape (h x hx) c hc
  · exact hq

theorem plain_reprOpt {o : Option String} (h : ∀ s ∈ o, Plain s) : Plain (Py.reprOpt o) := by
  cases o with
  | none => decide
  | some s => exact plain_repr (h s rfl)

/-! ## What the fingerprint is written from -/

/-- What an entry holds as the fingerprint reads it: a reference, by its `Name` (empty when it
has none) and its `ExternalSource` when that is non-empty, or an inline element, by its own
fingerprint. -/
inductive Target
  | ref (name : String) (ext : Option String)
  | inline (fingerprint : String)
  deriving DecidableEq, Inhabited

/-- The target of an entry: its first `References`, else its first inline `Element`. -/
def targetOf (entry : Node) : Option Target :=
  match entry.find (nsTag "References") with
  | some ref => some (.ref ((ref.get "Name").getD "") (truthy (ref.get "ExternalSource")))
  | none => (entry.find (nsTag "Element")).map fun inner => .inline (inlineElementFingerprint inner)

/-- How the fingerprint writes a target. -/
def Target.render : Target → String
  | .ref name none => name
  | .ref name (some ext) => name ++ "@" ++ ext
  | .inline f => "(" ++ f ++ ")"

theorem entryPart'_eq (relName : Option String) (entry : Node) :
    entryPart' relName entry = (targetOf entry).map fun t => relPart relName t.render := by
  unfold entryPart' targetOf refKey
  cases entry.find (nsTag "References") with
  | some ref => dsimp only; cases truthy (ref.get "ExternalSource") <;> rfl
  | none => cases entry.find (nsTag "Element") <;> rfl

/-- The name and value of each property, in document order. -/
def propPairs (e : Node) : List Item :=
  (e.findall (nsTag "Property")).map fun p => (p.get "Name", propValue p)

/-- Each entry of each relationship, as the relationship's name and the entry's target, in
document order. -/
def relTargets (e : Node) : List (Option String × Target) :=
  (e.findall (nsTag "Relationship")).flatMap fun rel =>
    (rel.findall (nsTag "Entry")).filterMap fun entry =>
      (targetOf entry).map fun t => (rel.get "Name", t)

/-- The type and the items without `Disambiguator` of each annotation, in document order. -/
def annViews (e : Node) : List (String × List Item) :=
  (e.findall (nsTag "AttachedAnnotation")).map fun a => ((a.get "Type").getD "", (annProps a).items)

/-- The inline elements the fingerprint reads: the first `Element` of every entry without a
`References`. -/
def inlines (e : Node) : List Node :=
  (e.findall (nsTag "Relationship")).flatMap fun rel =>
    (rel.findall (nsTag "Entry")).filterMap fun entry =>
      match entry.find (nsTag "References") with
      | some _ => none
      | none => entry.find (nsTag "Element")

/-- The `P:` part written from a name and a value. -/
def renderProp (x : Item) : String := "P:" ++ Py.fmt x.1 ++ "=" ++ Py.fmt x.2

/-- The `R:` part written from a relationship name and a target. -/
def renderRel (x : Option String × Target) : String := relPart x.1 x.2.render

/-- `repr` of a dict with the items `items`. -/
def reprItems (items : List Item) : String :=
  Py.seq "\x7b" "\x7d" (items.map fun p => Py.reprOpt p.1 ++ ": " ++ Py.reprOpt p.2)

/-- The `A:` part written from a type and the items of a property dict. -/
def renderAnn (x : String × List Item) : String := "A:" ++ x.1 ++ "=" ++ reprItems x.2

/-- The parts the fingerprint joins: the type, then the sorted `P:`, `R:` and `A:` parts. -/
def fpParts (e : Node) : List String :=
  (e.get "Type").getD "" :: (Py.sortOn Py.strKey ((propPairs e).map renderProp) ++
    Py.sortOn Py.strKey ((relTargets e).map renderRel) ++
    Py.sortOn Py.strKey ((annViews e).map renderAnn))

/-- **The fingerprint is the join of the parts written from the three views.** -/
theorem inlineElementFingerprint_eq_join (e : Node) :
    inlineElementFingerprint e = Py.join "|" (fpParts e) := by
  have hp : (e.findall (nsTag "Property")).map propPart = (propPairs e).map renderProp := by
    rw [propPairs, List.map_map]; rfl
  have hr : ((e.findall (nsTag "Relationship")).flatMap fun rel =>
      (rel.findall (nsTag "Entry")).filterMap (entryPart' (rel.get "Name"))) =
      (relTargets e).map renderRel := by
    simp only [relTargets, List.map_flatMap, List.map_filterMap, Option.map_map]
    congr 1; funext rel; congr 1; funext entry
    exact entryPart'_eq _ _
  have ha : (e.findall (nsTag "AttachedAnnotation")).map annPart = (annViews e).map renderAnn := by
    rw [annViews, List.map_map]; rfl
  rw [inlineElementFingerprint_eq, hp, hr, ha]
  rfl

/-! ## The conditions -/

/-- A name the fingerprint writes before a `=`: plain, and without `=`. -/
def PlainName (s : String) : Prop := Plain s ∧ '=' ∉ s.data

instance : DecidablePred PlainName := fun s => inferInstanceAs (Decidable (Plain s ∧ '=' ∉ s.data))

/-- The conditions, on one inline element, under which the reader takes its fingerprint apart. -/
structure FpLocalOk (e : Node) : Prop where
  /-- Its type is plain. -/
  type : Plain ((e.get "Type").getD "")
  /-- Every property has a plain name without `=`, and a plain value. -/
  props : ∀ p ∈ e.findall (nsTag "Property"),
    (∃ n ∈ p.get "Name", PlainName n) ∧ ∃ v ∈ propValue p, Plain v
  /-- Every relationship has a plain name without `=`. -/
  rels : ∀ r ∈ e.findall (nsTag "Relationship"), ∃ n ∈ r.get "Name", PlainName n
  /-- Every reference the fingerprint reads has a plain name without `@`, and a plain
  `ExternalSource`. -/
  refs : ∀ r ∈ e.findall (nsTag "Relationship"), ∀ entry ∈ r.findall (nsTag "Entry"),
    ∀ ref ∈ entry.find (nsTag "References"), Plain ((ref.get "Name").getD "") ∧
      '@' ∉ ((ref.get "Name").getD "").data ∧ ∀ x ∈ ref.get "ExternalSource", Plain x
  /-- Every annotation has a plain type without `=`, and plain property names and values. -/
  anns : ∀ a ∈ e.findall (nsTag "AttachedAnnotation"), PlainName ((a.get "Type").getD "") ∧
    ∀ p ∈ a.findall (nsTag "Property"), (∀ n ∈ p.get "Name", Plain n) ∧ ∀ v ∈ propValue p, Plain v

instance (e : Node) : Decidable (FpLocalOk e) :=
  decidable_of_iff (Plain ((e.get "Type").getD "") ∧
      (∀ p ∈ e.findall (nsTag "Property"),
        (∃ n ∈ p.get "Name", PlainName n) ∧ ∃ v ∈ propValue p, Plain v) ∧
      (∀ r ∈ e.findall (nsTag "Relationship"), ∃ n ∈ r.get "Name", PlainName n) ∧
      (∀ r ∈ e.findall (nsTag "Relationship"), ∀ entry ∈ r.findall (nsTag "Entry"),
        ∀ ref ∈ entry.find (nsTag "References"), Plain ((ref.get "Name").getD "") ∧
          '@' ∉ ((ref.get "Name").getD "").data ∧ ∀ x ∈ ref.get "ExternalSource", Plain x) ∧
      ∀ a ∈ e.findall (nsTag "AttachedAnnotation"), PlainName ((a.get "Type").getD "") ∧
        ∀ p ∈ a.findall (nsTag "Property"), (∀ n ∈ p.get "Name", Plain n) ∧
          ∀ v ∈ propValue p, Plain v)
    ⟨fun ⟨a, b, c, d, f⟩ => ⟨a, b, c, d, f⟩, fun ⟨a, b, c, d, f⟩ => ⟨a, b, c, d, f⟩⟩

/-- The conditions at every depth: on the element, and on every inline element its fingerprint
reads. -/
inductive FpOk : Node → Prop
  | mk {e : Node} (h : FpLocalOk e) (hin : ∀ i ∈ inlines e, FpOk i) : FpOk e

theorem mem_relTargets {e : Node} {x : Option String × Target} :
    x ∈ relTargets e ↔ ∃ r ∈ e.findall (nsTag "Relationship"),
      ∃ entry ∈ r.findall (nsTag "Entry"), ∃ t, targetOf entry = some t ∧ (r.get "Name", t) = x := by
  simp only [relTargets, List.mem_flatMap, List.mem_filterMap, Option.map_eq_some']

theorem mem_inlines {e i : Node} :
    i ∈ inlines e ↔ ∃ r ∈ e.findall (nsTag "Relationship"), ∃ entry ∈ r.findall (nsTag "Entry"),
      entry.find (nsTag "References") = none ∧ entry.find (nsTag "Element") = some i := by
  simp only [inlines, List.mem_flatMap, List.mem_filterMap]
  refine exists_congr fun r => and_congr_right fun _ => exists_congr fun entry =>
    and_congr_right fun _ => ?_
  cases entry.find (nsTag "References") <;> simp

theorem mem_of_mem_truthy {o : Option String} {y : String} (h : y ∈ truthy o) : y ∈ o := by
  cases o with
  | none => cases h
  | some s =>
    simp only [truthy, Option.filter] at h
    split_ifs at h
    · exact h
    · cases h

section FpLocalOk

variable {e : Node} (h : FpLocalOk e)
include h

theorem FpLocalOk.propPair {x : Item} (hx : x ∈ propPairs e) :
    (∃ n ∈ x.1, PlainName n) ∧ ∃ v ∈ x.2, Plain v := by
  obtain ⟨p, hp, rfl⟩ := List.mem_map.1 hx
  exact h.props p hp

theorem FpLocalOk.relTarget {x : Option String × Target} (hx : x ∈ relTargets e) :
    (∃ n ∈ x.1, PlainName n) ∧
      ((∃ name ext, x.2 = .ref name ext ∧ Plain name ∧ '@' ∉ name.data ∧ ∀ y ∈ ext, Plain y) ∨
        ∃ i ∈ inlines e, x.2 = .inline (inlineElementFingerprint i)) := by
  obtain ⟨r, hr, entry, hentry, t, ht, rfl⟩ := mem_relTargets.1 hx
  refine ⟨h.rels r hr, ?_⟩
  unfold targetOf at ht
  rcases href : entry.find (nsTag "References") with _ | ref <;> rw [href] at ht
  · obtain ⟨i, hi, rfl⟩ := Option.map_eq_some'.1 ht
    exact .inr ⟨i, mem_inlines.2 ⟨r, hr, entry, hentry, href, hi⟩, rfl⟩
  · cases ht
    obtain ⟨h₁, h₂, h₃⟩ := h.refs r hr entry hentry ref href
    exact .inl ⟨_, _, rfl, h₁, h₂, fun y hy => h₃ y (mem_of_mem_truthy hy)⟩

theorem FpLocalOk.annView {x : String × List Item} (hx : x ∈ annViews e) :
    PlainName x.1 ∧ ∀ y ∈ x.2, (∀ n ∈ y.1, Plain n) ∧ ∀ v ∈ y.2, Plain v := by
  obtain ⟨a, ha, rfl⟩ := List.mem_map.1 hx
  refine ⟨(h.anns a ha).1, fun ⟨n, v⟩ hy => ?_⟩
  have hmem := Py.Dict.mem_of_get?_ofList
    ((getProperties a).get?_eq_some_iff.2 (List.mem_of_mem_filter hy))
  obtain ⟨p, hp, hpy⟩ := List.mem_map.1 hmem
  obtain ⟨rfl, rfl⟩ := Prod.mk.inj hpy
  exact (h.anns a ha).2 p hp

end FpLocalOk

/-! ### Every part is guarded -/

theorem plain_renderProp {x : Item} (h₁ : ∃ n ∈ x.1, PlainName n) (h₂ : ∃ v ∈ x.2, Plain v) :
    Plain (renderProp x) := by
  obtain ⟨a, b⟩ := x
  obtain ⟨n, rfl, hn⟩ := h₁
  obtain ⟨v, rfl, hv⟩ := h₂
  exact plain_append.2 ⟨plain_append.2 ⟨plain_append.2 ⟨by decide, hn.1⟩, by decide⟩, hv⟩

theorem plain_renderAnn {x : String × List Item} (h₁ : PlainName x.1)
    (h₂ : ∀ y ∈ x.2, (∀ n ∈ y.1, Plain n) ∧ ∀ v ∈ y.2, Plain v) : Plain (renderAnn x) := by
  have hitems : Plain (reprItems x.2) := by
    refine plain_append.2 ⟨plain_append.2 ⟨by decide, plain_join (by decide) fun s hs => ?_⟩,
      by decide⟩
    obtain ⟨y, hy, rfl⟩ := List.mem_map.1 hs
    exact plain_append.2 ⟨plain_append.2 ⟨plain_reprOpt (h₂ y hy).1, by decide⟩,
      plain_reprOpt (h₂ y hy).2⟩
  exact plain_append.2 ⟨plain_append.2 ⟨plain_append.2 ⟨by decide, h₁.1⟩, by decide⟩, hitems⟩

theorem guarded_renderRel {x : Option String × Target} (h₁ : ∃ n ∈ x.1, PlainName n)
    (h₂ : (∃ name ext, x.2 = .ref name ext ∧ Plain name ∧ '@' ∉ name.data ∧ ∀ y ∈ ext, Plain y) ∨
      ∃ f, x.2 = .inline f ∧ depthAfter 1 f.data = some 1) :
    Guarded (renderRel x) := by
  obtain ⟨a, t⟩ := x
  obtain ⟨n, rfl, hn⟩ := h₁
  refine guarded_plain_append (plain_append.2 ⟨plain_append.2 ⟨by decide, hn.1⟩, by decide⟩) ?_
  rcases h₂ with ⟨name, ext, rfl, hname, -, hext⟩ | ⟨f, rfl, hf⟩
  · cases ext with
    | none => exact hname.guarded
    | some y => exact (plain_append.2 ⟨plain_append.2 ⟨hname, by decide⟩, hext y rfl⟩).guarded
  · exact guarded_paren hf

/-- **The parts of a fingerprint whose conditions hold at every depth are guarded.** -/
theorem FpOk.guarded {e : Node} (h : FpOk e) : ∀ p ∈ fpParts e, Guarded p := by
  induction h with
  | @mk e hl _ ih =>
    intro p hp
    simp only [fpParts, List.mem_cons, List.mem_append, Py.mem_sortOn, List.mem_map] at hp
    rcases hp with rfl | (⟨x, hx, rfl⟩ | ⟨x, hx, rfl⟩) | ⟨x, hx, rfl⟩
    · exact hl.type.guarded
    · exact (plain_renderProp (hl.propPair hx).1 (hl.propPair hx).2).guarded
    · refine guarded_renderRel (hl.relTarget hx).1 ((hl.relTarget hx).2.imp_right ?_)
      rintro ⟨i, hi, hxi⟩
      exact ⟨_, hxi, by rw [inlineElementFingerprint_eq_join]; exact depthAfter_join (ih i hi)⟩
    · exact (plain_renderAnn (hl.annView hx).1 (hl.annView hx).2).guarded

/-! ## Each part names what it was written from -/

/-- A name that does not hold the separator ends at the separator. -/
theorem append_cons_inj_left {c : Char} : ∀ {a a' b b' : List Char}, c ∉ a → c ∉ a' →
    a ++ c :: b = a' ++ c :: b' → a = a' ∧ b = b'
  | [], [], _, _, _, _, h => ⟨rfl, (List.cons.inj h).2⟩
  | [], _ :: _, _, _, _, ha', h => absurd (List.mem_cons.2 (.inl (List.cons.inj h).1)) ha'
  | _ :: _, [], _, _, ha, _, h => absurd (List.mem_cons.2 (.inl (List.cons.inj h).1.symm)) ha
  | _ :: _, _ :: _, _, _, ha, ha', h => by
    obtain ⟨rfl, h'⟩ := List.cons.inj h
    obtain ⟨rfl, rfl⟩ := append_cons_inj_left (fun hc => ha (List.mem_cons_of_mem _ hc))
      (fun hc => ha' (List.mem_cons_of_mem _ hc)) h'
    exact ⟨rfl, rfl⟩

theorem split_at_sep {pre sep a a' b b' : String} {c : Char} (hsep : sep.data = [c])
    (ha : c ∉ a.data) (ha' : c ∉ a'.data) (h : pre ++ a ++ sep ++ b = pre ++ a' ++ sep ++ b') :
    a = a' ∧ b = b' := by
  have hd := congrArg String.data h
  simp only [String.data_append, hsep, List.append_assoc, List.append_cancel_left_eq,
    List.singleton_append] at hd
  obtain ⟨h₁, h₂⟩ := append_cons_inj_left ha ha' hd
  exact ⟨String.ext h₁, String.ext h₂⟩

theorem renderProp_injOn :
    Set.InjOn renderProp {x | (∃ n ∈ x.1, '=' ∉ n.data) ∧ ∃ v, x.2 = some v} := by
  rintro ⟨_, _⟩ ⟨⟨n, rfl, hn⟩, v, rfl⟩ ⟨_, _⟩ ⟨⟨n', rfl, hn'⟩, v', rfl⟩ h
  change "P:" ++ n ++ "=" ++ v = "P:" ++ n' ++ "=" ++ v' at h
  obtain ⟨rfl, rfl⟩ := split_at_sep (show "=".data = ['='] from rfl) hn hn' h
  rfl

/-- A target the reader can tell from the others: a reference whose name holds no `@` and does
not open a parenthesis. -/
def Target.Readable : Target → Prop
  | .ref name _ => '@' ∉ name.data ∧ '(' ∉ name.data
  | .inline _ => True

theorem Target.render_ref_head {name : String} {ext : Option String} (h : '(' ∉ name.data) :
    (Target.ref name ext).render.data.head? ≠ some '(' := by
  intro hh
  cases hn : name.data with
  | nil => cases ext <;> simp [Target.render, hn] at hh
  | cons c t =>
    have hc : c = '(' := by cases ext <;> simpa [Target.render, hn] using hh
    exact h (hn ▸ hc ▸ List.mem_cons_self _ _)

theorem Target.render_injOn : Set.InjOn Target.render {t | t.Readable} := by
  have hinline : ∀ f, (Target.inline f).render.data.head? = some '(' := fun _ => rfl
  rintro (⟨n, _ | y⟩ | f) hx (⟨n', _ | y'⟩ | f') hy h <;>
    simp only [Set.mem_setOf_eq, Target.Readable] at hx hy
  · change n = n' at h
    rw [h]
  · change n = n' ++ "@" ++ y' at h
    exact absurd (by rw [h]; simp : '@' ∈ n.data) hx.1
  · exact absurd (h ▸ hinline f') (render_ref_head hx.2)
  · change n ++ "@" ++ y = n' at h
    exact absurd (by rw [← h]; simp : '@' ∈ n'.data) hy.1
  · obtain ⟨rfl, rfl⟩ := split_at_sep (show "@".data = ['@'] from rfl) hx.1 hy.1
      (show "" ++ n ++ "@" ++ y = "" ++ n' ++ "@" ++ y' from h)
    rfl
  · exact absurd (h ▸ hinline f') (render_ref_head hx.2)
  · exact absurd (h.symm ▸ hinline f) (render_ref_head hy.2)
  · exact absurd (h.symm ▸ hinline f) (render_ref_head hy.2)
  · have hd := congrArg String.data h
    simp only [Target.render, String.data_append, List.append_cancel_right_eq,
      List.append_cancel_left_eq] at hd
    rw [String.ext hd]

theorem renderRel_injOn :
    Set.InjOn renderRel {x | (∃ n ∈ x.1, '=' ∉ n.data) ∧ x.2.Readable} := by
  rintro ⟨_, t⟩ ⟨⟨n, rfl, hn⟩, ht⟩ ⟨_, t'⟩ ⟨⟨n', rfl, hn'⟩, ht'⟩ h
  change "R:" ++ n ++ "=" ++ t.render = "R:" ++ n' ++ "=" ++ t'.render at h
  obtain ⟨rfl, hr⟩ := split_at_sep (show "=".data = ['='] from rfl) hn hn' h
  obtain rfl : t = t' := Target.render_injOn ht ht' hr
  rfl

theorem reprOpt_data_head (o : Option String) :
    ∃ c t, (Py.reprOpt o).data = c :: t ∧ c ≠ '\x7d' := by
  cases o with
  | none => exact ⟨'N', _, rfl, by decide⟩
  | some s =>
    refine ⟨Py.quoteFor s.data, _, rfl, ?_⟩
    rcases Py.isQuote_quoteFor s.data with h | h <;> rw [h] <;> decide

/-- Distinct items give distinct dict texts. -/
theorem reprItems_injective : Function.Injective reprItems := by
  have hstart : ∀ p : Item, ∃ c t, (Py.reprOpt p.1 ++ ": " ++ Py.reprOpt p.2).data = c :: t ∧
      c ≠ '\x7d' := fun p => by
    obtain ⟨c, t, ht, hc⟩ := reprOpt_data_head p.1
    exact ⟨c, _, by rw [String.data_append, String.data_append, ht]; rfl, hc⟩
  exact ((Py.selfDelimiting_reprOpt.pair Py.selfDelimiting_reprOpt ": ").seq "\x7b" "\x7d"
    (show "\x7d".data = ['\x7d'] from rfl) (by decide) hstart).injective

theorem renderAnn_injOn : Set.InjOn renderAnn {x | '=' ∉ x.1.data} := by
  rintro ⟨a, xs⟩ ha ⟨a', xs'⟩ ha' h
  obtain ⟨rfl, hr⟩ := split_at_sep (show "=".data = ['='] from rfl) ha ha' h
  obtain rfl : xs = xs' := reprItems_injective hr
  rfl

/-! ## Reading the parts back -/

/-- Lists whose images under a map injective on their elements are permutations of each other
are permutations of each other. -/
theorem perm_of_perm_map {α β : Type} [Nonempty α] {f : α → β} {s : Set α} (hf : Set.InjOn f s)
    {l₁ l₂ : List α} (h₁ : ∀ a ∈ l₁, a ∈ s) (h₂ : ∀ a ∈ l₂, a ∈ s)
    (h : (l₁.map f).Perm (l₂.map f)) : l₁.Perm l₂ := by
  have hback : ∀ l : List α, (∀ a ∈ l, a ∈ s) → (l.map f).map (Function.invFunOn f s) = l :=
    fun l hl => by
      rw [List.map_map]
      exact (List.map_congr_left fun a ha => hf.leftInvOn_invFunOn (hl a ha)).trans (List.map_id _)
  simpa only [hback l₁ h₁, hback l₂ h₂] using h.map (Function.invFunOn f s)

theorem perm_of_sortOn_eq {l₁ l₂ : List String}
    (h : Py.sortOn Py.strKey l₁ = Py.sortOn Py.strKey l₂) : l₁.Perm l₂ :=
  (Py.sortOn_perm _ l₁).symm.trans (by rw [h]; exact Py.sortOn_perm _ l₂)

/-- Two joined lists, the first parts satisfying `p` and the second parts not, are split alike. -/
theorem append_inj_of_forall {α : Type} (p : α → Prop) [DecidablePred p]
    {X₁ X₂ Y₁ Y₂ : List α} (hX : ∀ s ∈ X₁ ++ X₂, p s) (hY : ∀ s ∈ Y₁ ++ Y₂, ¬p s)
    (h : X₁ ++ Y₁ = X₂ ++ Y₂) : X₁ = X₂ ∧ Y₁ = Y₂ := by
  have hXs : ∀ X : List α, (∀ s ∈ X, p s) → X.filter (fun s => p s) = X := fun X hX =>
    List.filter_eq_self.2 fun s hs => decide_eq_true (hX s hs)
  have hYs : ∀ Y : List α, (∀ s ∈ Y, ¬p s) → Y.filter (fun s => p s) = [] := fun Y hY =>
    List.filter_eq_nil_iff.2 fun s hs => by simpa using hY s hs
  have hX₁₂ : X₁ = X₂ := by
    have := congrArg (List.filter fun s => p s) h
    rwa [List.filter_append, List.filter_append, hXs X₁ fun s hs => hX s (List.mem_append_left _ hs),
      hXs X₂ fun s hs => hX s (List.mem_append_right _ hs),
      hYs Y₁ fun s hs => hY s (List.mem_append_left _ hs),
      hYs Y₂ fun s hs => hY s (List.mem_append_right _ hs), List.append_nil, List.append_nil] at this
  subst hX₁₂
  exact ⟨rfl, List.append_cancel_left h⟩

theorem head?_of_mem_sortOn {α : Type} {render : α → String} {c : Char}
    (hr : ∀ x, (render x).data.head? = some c) {l : List α} {s : String}
    (hs : s ∈ Py.sortOn Py.strKey (l.map render)) : s.data.head? = some c := by
  obtain ⟨x, -, rfl⟩ := List.mem_map.1 ((Py.mem_sortOn _).1 hs)
  exact hr x

/-- Equal parts mean the same type and the same three sorted groups, which their first letters
tell apart. -/
theorem eq_of_fpParts_eq {e₁ e₂ : Node} (h : fpParts e₁ = fpParts e₂) :
    (e₁.get "Type").getD "" = (e₂.get "Type").getD "" ∧
      Py.sortOn Py.strKey ((propPairs e₁).map renderProp) =
        Py.sortOn Py.strKey ((propPairs e₂).map renderProp) ∧
      Py.sortOn Py.strKey ((relTargets e₁).map renderRel) =
        Py.sortOn Py.strKey ((relTargets e₂).map renderRel) ∧
      Py.sortOn Py.strKey ((annViews e₁).map renderAnn) =
        Py.sortOn Py.strKey ((annViews e₂).map renderAnn) := by
  obtain ⟨htype, hrest⟩ := List.cons.inj h
  have hP := @head?_of_mem_sortOn _ renderProp 'P' fun _ => rfl
  have hR := @head?_of_mem_sortOn _ renderRel 'R' fun _ => rfl
  have hA := @head?_of_mem_sortOn _ renderAnn 'A' fun _ => rfl
  have hne : ∀ {s : String} {c d : Char}, s.data.head? = some c → c ≠ d → s.data.head? ≠ some d :=
    fun hc hcd hd => hcd (Option.some.inj (hc.symm.trans hd))
  obtain ⟨hPR, hA⟩ := append_inj_of_forall (fun s : String => s.data.head? ≠ some 'A')
    (fun s hs => by
      simp only [List.mem_append] at hs
      rcases hs with (hs | hs) | hs | hs <;>
        first | exact hne (hP hs) (by decide) | exact hne (hR hs) (by decide))
    (fun s hs => by rcases List.mem_append.1 hs with hs | hs <;> exact not_not.2 (hA hs)) hrest
  obtain ⟨hP, hR⟩ := append_inj_of_forall (fun s : String => s.data.head? = some 'P')
    (fun s hs => by rcases List.mem_append.1 hs with hs | hs <;> exact hP hs)
    (fun s hs => by rcases List.mem_append.1 hs with hs | hs <;> exact hne (hR hs) (by decide)) hPR
  exact ⟨htype, hP, hR, hA⟩

theorem FpOk.fpLocalOk {e : Node} : FpOk e → FpLocalOk e
  | .mk h _ => h

theorem FpOk.inline {e : Node} : FpOk e → ∀ i ∈ inlines e, FpOk i
  | .mk _ h => h

theorem FpLocalOk.propPair_readable {e : Node} (h : FpLocalOk e) {x : Item}
    (hx : x ∈ propPairs e) : x ∈ {x : Item | (∃ n ∈ x.1, '=' ∉ n.data) ∧ ∃ v, x.2 = some v} := by
  obtain ⟨⟨n, hn, hn'⟩, v, hv, -⟩ := h.propPair hx
  exact ⟨⟨n, hn, hn'.2⟩, v, hv⟩

theorem FpLocalOk.relTarget_readable {e : Node} (h : FpLocalOk e) {x : Option String × Target}
    (hx : x ∈ relTargets e) :
    x ∈ {x : Option String × Target | (∃ n ∈ x.1, '=' ∉ n.data) ∧ x.2.Readable} := by
  obtain ⟨⟨n, hn, hn'⟩, ⟨name, ext, hx2, hname, hat, -⟩ | ⟨i, -, hx2⟩⟩ := h.relTarget hx <;>
    refine ⟨⟨n, hn, hn'.2⟩, ?_⟩ <;> rw [hx2]
  · exact ⟨hat, fun hp => (hname '(' hp).2.1 rfl⟩
  · trivial

/-- What two inline elements with one fingerprint have in common, one level down: the type (a
missing one read as empty), and up to order the properties, the entries of the relationships
(an inline element by its fingerprint) and the annotations. -/
structure SameContent (e₁ e₂ : Node) : Prop where
  type : (e₁.get "Type").getD "" = (e₂.get "Type").getD ""
  props : (propPairs e₁).Perm (propPairs e₂)
  rels : (relTargets e₁).Perm (relTargets e₂)
  anns : (annViews e₁).Perm (annViews e₂)

/-- **One fingerprint, one content.** -/
theorem sameContent_of_fingerprint_eq {e₁ e₂ : Node} (h₁ : FpOk e₁) (h₂ : FpOk e₂)
    (h : inlineElementFingerprint e₁ = inlineElementFingerprint e₂) : SameContent e₁ e₂ := by
  have hparts : fpParts e₁ = fpParts e₂ :=
    join_injective (List.cons_ne_nil _ _) (List.cons_ne_nil _ _) h₁.guarded h₂.guarded
      (by rw [← inlineElementFingerprint_eq_join, ← inlineElementFingerprint_eq_join, h])
  obtain ⟨htype, hP, hR, hA⟩ := eq_of_fpParts_eq hparts
  have hl₁ := h₁.fpLocalOk
  have hl₂ := h₂.fpLocalOk
  exact ⟨htype,
    perm_of_perm_map renderProp_injOn (fun _ => hl₁.propPair_readable)
      (fun _ => hl₂.propPair_readable) (perm_of_sortOn_eq hP),
    perm_of_perm_map renderRel_injOn (fun _ => hl₁.relTarget_readable)
      (fun _ => hl₂.relTarget_readable) (perm_of_sortOn_eq hR),
    perm_of_perm_map renderAnn_injOn (fun _ hx => (hl₁.annView hx).1.2)
      (fun _ hx => (hl₂.annView hx).1.2) (perm_of_sortOn_eq hA)⟩

/-- Two inline elements alike at every depth: the same content, and inline elements with one
fingerprint alike in turn. -/
inductive Alike : Node → Node → Prop
  | mk {e₁ e₂ : Node} (h : SameContent e₁ e₂)
      (hin : ∀ i₁ ∈ inlines e₁, ∀ i₂ ∈ inlines e₂,
        inlineElementFingerprint i₁ = inlineElementFingerprint i₂ → Alike i₁ i₂) : Alike e₁ e₂

/-- **The fingerprint is faithful when its texts are plain.**  Two inline elements whose
conditions hold at every depth and whose fingerprints are equal are alike at every depth. -/
theorem inlineElementFingerprint_faithful {e₁ e₂ : Node} (h₁ : FpOk e₁) (h₂ : FpOk e₂)
    (h : inlineElementFingerprint e₁ = inlineElementFingerprint e₂) : Alike e₁ e₂ := by
  induction h₁ generalizing e₂ with
  | mk hl hin ih =>
    exact .mk (sameContent_of_fingerprint_eq (.mk hl hin) h₂ h)
      fun i₁ hi₁ i₂ hi₂ hfp => ih i₁ hi₁ (h₂.inline i₂ hi₂) hfp

/-- Two inline elements, one the other with its children reordered, each with a nested inline
element. -/
theorem inlineElementFingerprint_faithful_reordered :
    let inner := Node.elem (nsTag "Element") [("Type", "SqlY")]
      [.elem (nsTag "Property") [("Name", "C"), ("Value", "3")] []]
    let rel := Node.elem (nsTag "Relationship") [("Name", "R")] [.elem (nsTag "Entry") [] [inner]]
    let a := Node.elem (nsTag "Property") [("Name", "A"), ("Value", "1")] []
    let b := Node.elem (nsTag "Property") [("Name", "B"), ("Value", "2")] []
    let e₁ := Node.elem (nsTag "Element") [("Type", "SqlX")] [a, b, rel]
    let e₂ := Node.elem (nsTag "Element") [("Type", "SqlX")] [rel, b, a]
    FpOk e₁ ∧ FpOk e₂ ∧ inlineElementFingerprint e₁ = inlineElementFingerprint e₂ ∧ Alike e₁ e₂ := by
  intro inner rel a b e₁ e₂
  have hinner : FpOk inner := .mk (by decide) fun i hi => absurd hi (List.not_mem_nil i)
  have hok : ∀ e, FpLocalOk e → inlines e = [inner] → FpOk e := fun e hl hin =>
    .mk hl fun i hi => by
      rw [hin, List.mem_singleton] at hi
      exact hi ▸ hinner
  have h₁ : FpOk e₁ := hok e₁ (by decide) rfl
  have h₂ : FpOk e₂ := hok e₂ (by decide) rfl
  have hfp : inlineElementFingerprint e₁ = inlineElementFingerprint e₂ := by decide
  exact ⟨h₁, h₂, hfp, inlineElementFingerprint_faithful h₁ h₂ hfp⟩

/-- A property value holding `|P:` writes the fingerprint of two properties: the elements have
named and valued properties and one fingerprint, but not the same properties. -/
theorem inlineElementFingerprint_separator_collision :
    PropsOk ((Node.elem (nsTag "Element") [("Type", "SqlX")]
      [.elem (nsTag "Property") [("Name", "a"), ("Value", "b|P:c=d")] []]).findall
        (nsTag "Property")) ∧
    PropsOk ((Node.elem (nsTag "Element") [("Type", "SqlX")]
      [.elem (nsTag "Property") [("Name", "a"), ("Value", "b")] [],
        .elem (nsTag "Property") [("Name", "c"), ("Value", "d")] []]).findall
        (nsTag "Property")) ∧
    inlineElementFingerprint (.elem (nsTag "Element") [("Type", "SqlX")]
        [.elem (nsTag "Property") [("Name", "a"), ("Value", "b|P:c=d")] []]) =
      inlineElementFingerprint (.elem (nsTag "Element") [("Type", "SqlX")]
        [.elem (nsTag "Property") [("Name", "a"), ("Value", "b")] [],
          .elem (nsTag "Property") [("Name", "c"), ("Value", "d")] []]) ∧
    ¬(propPairs (.elem (nsTag "Element") [("Type", "SqlX")]
        [.elem (nsTag "Property") [("Name", "a"), ("Value", "b|P:c=d")] []])).Perm
      (propPairs (.elem (nsTag "Element") [("Type", "SqlX")]
        [.elem (nsTag "Property") [("Name", "a"), ("Value", "b")] [],
          .elem (nsTag "Property") [("Name", "c"), ("Value", "d")] []])) := by
  decide

end DacpacCompare
