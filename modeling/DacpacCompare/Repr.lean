import DacpacCompare.Python
import Mathlib.Tactic.Ring

/-!
# `repr`, and why it can be read back

Three of the script's comparisons go through Python's `str` of a container.  The relationship
phase of `diff_element` compares `set(str(e) for e in entries)` for the tuples
`("ref", key)` and `("inline", fingerprint)`; the annotation phase does the same for the tuples
`(type, sorted(props.items()))`; and `inline_element_fingerprint` writes each annotation's
property dict with `f"A:{ann_type}={ann_props}"`, that is with the dict's `repr`.  Whether those
string sets say anything about the values depends on one property of `repr`: it can be read
back.

* `Py.escape` and `Py.repr` are CPython's `unicode_repr`: the quote is `"` exactly when the
  string holds a `'` and no `"`, and each character is written as itself or as one of the escapes
  `\\`, `\q`, `\t`, `\n`, `\r`, `\xhh`, `\uhhhh`, `\Uhhhhhhhh`.
* `Py.unescape` reads one written character back (`unescape_escape`), which makes the body of a
  `repr` a code no character of which is the closing quote.
* `Py.SelfDelimiting f` says that `f a` can be read back off the front of any longer text, the
  rest included.  `repr` and `reprOpt` are self-delimiting, and so are tuples and lists of
  self-delimiting parts (`SelfDelimiting.tuple`, `SelfDelimiting.seq`); every `str` the script
  builds is assembled from these, so every one of them is injective.
-/

set_option autoImplicit false

namespace DacpacCompare
namespace Py

/-! ## Writing -/

/-- A lowercase hexadecimal digit, as in `Py_hexdigits`. -/
def hexDigit (n : Nat) : Char := if n < 10 then Char.ofNat (48 + n) else Char.ofNat (87 + n)

/-- The last `w` hexadecimal digits of `n`, most significant first. -/
def hexDigits : Nat → Nat → List Char
  | 0, _ => []
  | w + 1, n => hexDigit (n / 16 ^ w % 16) :: hexDigits w n

/-- Whether `repr` keeps a character at or above U+0080 as it is.  CPython asks its Unicode
table (`Py_UNICODE_ISPRINTABLE`); below U+0100 this is that table, which escapes the C1
controls, NO-BREAK SPACE and SOFT HYPHEN.  From U+0100 on every character is kept, as CPython
keeps every letter, mark and symbol.  The other spaces, format characters and unassigned code
points that CPython escapes instead change no result here: either way what `repr` writes can
be read back (`unescape_escape`). -/
def isPrintable (c : Char) : Bool := 0xa0 < c.toNat && c.toNat != 0xad

/-- The quote `'`. -/
def squote : Char := Char.ofNat 39

/-- How `repr` writes one character of a string it quotes with `q`. -/
def escape (q c : Char) : List Char :=
  if c = q ∨ c = '\\' then ['\\', c]
  else if c = '\t' then ['\\', 't']
  else if c = '\n' then ['\\', 'n']
  else if c = '\r' then ['\\', 'r']
  else if c.toNat < 0x20 ∨ c.toNat = 0x7f then '\\' :: 'x' :: hexDigits 2 c.toNat
  else if c.toNat < 0x7f ∨ isPrintable c then [c]
  else if c.toNat < 0x100 then '\\' :: 'x' :: hexDigits 2 c.toNat
  else if c.toNat < 0x10000 then '\\' :: 'u' :: hexDigits 4 c.toNat
  else '\\' :: 'U' :: hexDigits 8 c.toNat

/-- The quote `repr` puts around `s`: `"` when `s` holds a `'` and no `"`. -/
def quoteFor (s : List Char) : Char := if squote ∈ s ∧ '"' ∉ s then '"' else squote

/-- `repr(s)` for a string. -/
def repr (s : String) : String :=
  ⟨quoteFor s.data :: s.data.flatMap (escape (quoteFor s.data)) ++ [quoteFor s.data]⟩

/-- `repr(v)` for a value that is a `str` or `None`. -/
def reprOpt : Option String → String
  | none => "None"
  | some s => repr s

/-- `sep.join(parts)` -/
def join (sep : String) : List String → String
  | [] => ""
  | [p] => p
  | p :: q :: ps => p ++ sep ++ join sep (q :: ps)

/-- `repr` of a tuple, list or dict whose items are written as `parts`: the brackets around the
parts joined by `", "`.  (A tuple here always has two items, so there is no `(x,)`.) -/
def seq (o c : String) (parts : List String) : String := o ++ join ", " parts ++ c

/-- `str((a, b))` where `a` and `b` are written as `x` and `y`. -/
def tuple (x y : String) : String := "(" ++ x ++ ", " ++ y ++ ")"

/-! ## Reading back -/

/-- The value of a lowercase hexadecimal digit. -/
def hexVal (c : Char) : Option Nat :=
  if 48 ≤ c.toNat ∧ c.toNat < 58 then some (c.toNat - 48)
  else if 97 ≤ c.toNat ∧ c.toNat < 103 then some (c.toNat - 87) else none

/-- Read `w` hexadecimal digits onto `acc`. -/
def readHex : Nat → Nat → List Char → Option (Nat × List Char)
  | 0, acc, t => some (acc, t)
  | _ + 1, _, [] => none
  | w + 1, acc, c :: t => (hexVal c).bind fun v => readHex w (16 * acc + v) t

/-- Read the character written by a backslash escape whose letter is `k`. -/
def readEscape (k : Char) (t : List Char) : Option (Char × List Char) :=
  if k = 'x' then (readHex 2 0 t).map fun p => (Char.ofNat p.1, p.2)
  else if k = 'u' then (readHex 4 0 t).map fun p => (Char.ofNat p.1, p.2)
  else if k = 'U' then (readHex 8 0 t).map fun p => (Char.ofNat p.1, p.2)
  else if k = 't' then some ('\t', t)
  else if k = 'n' then some ('\n', t)
  else if k = 'r' then some ('\r', t)
  else some (k, t)

/-- Read one character written by `escape`, and what follows it. -/
def unescape : List Char → Option (Char × List Char)
  | [] => none
  | c :: t => if c = '\\' then (match t with | [] => none | k :: t => readEscape k t) else some (c, t)

theorem hexVal_hexDigit {n : Nat} (h : n < 16) : hexVal (hexDigit n) = some n := by
  have : ∀ i : Fin 16, hexVal (hexDigit i) = some i := by decide
  exact this ⟨n, h⟩

theorem readHex_hexDigits (w acc n : Nat) (t : List Char) :
    readHex w acc (hexDigits w n ++ t) = some (acc * 16 ^ w + n % 16 ^ w, t) := by
  induction w generalizing acc with
  | zero => simp [readHex, hexDigits, Nat.mod_one]
  | succ w ih =>
    rw [hexDigits, List.cons_append, readHex, hexVal_hexDigit (Nat.mod_lt _ (by omega)),
      Option.some_bind, ih, Nat.mod_pow_succ]
    congr 2
    ring

/-- A quote `repr` may choose. -/
def IsQuote (q : Char) : Prop := q = squote ∨ q = '"'

theorem isQuote_quoteFor (s : List Char) : IsQuote (quoteFor s) := by
  unfold quoteFor IsQuote; split <;> simp

/-- **`escape` can be undone.** -/
theorem unescape_escape {q : Char} (hq : IsQuote q) (c : Char) (t : List Char) :
    unescape (escape q c ++ t) = some (c, t) := by
  have hlim : c.toNat < 0x110000 := by
    have := c.valid
    simp only [UInt32.isValidChar, Nat.isValidChar] at this
    simp only [Char.toNat]
    omega
  have hread : ∀ {w : Nat}, c.toNat < 16 ^ w →
      (readHex w 0 (hexDigits w c.toNat ++ t)).map (fun p => (Char.ofNat p.1, p.2)) = some (c, t) :=
    fun hw => by
      rw [readHex_hexDigits, Nat.mod_eq_of_lt hw]
      simp
  have hite : ∀ {p : Prop} [Decidable p] {l₁ l₂ : List Char},
      (p → unescape (l₁ ++ t) = some (c, t)) → (¬p → unescape (l₂ ++ t) = some (c, t)) →
        unescape ((if p then l₁ else l₂) ++ t) = some (c, t) :=
    fun h₁ h₂ => iteInduction (motive := fun l => unescape (l ++ t) = some (c, t)) h₁ h₂
  unfold escape
  refine hite (fun h₁ => ?_) fun h₁ => hite (fun h₂ => ?_) fun _ => hite (fun h₃ => ?_) fun _ =>
    hite (fun h₄ => ?_) fun _ => hite (fun h₅ => ?_) fun h₅ => hite (fun h₆ => ?_) fun h₆ =>
    hite (fun h₇ => ?_) fun h₇ => hite (fun h₈ => ?_) fun h₈ => ?_
  · rcases hq with rfl | rfl <;> rcases h₁ with rfl | rfl <;> rfl
  · subst h₂; rfl
  · subst h₃; rfl
  · subst h₄; rfl
  · simpa [unescape, readEscape] using hread (w := 2) (by omega)
  · have : c ≠ '\\' := fun h => h₁ (.inr h)
    simp [unescape, this]
  · simpa [unescape, readEscape] using hread (w := 2) (by omega)
  · simpa [unescape, readEscape] using hread (w := 4) (by omega)
  · simpa [unescape, readEscape] using hread (w := 8) (by norm_num; omega)

/-- What `escape` writes is never empty and never starts with the closing quote. -/
theorem escape_eq_cons {q : Char} (hq : IsQuote q) (c : Char) :
    ∃ h t, escape q c = h :: t ∧ h ≠ q := by
  have hbs : ('\\' : Char) ≠ q := by rcases hq with rfl | rfl <;> decide
  have hite : ∀ {p : Prop} [Decidable p] {l₁ l₂ : List Char},
      (p → ∃ h t, l₁ = h :: t ∧ h ≠ q) → (¬p → ∃ h t, l₂ = h :: t ∧ h ≠ q) →
        ∃ h t, (if p then l₁ else l₂) = h :: t ∧ h ≠ q :=
    fun h₁ h₂ => iteInduction (motive := fun l => ∃ h t, l = h :: t ∧ h ≠ q) h₁ h₂
  unfold escape
  exact hite (fun _ => ⟨_, _, rfl, hbs⟩) fun h₁ => hite (fun _ => ⟨_, _, rfl, hbs⟩) fun _ =>
    hite (fun _ => ⟨_, _, rfl, hbs⟩) fun _ => hite (fun _ => ⟨_, _, rfl, hbs⟩) fun _ =>
    hite (fun _ => ⟨_, _, rfl, hbs⟩) fun _ => hite (fun _ => ⟨c, [], rfl, fun h => h₁ (.inl h)⟩)
    fun _ => hite (fun _ => ⟨_, _, rfl, hbs⟩) fun _ => hite (fun _ => ⟨_, _, rfl, hbs⟩) fun _ =>
    ⟨_, _, rfl, hbs⟩

/-- The body of a `repr` ends at its first unescaped quote. -/
theorem escaped_append_inj {q : Char} (hq : IsQuote q) :
    ∀ {s s' r r' : List Char}, s.flatMap (escape q) ++ q :: r = s'.flatMap (escape q) ++ q :: r' →
      s = s' ∧ r = r'
  | [], [], r, r', h => by simpa using h
  | [], c :: s', r, r', h => by
    obtain ⟨hd, tl, he, hne⟩ := escape_eq_cons hq c
    simp only [List.flatMap_nil, List.nil_append, List.flatMap_cons, he, List.cons_append,
      List.cons.injEq] at h
    exact absurd h.1.symm hne
  | c :: s, [], r, r', h => by
    obtain ⟨hd, tl, he, hne⟩ := escape_eq_cons hq c
    simp only [List.flatMap_nil, List.nil_append, List.flatMap_cons, he, List.cons_append,
      List.cons.injEq] at h
    exact absurd h.1 hne
  | c :: s, c' :: s', r, r', h => by
    simp only [List.flatMap_cons, List.append_assoc] at h
    have hc := congrArg unescape h
    rw [unescape_escape hq, unescape_escape hq, Option.some.injEq, Prod.mk.injEq] at hc
    obtain ⟨rfl, hrest⟩ := hc
    obtain ⟨rfl, rfl⟩ := escaped_append_inj hq hrest
    exact ⟨rfl, rfl⟩

/-! ## Self-delimiting encodings -/

/-- An encoding that can be read back off the front of any longer text: both the value and what
follows it are determined. -/
def SelfDelimiting {α : Type} (f : α → String) : Prop :=
  ∀ ⦃a b : α⦄ ⦃x y : List Char⦄, (f a).data ++ x = (f b).data ++ y → a = b ∧ x = y

section SelfDelimiting

variable {α β : Type} {f : α → String} {g : β → String}

theorem SelfDelimiting.injective (hf : SelfDelimiting f) : Function.Injective f :=
  fun a b h => (hf (x := []) (y := []) (by rw [h])).1

/-- **`repr` is self-delimiting.** -/
theorem selfDelimiting_repr : SelfDelimiting repr := by
  intro a b x y h
  simp only [repr, List.cons_append, List.append_assoc, List.singleton_append,
    List.cons.injEq] at h
  obtain ⟨hq, h⟩ := h
  rw [← hq] at h
  obtain ⟨hab, rfl⟩ := escaped_append_inj (isQuote_quoteFor _) h
  exact ⟨String.ext hab, rfl⟩

theorem selfDelimiting_reprOpt : SelfDelimiting reprOpt := by
  have hN : ∀ (s : String) (x y : List Char), (repr s).data ++ x ≠ "None".data ++ y := by
    intro s x y h
    have := congrArg List.head? h
    simp only [repr, List.cons_append, List.head?_cons, Option.some.injEq] at this
    rcases isQuote_quoteFor s.data with h' | h' <;> rw [h'] at this <;> simp [squote] at this
  rintro (_ | a) (_ | b) x y h
  · exact ⟨rfl, by simpa [reprOpt] using h⟩
  · exact absurd h.symm (hN b y x)
  · exact absurd h (hN a x y)
  · obtain ⟨rfl, rfl⟩ := selfDelimiting_repr h
    exact ⟨rfl, rfl⟩

/-- A fixed text around a self-delimiting part. -/
theorem SelfDelimiting.wrap (hf : SelfDelimiting f) (o c : String) :
    SelfDelimiting fun a => o ++ f a ++ c := by
  intro a b x y h
  simp only [String.data_append, List.append_assoc, List.append_cancel_left_eq] at h
  obtain ⟨rfl, h₂⟩ := hf h
  exact ⟨rfl, List.append_cancel_left h₂⟩

/-- Two self-delimiting parts with a fixed text between them. -/
theorem SelfDelimiting.pair (hf : SelfDelimiting f) (hg : SelfDelimiting g) (sep : String) :
    SelfDelimiting fun p : α × β => f p.1 ++ sep ++ g p.2 := by
  rintro ⟨a, b⟩ ⟨a', b'⟩ x y h
  simp only [String.data_append, List.append_assoc] at h
  obtain ⟨rfl, h₂⟩ := hf h
  obtain ⟨rfl, rfl⟩ := hg (List.append_cancel_left h₂)
  exact ⟨rfl, rfl⟩

theorem SelfDelimiting.tuple (hf : SelfDelimiting f) (hg : SelfDelimiting g) :
    SelfDelimiting fun p : α × β => tuple (f p.1) (g p.2) := by
  have := ((hf.pair hg ", ").wrap "(" ")")
  simpa only [Py.tuple, String.append_assoc] using this

theorem data_join_cons_cons (sep p q : String) (ps : List String) :
    (join sep (p :: q :: ps)).data = p.data ++ sep.data ++ (join sep (q :: ps)).data := by
  simp [join]

/-- A list of self-delimiting items in brackets, provided no item starts with the closing
bracket or with the `,` that separates items. -/
theorem SelfDelimiting.seq (hf : SelfDelimiting f) (o c : String) {c₀ : Char}
    (hc : c.data = [c₀]) (hsep : c₀ ≠ ',')
    (hstart : ∀ a, ∃ h t, (f a).data = h :: t ∧ h ≠ c₀) :
    SelfDelimiting fun l : List α => seq o c (l.map f) := by
  suffices key : ∀ (l l' : List α) (x y : List Char),
      (join ", " (l.map f)).data ++ c₀ :: x = (join ", " (l'.map f)).data ++ c₀ :: y →
      l = l' ∧ x = y by
    intro l l' x y h
    simp only [Py.seq, String.data_append, hc, List.append_assoc, List.append_cancel_left_eq,
      List.singleton_append] at h
    exact key l l' x y h
  intro l
  induction l with
  | nil =>
    rintro (_ | ⟨b, l'⟩) x y h
    · simpa [join] using h
    · obtain ⟨hd, tl, hb, hne⟩ := hstart b
      cases l' <;> simp [join, hb] at h <;> exact absurd h.1.symm hne
  | cons a l ih =>
    rintro (_ | ⟨b, l'⟩) x y h
    · obtain ⟨hd, tl, ha, hne⟩ := hstart a
      cases l <;> simp [join, ha] at h <;> exact absurd h.1 hne
    · cases l with
      | nil =>
        cases l' with
        | nil =>
          obtain ⟨rfl, h⟩ := hf (by simpa [join] using h)
          exact ⟨rfl, by simpa using h⟩
        | cons b' l' =>
          simp only [List.map_cons, List.map_nil, join, String.data_append,
            List.append_assoc] at h
          obtain ⟨-, h⟩ := hf h
          simp at h
          exact absurd h.1 hsep
      | cons a' l =>
        cases l' with
        | nil =>
          simp only [List.map_cons, List.map_nil, join, String.data_append,
            List.append_assoc] at h
          obtain ⟨-, h⟩ := hf h
          simp at h
          exact absurd h.1.symm hsep
        | cons b' l' =>
          simp only [List.map_cons, data_join_cons_cons, List.append_assoc] at h
          obtain ⟨rfl, h⟩ := hf h
          obtain ⟨h₁, rfl⟩ := ih (b' :: l') x y (by simpa using h)
          exact ⟨by rw [h₁], rfl⟩

end SelfDelimiting

end Py
end DacpacCompare
