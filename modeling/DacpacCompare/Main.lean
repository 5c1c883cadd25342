import DacpacCompare.Model.Invariance

/-!
# `main`: from two paths to an exit code

`main` takes two paths.  A path that is a directory is compared as it is; any other path is
opened as a zip archive and extracted by `extract_dacpac` into `tmpdir/<basename>`.  The two
directories then go through the per-file comparisons and `compare_model_xml`, and the exit code
is `1` when anything differs.  An exception — an archive that is not one, a file that does not
parse — ends the run with Python's exit code for an uncaught exception, which is also `1`.

The file system is a list of `(path, entry)` pairs, the first pair for a path being the current
one, so that writing a file is putting a pair in front.  A file is described by what the script
can make of it: its lines (`none` when its bytes do not decode as text), its parse as XML (`none`
when ElementTree raises), and its members when it is a zip archive.  `zipfile` sanitises member
names; the members here are the names it writes to, and the directories `extractall` creates for
a name with a `/` in it are left out.

An exit code of `0` says that the model comparison ran, on a `model.xml` found and parsed on
each side, and found nothing, and that every other comparison was `"ok"`; conversely, those
conditions (`DirsAgree`) give `0`.  They are symmetric, so two directories give the same exit
code in either order, and a readable directory compared with itself exits `0`.  All of this is
about the directories the arguments resolved to, and extraction is where the two sides can
meet: two archives with the same base name are extracted into the same directory, the second
over the first.
-/

set_option autoImplicit false

namespace DacpacCompare

/-- What the script can read from a file. -/
structure Contents where
  /-- `f.readlines()` on the file opened in text mode; `none` when its bytes do not decode in the
  locale's encoding, where reading raises `UnicodeDecodeError`. -/
  lines : Option (List String)
  /-- `ET.parse(path).getroot()`; `none` when ElementTree raises. -/
  xml : Option Node

/-- An entry of the file system. -/
inductive FsEntry
  | dir
  /-- A file, with its members when it is a zip archive. -/
  | file (contents : Contents) (members : Option (List (String × Contents)))

/-- The file system: the first pair for a path is its current entry. -/
abbrev Fs := List (String × FsEntry)

namespace Fs

/-- The entry at `path`. -/
def entry (fs : Fs) (path : String) : Option FsEntry := fs.lookup path

/-- `os.path.isdir(path)` -/
def isDir (fs : Fs) (path : String) : Bool :=
  match fs.entry path with
  | some .dir => true
  | _ => false

/-- `os.path.isfile(path)` -/
def isFile (fs : Fs) (path : String) : Bool :=
  match fs.entry path with
  | some (.file _ _) => true
  | _ => false

end Fs

/-! ## Paths -/

/-- `os.path.basename(p)`: what follows the last `/`. -/
def basename (p : String) : String := ⟨(p.data.reverse.takeWhile fun c => c ≠ '/').reverse⟩

/-- `os.path.join(a, b)` -/
def pathJoin (a b : String) : String :=
  if b.data.head? = some '/' then b
  else if a = "" ∨ a.data.getLast? = some '/' then a ++ b
  else a ++ "/" ++ b

/-- The name of `p` inside the directory `dir`, when `p` is directly in it. -/
def childName (dir p : String) : Option String :=
  match (pathJoin dir "").data.isPrefixOf? p.data with
  | some rest => if rest ≠ [] ∧ '/' ∉ rest then some ⟨rest⟩ else none
  | none => none

/-- `list_files(directory)`: the names of the files directly in the directory. -/
def listFiles (fs : Fs) (dir : String) : List String :=
  if fs.isDir dir then
    ((fs.map Prod.fst).filterMap (childName dir)).dedup.filter fun n => fs.isFile (pathJoin dir n)
  else []

theorem exists_file_of_mem_listFiles {fs : Fs} {d n : String} (h : n ∈ listFiles fs d) :
    ∃ c m, fs.entry (pathJoin d n) = some (.file c m) := by
  unfold listFiles at h
  split_ifs at h
  · have hfile := (List.mem_filter.1 h).2
    unfold Fs.isFile at hfile
    split at hfile
    · exact ⟨_, _, ‹_›⟩
    · cases hfile
  · cases h

/-! ## Extraction -/

/-- `extract_dacpac(path, tmpdir)`: the file system after `extractall` and the directory
extracted to; `none` where `zipfile` raises. -/
def extractDacpac (fs : Fs) (path tmpdir : String) : Option (Fs × String) :=
  let extractTo := pathJoin tmpdir (basename path)
  match fs.entry path with
  | some (.file _ (some members)) =>
    some (members.reverse.map (fun m => (pathJoin extractTo m.1, .file m.2 none)) ++
      (extractTo, .dir) :: fs, extractTo)
  | _ => none

/-- How `main` turns an argument into a directory. -/
def resolveDir (fs : Fs) (tmpdir path : String) : Option (Fs × String) :=
  if fs.isDir path then some (fs, path) else extractDacpac fs path tmpdir

/-! ## The per-file comparisons -/

/-- The lines of the file at an existing path; `none` where `open` or the decoding raises. -/
def readLines : FsEntry → Option (List String)
  | .file c _ => c.lines
  | .dir => none

/-- `compare_text_files(path_a, path_b)`: as `compareSimpleXml`, the status only. -/
def compareTextFiles (a b : Option FsEntry) : Option (Option Status) :=
  match a, b with
  | none, none => some none
  | none, some _ => some (some .missingInRust)
  | some _, none => some (some .missingInDotnet)
  | some ea, some eb => do
    let la ← readLines ea
    let lb ← readLines eb
    pure (some (if la.map Py.rstrip = lb.map Py.rstrip then .ok else .different))

/-- What ElementTree makes of the file at a path: `none` when it does not exist, `some none`
when parsing raises. -/
def parseEntry : Option FsEntry → Option (Option Node)
  | none => none
  | some (.file c _) => some c.xml
  | some .dir => some none

/-- The files `main` compares by name. -/
def knownFiles : List String :=
  ["Origin.xml", "DacMetadata.xml", "[Content_Types].xml", "predeploy.sql", "postdeploy.sql",
    "model.xml"]

/-- Record a comparison's status under `label` unless it is `None`. -/
def recordStatus (label : String) (r : Option (Option Status)) (acc : List (String × Status)) :
    Option (List (String × Status)) :=
  r.map fun s => match s with
    | some st => acc ++ [(label, st)]
    | none => acc

/-- `file_results` as `main` fills it before the model, in the order it writes it. -/
def fileResults (fs : Fs) (dirA dirB : String) : Option (List (String × Status)) := do
  let entryIn (d n : String) := fs.entry (pathJoin d n)
  let acc := [("Origin.xml", Status.ok)]
  let acc ← recordStatus "DacMetadata.xml"
    (compareSimpleXml (parseEntry (entryIn dirA "DacMetadata.xml")) (parseEntry (entryIn dirB "DacMetadata.xml"))) acc
  let acc ← recordStatus "[Content_Types].xml"
    (compareSimpleXml (parseEntry (entryIn dirA "[Content_Types].xml"))
      (parseEntry (entryIn dirB "[Content_Types].xml"))) acc
  let acc ← recordStatus "predeploy.sql"
    (compareTextFiles (entryIn dirA "predeploy.sql") (entryIn dirB "predeploy.sql")) acc
  let acc ← recordStatus "postdeploy.sql"
    (compareTextFiles (entryIn dirA "postdeploy.sql") (entryIn dirB "postdeploy.sql")) acc
  let filesA := listFiles fs dirA
  let filesB := listFiles fs dirB
  let onlyRust := filesA.filter fun n => n ∉ filesB ∧ n ∉ knownFiles
  let onlyDotnet := filesB.filter fun n => n ∉ filesA ∧ n ∉ knownFiles
  let both := Py.sortOn Py.strKey (filesA.filter fun n => n ∈ filesB ∧ n ∉ knownFiles)
  let acc := if onlyRust ≠ [] then acc ++ [("(unexpected files)", Status.different)] else acc
  let acc := if onlyDotnet ≠ [] then
      acc ++ [(if "(unexpected files)" ∈ acc.map Prod.fst then "(unexpected files in dotnet)"
        else "(unexpected files)", Status.different)]
    else acc
  both.foldlM (fun acc n => (compareTextFiles (entryIn dirA n) (entryIn dirB n)).map fun s =>
      match s with
      | some st => if st ≠ .ok then acc ++ [(n, st)] else acc
      | none => acc) acc

/-- The model comparison `main` runs: `none` where it raises, and otherwise either the results
of `compare_model_xml` or the status recorded for a missing `model.xml`. -/
def modelStep (fs : Fs) (dirA dirB : String) : Option (Option ModelResults × Option Status) :=
  match fs.entry (pathJoin dirA "model.xml"), fs.entry (pathJoin dirB "model.xml") with
  | some ea, some eb => do
    let ra ← (parseEntry (some ea)).join
    let rb ← (parseEntry (some eb)).join
    let r ← compareModelXml ra rb
    pure (some r, none)
  | none, _ => some (none, some .missingInRust)
  | some _, none => some (none, some .missingInDotnet)

/-- `has_diffs` -/
def hasDiffs (files : Py.Dict String Status) (model : Option ModelResults) : Bool :=
  (files.items.any fun p => p.1 ≠ "Origin.xml" ∧ p.2 ≠ .ok) ||
    match model with
    | some r => r.header.1 ≠ .ok ∨ r.elements.missingInRust ≠ [] ∨ r.elements.extraInRust ≠ [] ∨
        r.elements.differences ≠ []
    | none => false

/-- The comparison of two directories: `has_diffs`, or `none` where the script raises. -/
def verdict (fs : Fs) (dirA dirB : String) : Option Bool := do
  let files ← fileResults fs dirA dirB
  let (model, modelStatus) ← modelStep fs dirA dirB
  let files := files ++ (modelStatus.map fun s => ("model.xml", s)).toList
  pure (hasDiffs (Py.Dict.ofList files) model)

/-- `main`'s exit code for the arguments `pathA` (rust) and `pathB` (dotnet), with `tmpdir` the
fresh directory of `tempfile.TemporaryDirectory()`. -/
def mainExitCode (fs : Fs) (tmpdir pathA pathB : String) : Nat :=
  match (do
    let (fs, dirA) ← resolveDir fs tmpdir pathA
    let (fs, dirB) ← resolveDir fs tmpdir pathB
    verdict fs dirA dirB) with
  | some false => 0
  | _ => 1

/-! ## What the exit code says -/

/-- `has_diffs` is false exactly when every recorded status but `Origin.xml`'s is `"ok"` and the
model comparison, if it ran, found nothing. -/
theorem hasDiffs_eq_false {files : Py.Dict String Status} {model : Option ModelResults} :
    hasDiffs files model = false ↔ (∀ p ∈ files.items, p.1 ≠ "Origin.xml" → p.2 = .ok) ∧
      ∀ r, model = some r → r.header.1 = .ok ∧ r.elements.clean := by
  cases model <;> simp [hasDiffs, ElementResults.clean]

theorem verdict_eq_some {fs : Fs} {dirA dirB : String} {b : Bool} :
    verdict fs dirA dirB = some b ↔ ∃ files model status, fileResults fs dirA dirB = some files ∧
      modelStep fs dirA dirB = some (model, status) ∧
      hasDiffs (Py.Dict.ofList (files ++ (status.map fun s => ("model.xml", s)).toList)) model =
        b := by
  simp only [verdict, Option.bind_eq_bind, Option.bind_eq_some, Option.pure_def,
    Option.some.injEq, Prod.exists, exists_and_left]

/-- A verdict of "no differences": `model.xml` is on both sides and parses, and
`compare_model_xml` found nothing. -/
theorem verdict_eq_some_false {fs : Fs} {dirA dirB : String}
    (h : verdict fs dirA dirB = some false) :
    ∃ A B r, parseEntry (fs.entry (pathJoin dirA "model.xml")) = some (some A) ∧
      parseEntry (fs.entry (pathJoin dirB "model.xml")) = some (some B) ∧
      compareModelXml A B = some r ∧ r.header.1 = .ok ∧ r.elements.clean := by
  obtain ⟨files, model, status, -, hstep, hd⟩ := verdict_eq_some.1 h
  obtain ⟨hfiles, hmodel⟩ := hasDiffs_eq_false.1 hd
  unfold modelStep at hstep
  split at hstep
  · rename_i ea eb hea heb
    simp only [Option.bind_eq_bind, Option.bind_eq_some, Option.pure_def, Option.some.injEq,
      Prod.mk.injEq, Option.join_eq_some] at hstep
    obtain ⟨A, hA, B, hB, r, hr, rfl, rfl⟩ := hstep
    exact ⟨A, B, r, hea ▸ hA, heb ▸ hB, hr, hmodel r rfl⟩
  -- a missing `model.xml` is recorded last, as a status that is not `"ok"`
  all_goals
    cases hstep
    exact absurd (hfiles _ (Py.Dict.mem_items_ofList_concat _ _ _) (by decide)) (by decide)

/-- An exit code of `0`: both arguments resolved to directories, and their comparison found
nothing. -/
theorem mainExitCode_eq_zero_verdict {fs : Fs} {tmpdir pathA pathB : String}
    (h : mainExitCode fs tmpdir pathA pathB = 0) :
    ∃ fsA dirA fsB dirB, resolveDir fs tmpdir pathA = some (fsA, dirA) ∧
      resolveDir fsA tmpdir pathB = some (fsB, dirB) ∧ verdict fsB dirA dirB = some false := by
  unfold mainExitCode at h
  split at h
  · rename_i hv
    simpa only [Option.bind_eq_bind, Option.bind_eq_some, Prod.exists, exists_and_left] using hv
  · cases h

/-- **Exit code `0` means a clean model comparison.**  When `main` exits `0`, both arguments
resolved to directories, `model.xml` is in both and parses, and `compare_model_xml` reported an
identical header and no missing, extra or different element. -/
theorem mainExitCode_eq_zero {fs : Fs} {tmpdir pathA pathB : String}
    (h : mainExitCode fs tmpdir pathA pathB = 0) :
    ∃ fsA dirA fsB dirB A B r, resolveDir fs tmpdir pathA = some (fsA, dirA) ∧
      resolveDir fsA tmpdir pathB = some (fsB, dirB) ∧
      parseEntry (fsB.entry (pathJoin dirA "model.xml")) = some (some A) ∧
      parseEntry (fsB.entry (pathJoin dirB "model.xml")) = some (some B) ∧
      compareModelXml A B = some r ∧ r.header.1 = .ok ∧ r.elements.clean := by
  obtain ⟨fsA, dirA, fsB, dirB, hA, hB, hv⟩ := mainExitCode_eq_zero_verdict h
  obtain ⟨A, B, r, hpa, hpb, hr, hhead, hclean⟩ := verdict_eq_some_false hv
  exact ⟨fsA, dirA, fsB, dirB, A, B, r, hA, hB, hpa, hpb, hr, hhead, hclean⟩

theorem mainExitCode_eq_zero_one_table :
    let fs : Fs := [("db", .dir), ("db/model.xml", .file ⟨some [], some (.elem (nsTag "DataSchemaModel") []
      [.elem (nsTag "Model") [] [.elem (nsTag "Element") [("Type", "SqlTable"), ("Name", "[dbo].[T]")]
        [.elem (nsTag "Property") [("Name", "IsAnsiNullsOn"), ("Value", "True")] []]]])⟩ none)]
    mainExitCode fs "/tmp/w" "db" "db" = 0 ∧
      ∃ fsA dirA fsB dirB A B r, resolveDir fs "/tmp/w" "db" = some (fsA, dirA) ∧
        resolveDir fsA "/tmp/w" "db" = some (fsB, dirB) ∧
        parseEntry (fsB.entry (pathJoin dirA "model.xml")) = some (some A) ∧
        parseEntry (fsB.entry (pathJoin dirB "model.xml")) = some (some B) ∧
        compareModelXml A B = some r ∧ r.header.1 = .ok ∧ r.elements.clean := by
  intro fs
  have h : mainExitCode fs "/tmp/w" "db" "db" = 0 := by decide
  exact ⟨h, mainExitCode_eq_zero h⟩

/-! ### The other files

`file_results` is a dict, so of two entries with one label only the last counts.  The entries
that can be `"ok"` are those of `Origin.xml` and of the four files compared by name, one each,
and every later entry is not `"ok"` and has a label none of them has: so an entry that is not
`"ok"` is never hidden, and an exit code of `0` says that every comparison `main` made of the
other files was `"ok"`. -/

theorem recordStatus_eq_some {label : String} {r : Option (Option Status)}
    {acc acc' : List (String × Status)} :
    recordStatus label r acc = some acc' ↔
      ∃ x, r = some x ∧ acc' = acc ++ (x.map fun st => (label, st)).toList := by
  rcases r with _ | _ | st <;> simp [recordStatus, eq_comm]

/-- The loop over the unknown files of both sides adds, after what it is given, a pair for each
file whose comparison is neither `"ok"` nor `None`, and nothing else. -/
theorem foldlM_compare_eq_some {g : String → Option (Option Status)} :
    ∀ {l : List String} {acc res : List (String × Status)},
      l.foldlM (fun acc n => (g n).map fun s => match s with
        | some st => if st ≠ .ok then acc ++ [(n, st)] else acc
        | none => acc) acc = some res →
      ∃ ext, res = acc ++ ext ∧ (∀ p ∈ ext, p.1 ∈ l ∧ p.2 ≠ .ok) ∧
        ∀ n ∈ l, ∃ x, g n = some x ∧ ∀ st, x = some st → st ≠ .ok → (n, st) ∈ ext
  | [], acc, res, h => ⟨[], by simpa using h.symm, by simp, by simp⟩
  | n :: l, acc, res, h => by
    rw [List.foldlM_cons] at h
    obtain ⟨acc', hstep, h⟩ := Option.bind_eq_some.1 h
    obtain ⟨ext, rfl, hext, hall⟩ := foldlM_compare_eq_some h
    obtain ⟨x, hx, rfl⟩ := Option.map_eq_some'.1 hstep
    have hmem : ∀ {e : List (String × Status)}, (∀ p ∈ e, p.1 ∈ l ∧ p.2 ≠ .ok) →
        ∀ p ∈ e, p.1 ∈ n :: l ∧ p.2 ≠ .ok := fun he p hp => ⟨.tail _ (he p hp).1, (he p hp).2⟩
    rcases x with _ | st
    · refine ⟨ext, rfl, hmem hext, fun m hm => ?_⟩
      rcases List.mem_cons.1 hm with rfl | hm
      · exact ⟨none, hx, by simp⟩
      · exact hall m hm
    · by_cases hst : st = .ok
      · refine ⟨ext, by simp [hst], hmem hext, fun m hm => ?_⟩
        rcases List.mem_cons.1 hm with rfl | hm
        · exact ⟨some st, hx, fun st' h' hne => absurd (Option.some.inj h' ▸ hst) hne⟩
        · exact hall m hm
      · refine ⟨(n, st) :: ext, by simp [hst], ?_, fun m hm => ?_⟩
        · rintro p (_ | ⟨_, hp⟩)
          exacts [⟨.head _, hst⟩, hmem hext p hp]
        · rcases List.mem_cons.1 hm with rfl | hm
          · exact ⟨some st, hx, fun st' h' _ => Option.some.inj h' ▸ .head _⟩
          · obtain ⟨x, hx', hin⟩ := hall m hm
            exact ⟨x, hx', fun st' h' hne => .tail _ (hin st' h' hne)⟩



/-- The entries for the unknown files on one side only: after what is recorded so far, none, one
or two, each `"different"` and under a label no known file has. -/
theorem unexpected_eq_append (acc : List (String × Status)) (onlyRust onlyDotnet : List String) :
    ∃ u, (if onlyDotnet ≠ [] then
        (if onlyRust ≠ [] then acc ++ [("(unexpected files)", Status.different)] else acc) ++
          [(if "(unexpected files)" ∈ (if onlyRust ≠ [] then
              acc ++ [("(unexpected files)", Status.different)] else acc).map Prod.fst
            then "(unexpected files in dotnet)" else "(unexpected files)", Status.different)]
      else if onlyRust ≠ [] then acc ++ [("(unexpected files)", Status.different)] else acc) =
        acc ++ u ∧ (∀ p ∈ u, p.1 ∉ knownFiles ∧ p.2 ≠ .ok) ∧
      (onlyRust ≠ [] → u ≠ []) ∧ (onlyDotnet ≠ [] → u ≠ []) := by
  by_cases hr : onlyRust = [] <;> by_cases hd : onlyDotnet = []
  · exact ⟨[], by simp [hr, hd], by simp, by simp [hr], by simp [hd]⟩
  · subst hr
    refine ⟨[(if "(unexpected files)" ∈ acc.map Prod.fst then "(unexpected files in dotnet)"
      else "(unexpected files)", .different)], by simp [hd], ?_, by simp, by simp⟩
    simp only [List.mem_singleton, forall_eq, ne_eq, reduceCtorEq, not_false_eq_true, and_true]
    split_ifs <;> decide
  · exact ⟨[("(unexpected files)", .different)], by simp [hr, hd], by decide, by simp, by simp [hd]⟩
  · exact ⟨[("(unexpected files)", .different), ("(unexpected files in dotnet)", .different)],
      by simp [hr, hd], by decide, by simp, by simp⟩

/-- The labels of one optional record. -/
theorem map_fst_record_sublist (label : String) (x : Option Status) :
    ((x.map fun st => (label, st)).toList.map Prod.fst).Sublist [label] := by
  cases x <;> simp

/-- **What `file_results` holds before the model.**  A head of at most one entry per name compared
by name, `Origin.xml` first, and a tail of entries that are not `"ok"`, under labels no known file
has: the unexpected files on one side only, and the files of both sides that compare otherwise
than `"ok"`. -/
theorem fileResults_eq_some {fs : Fs} {dirA dirB : String} {files : List (String × Status)}
    (h : fileResults fs dirA dirB = some files) :
    ∃ head tail, files = head ++ tail ∧
      (head.map Prod.fst).Sublist
        ["Origin.xml", "DacMetadata.xml", "[Content_Types].xml", "predeploy.sql", "postdeploy.sql"] ∧
      (∀ p ∈ tail, p.1 ∉ knownFiles ∧ p.2 ≠ .ok) ∧
      (∀ n ∈ ["DacMetadata.xml", "[Content_Types].xml"], ∃ x,
        compareSimpleXml (parseEntry (fs.entry (pathJoin dirA n)))
          (parseEntry (fs.entry (pathJoin dirB n))) = some x ∧ ∀ st, x = some st → (n, st) ∈ head) ∧
      (∀ n ∈ ["predeploy.sql", "postdeploy.sql"], ∃ x,
        compareTextFiles (fs.entry (pathJoin dirA n)) (fs.entry (pathJoin dirB n)) = some x ∧
          ∀ st, x = some st → (n, st) ∈ head) ∧
      (((listFiles fs dirA).filter fun n => n ∉ listFiles fs dirB ∧ n ∉ knownFiles) ≠ [] →
        tail ≠ []) ∧
      (((listFiles fs dirB).filter fun n => n ∉ listFiles fs dirA ∧ n ∉ knownFiles) ≠ [] →
        tail ≠ []) ∧
      ∀ n ∈ listFiles fs dirA, n ∈ listFiles fs dirB → n ∉ knownFiles → ∃ x,
        compareTextFiles (fs.entry (pathJoin dirA n)) (fs.entry (pathJoin dirB n)) = some x ∧
          ∀ st, x = some st → st ≠ .ok → (n, st) ∈ tail := by
  simp only [fileResults, Option.bind_eq_bind, Option.bind_eq_some] at h
  obtain ⟨a₁, h₁, a₂, h₂, a₃, h₃, a₄, h₄, h⟩ := h
  obtain ⟨x₁, hx₁, rfl⟩ := recordStatus_eq_some.1 h₁
  obtain ⟨x₂, hx₂, rfl⟩ := recordStatus_eq_some.1 h₂
  obtain ⟨x₃, hx₃, rfl⟩ := recordStatus_eq_some.1 h₃
  obtain ⟨x₄, hx₄, rfl⟩ := recordStatus_eq_some.1 h₄
  obtain ⟨u, hu, hut, hur, hud⟩ := unexpected_eq_append _
    ((listFiles fs dirA).filter fun n => n ∉ listFiles fs dirB ∧ n ∉ knownFiles)
    ((listFiles fs dirB).filter fun n => n ∉ listFiles fs dirA ∧ n ∉ knownFiles)
  rw [hu] at h
  obtain ⟨ext, rfl, hext, hall⟩ := foldlM_compare_eq_some h
  refine ⟨_, u ++ ext, List.append_assoc _ _ _, ?_, ?_, ?_, ?_, fun hr => by simp [hur hr],
    fun hd => by simp [hud hd], fun n hnA hnB hnk => ?_⟩
  · simpa using ((((List.Sublist.refl ["Origin.xml"]).append (map_fst_record_sublist _ x₁)).append
      (map_fst_record_sublist _ x₂)).append (map_fst_record_sublist _ x₃)).append
      (map_fst_record_sublist _ x₄)
  · intro p hp
    rcases List.mem_append.1 hp with hp | hp
    · exact hut p hp
    · obtain ⟨hmem, hne⟩ := hext p hp
      exact ⟨(of_decide_eq_true (List.mem_filter.1 ((Py.mem_sortOn _).1 hmem)).2).2, hne⟩
  · simp only [List.mem_cons, List.mem_singleton, List.not_mem_nil, or_false]
    rintro n (rfl | rfl)
    · exact ⟨x₁, hx₁, fun st hst => by subst hst; simp⟩
    · exact ⟨x₂, hx₂, fun st hst => by subst hst; simp⟩
  · simp only [List.mem_cons, List.mem_singleton, List.not_mem_nil, or_false]
    rintro n (rfl | rfl)
    · exact ⟨x₃, hx₃, fun st hst => by subst hst; simp⟩
    · exact ⟨x₄, hx₄, fun st hst => by subst hst; simp⟩
  · obtain ⟨x, hx, hin⟩ := hall n ((Py.mem_sortOn _).2 (List.mem_filter.2 ⟨hnA, by simp [hnB, hnk]⟩))
    exact ⟨x, hx, fun st h hne => List.mem_append_right _ (hin st h hne)⟩

/-- The status `main` records for a missing `model.xml` is never `"ok"`. -/
theorem modelStep_status_ne_ok {fs : Fs} {dirA dirB : String} {model : Option ModelResults}
    {status : Option Status} (h : modelStep fs dirA dirB = some (model, status)) :
    ∀ s, status = some s → s ≠ .ok := by
  unfold modelStep at h
  split at h
  · simp only [Option.bind_eq_bind, Option.bind_eq_some, Option.pure_def, Option.some.injEq,
      Prod.mk.injEq] at h
    obtain ⟨_, _, _, _, _, _, -, rfl⟩ := h
    simp
  all_goals
    cases h
    rintro s ⟨⟩
    decide

/-- In a dict built from a head with distinct labels and then entries that are not `"ok"` under
other labels, an entry that is not `"ok"` is never overwritten by one that is. -/
theorem exists_item_ne_ok {head tail : List (String × Status)}
    (hhead : (head.map Prod.fst).Nodup)
    (htail : ∀ p ∈ tail, p.1 ∉ head.map Prod.fst ∧ p.2 ≠ .ok) {p : String × Status}
    (hp : p ∈ head ++ tail) (hne : p.2 ≠ .ok) :
    ∃ q ∈ (Py.Dict.ofList (head ++ tail)).items, q.1 = p.1 ∧ q.2 ≠ .ok := by
  obtain ⟨v, hv⟩ := Option.isSome_iff_exists.1 (Py.Dict.mem_keys.1
    ((Py.Dict.mem_keys_ofList _ _).2 (List.mem_map_of_mem Prod.fst hp)))
  refine ⟨(p.1, v), (Py.Dict.get?_eq_some_iff _).1 hv, rfl, fun hv' => ?_⟩
  rcases List.mem_append.1 (Py.Dict.mem_of_get?_ofList hv) with hq | hq
  · rcases List.mem_append.1 hp with hp | hp
    · have heq : (p.1, v) = p := List.inj_on_of_nodup_map hhead hq hp rfl
      exact hne (by rw [← heq]; exact hv')
    · exact (htail p hp).1 (List.mem_map.2 ⟨_, hq, rfl⟩)
  · exact (htail _ hq).2 hv'

/-- **No entry that is not `"ok"` is hidden.**  In the dict built from a head of distinct known
labels, a tail of entries that are not `"ok"` under other labels, and the status of a missing
`model.xml`, every item besides `Origin.xml`'s is `"ok"` only when there is no tail and every
entry of the head besides `Origin.xml`'s is `"ok"`. -/
theorem ok_of_items_ok {head tail : List (String × Status)} {status : Option Status}
    (hhead : (head.map Prod.fst).Sublist
      ["Origin.xml", "DacMetadata.xml", "[Content_Types].xml", "predeploy.sql", "postdeploy.sql"])
    (htail : ∀ p ∈ tail, p.1 ∉ knownFiles ∧ p.2 ≠ .ok) (hstatus : ∀ s, status = some s → s ≠ .ok)
    (hok : ∀ p ∈ (Py.Dict.ofList (head ++ tail ++ (status.map fun s => ("model.xml", s)).toList)).items,
      p.1 ≠ "Origin.xml" → p.2 = .ok) :
    tail = [] ∧ ∀ p ∈ head, p.1 ≠ "Origin.xml" → p.2 = .ok := by
  have hfive : ∀ l ∈ ["Origin.xml", "DacMetadata.xml", "[Content_Types].xml", "predeploy.sql",
      "postdeploy.sql"], l ∈ knownFiles := by decide
  have hlater : ∀ q ∈ tail ++ (status.map fun s => ("model.xml", s)).toList,
      q.1 ∉ head.map Prod.fst ∧ q.2 ≠ .ok := by
    intro q hq
    rcases List.mem_append.1 hq with hq | hq
    · exact ⟨fun hh => (htail q hq).1 (hfive _ (hhead.subset hh)), (htail q hq).2⟩
    · obtain ⟨s, hs, rfl⟩ := Option.mem_map.1 (Option.mem_toList.1 hq)
      exact ⟨show "model.xml" ∉ head.map Prod.fst from fun hh => absurd (hhead.subset hh)
        (by decide), hstatus s hs⟩
  -- the dict keeps the last entry of each label, and no later entry is `"ok"`
  have hall : ∀ p ∈ head ++ tail, p.1 ≠ "Origin.xml" → p.2 = .ok := by
    intro p hp hp1
    by_contra hne
    obtain ⟨q, hq, hq1, hq2⟩ := exists_item_ne_ok (hhead.nodup (by decide)) hlater
      (by rw [← List.append_assoc]; exact List.mem_append_left _ hp) hne
    rw [← List.append_assoc] at hq
    exact hq2 (hok q hq (hq1 ▸ hp1))
  refine ⟨List.eq_nil_iff_forall_not_mem.2 fun p hp => (htail p hp).2 (hall p
    (List.mem_append_right _ hp) fun h1 => (htail p hp).1 (h1 ▸ by decide)),
    fun p hp => hall p (List.mem_append_left _ hp)⟩

/-- A verdict of "no differences", on the files other than `model.xml`: each file compared by
name is absent on both sides or compares `"ok"`, the two directories hold the same unknown files,
and each of them compares `"ok"`. -/
theorem verdict_eq_some_false_files {fs : Fs} {dirA dirB : String}
    (h : verdict fs dirA dirB = some false) :
    (∀ n ∈ ["DacMetadata.xml", "[Content_Types].xml"],
      compareSimpleXml (parseEntry (fs.entry (pathJoin dirA n)))
          (parseEntry (fs.entry (pathJoin dirB n))) = some none ∨
        compareSimpleXml (parseEntry (fs.entry (pathJoin dirA n)))
          (parseEntry (fs.entry (pathJoin dirB n))) = some (some .ok)) ∧
    (∀ n ∈ ["predeploy.sql", "postdeploy.sql"],
      compareTextFiles (fs.entry (pathJoin dirA n)) (fs.entry (pathJoin dirB n)) = some none ∨
        compareTextFiles (fs.entry (pathJoin dirA n)) (fs.entry (pathJoin dirB n)) =
          some (some .ok)) ∧
    (∀ n, n ∉ knownFiles → (n ∈ listFiles fs dirA ↔ n ∈ listFiles fs dirB)) ∧
    ∀ n ∈ listFiles fs dirA, n ∉ knownFiles →
      compareTextFiles (fs.entry (pathJoin dirA n)) (fs.entry (pathJoin dirB n)) = some (some .ok) := by
  obtain ⟨files, model, status, hfiles, hstep, hd⟩ := verdict_eq_some.1 h
  obtain ⟨head, tail, rfl, hhead, htail, hsimple, htext, hrust, hdotnet, hboth⟩ :=
    fileResults_eq_some hfiles
  obtain ⟨rfl, hall⟩ := ok_of_items_ok hhead htail (modelStep_status_ne_ok hstep)
    (hasDiffs_eq_false.1 hd).1
  have hrecorded : ∀ n, n ≠ "Origin.xml" → ∀ x : Option Status,
      (∀ st, x = some st → (n, st) ∈ head) → x = none ∨ x = some .ok := fun n hn x hin => by
    rcases x with _ | st
    · exact .inl rfl
    · exact .inr (congrArg some (hall _ (hin st rfl) hn))
  have hsame : ∀ n, n ∉ knownFiles → n ∈ listFiles fs dirA → n ∈ listFiles fs dirB := by
    intro n hnk hnA
    by_contra hnB
    exact hrust (List.ne_nil_of_mem (List.mem_filter.2 ⟨hnA, by simp [hnB, hnk]⟩)) rfl
  refine ⟨fun n hn => ?_, fun n hn => ?_, fun n hnk => ⟨hsame n hnk, fun hnB => ?_⟩,
    fun n hnA hnk => ?_⟩
  · obtain ⟨x, hx, hin⟩ := hsimple n hn
    rw [hx]
    simpa using hrecorded n (by rintro rfl; revert hn; decide) x hin
  · obtain ⟨x, hx, hin⟩ := htext n hn
    rw [hx]
    simpa using hrecorded n (by rintro rfl; revert hn; decide) x hin
  · by_contra hnA
    exact hdotnet (List.ne_nil_of_mem (List.mem_filter.2 ⟨hnB, by simp [hnA, hnk]⟩)) rfl
  · obtain ⟨x, hx, hin⟩ := hboth n hnA (hsame n hnk hnA) hnk
    obtain ⟨c, m, he⟩ := exists_file_of_mem_listFiles hnA
    obtain ⟨c', m', he'⟩ := exists_file_of_mem_listFiles (hsame n hnk hnA)
    rw [he, he'] at hx ⊢
    simp only [compareTextFiles, readLines, Option.bind_eq_bind, Option.pure_def] at hx ⊢
    rcases hla : c.lines with _ | la <;> rcases hlb : c'.lines with _ | lb <;>
      simp only [hla, hlb, Option.none_bind, Option.some_bind, reduceCtorEq, Option.some.injEq] at hx ⊢
    subst hx
    split_ifs with hl
    · rfl
    · simpa using hin _ rfl (by simp [hl])

/-- **Exit code `0` means the other files compare equal.**  When `main` exits `0`, in the
directories the arguments resolved to: `DacMetadata.xml`, `[Content_Types].xml`,
`predeploy.sql` and `postdeploy.sql` are each absent on both sides or compare `"ok"`; the two
directories hold the same files besides the known ones; and each of those compares `"ok"`.
`Origin.xml` is never compared. -/
theorem mainExitCode_eq_zero_files {fs : Fs} {tmpdir pathA pathB : String}
    (h : mainExitCode fs tmpdir pathA pathB = 0) :
    ∃ fsA dirA fsB dirB, resolveDir fs tmpdir pathA = some (fsA, dirA) ∧
      resolveDir fsA tmpdir pathB = some (fsB, dirB) ∧
      (∀ n ∈ ["DacMetadata.xml", "[Content_Types].xml"],
        compareSimpleXml (parseEntry (fsB.entry (pathJoin dirA n)))
            (parseEntry (fsB.entry (pathJoin dirB n))) = some none ∨
          compareSimpleXml (parseEntry (fsB.entry (pathJoin dirA n)))
            (parseEntry (fsB.entry (pathJoin dirB n))) = some (some .ok)) ∧
      (∀ n ∈ ["predeploy.sql", "postdeploy.sql"],
        compareTextFiles (fsB.entry (pathJoin dirA n)) (fsB.entry (pathJoin dirB n)) = some none ∨
          compareTextFiles (fsB.entry (pathJoin dirA n)) (fsB.entry (pathJoin dirB n)) =
            some (some .ok)) ∧
      (∀ n, n ∉ knownFiles → (n ∈ listFiles fsB dirA ↔ n ∈ listFiles fsB dirB)) ∧
      ∀ n ∈ listFiles fsB dirA, n ∉ knownFiles →
        compareTextFiles (fsB.entry (pathJoin dirA n)) (fsB.entry (pathJoin dirB n)) =
          some (some .ok) := by
  obtain ⟨fsA, dirA, fsB, dirB, hA, hB, hv⟩ := mainExitCode_eq_zero_verdict h
  exact ⟨fsA, dirA, fsB, dirB, hA, hB, verdict_eq_some_false_files hv⟩

theorem mainExitCode_eq_zero_files_unknown :
    let fs : Fs := [("db", .dir), ("db/notes.txt", .file ⟨some ["x"], none⟩ none),
      ("db/model.xml", .file ⟨some [], some (.elem (nsTag "DataSchemaModel") []
        [.elem (nsTag "Model") [] []])⟩ none)]
    mainExitCode fs "/tmp/w" "db" "db" = 0 ∧
      ∃ fsA dirA fsB dirB, resolveDir fs "/tmp/w" "db" = some (fsA, dirA) ∧
        resolveDir fsA "/tmp/w" "db" = some (fsB, dirB) ∧
        (∀ n ∈ ["DacMetadata.xml", "[Content_Types].xml"],
          compareSimpleXml (parseEntry (fsB.entry (pathJoin dirA n)))
              (parseEntry (fsB.entry (pathJoin dirB n))) = some none ∨
            compareSimpleXml (parseEntry (fsB.entry (pathJoin dirA n)))
              (parseEntry (fsB.entry (pathJoin dirB n))) = some (some .ok)) ∧
        (∀ n ∈ ["predeploy.sql", "postdeploy.sql"],
          compareTextFiles (fsB.entry (pathJoin dirA n)) (fsB.entry (pathJoin dirB n)) = some none ∨
            compareTextFiles (fsB.entry (pathJoin dirA n)) (fsB.entry (pathJoin dirB n)) =
              some (some .ok)) ∧
        (∀ n, n ∉ knownFiles → (n ∈ listFiles fsB dirA ↔ n ∈ listFiles fsB dirB)) ∧
        ∀ n ∈ listFiles fsB dirA, n ∉ knownFiles →
          compareTextFiles (fsB.entry (pathJoin dirA n)) (fsB.entry (pathJoin dirB n)) =
            some (some .ok) := by
  intro fs
  have h : mainExitCode fs "/tmp/w" "db" "db" = 0 := by decide
  exact ⟨h, mainExitCode_eq_zero_files h⟩

/-! ## Exactly when the exit code is `0`

The converse of what an exit code of `0` says: two directories on which every comparison `main`
makes is `"ok"` get the verdict "no differences".  So the verdict is characterised by a
condition on the two directories (`verdict_eq_some_false_iff`), and as that condition is
symmetric, two directories give the same exit code in either order. -/

/-- What a verdict of "no differences" says of two directories, and all it says. -/
structure DirsAgree (fs : Fs) (dirA dirB : String) : Prop where
  /-- `DacMetadata.xml` and `[Content_Types].xml` are each on neither side or compare `"ok"`. -/
  simpleXml : ∀ n ∈ ["DacMetadata.xml", "[Content_Types].xml"],
    compareSimpleXml (parseEntry (fs.entry (pathJoin dirA n)))
        (parseEntry (fs.entry (pathJoin dirB n))) = some none ∨
      compareSimpleXml (parseEntry (fs.entry (pathJoin dirA n)))
        (parseEntry (fs.entry (pathJoin dirB n))) = some (some .ok)
  /-- `predeploy.sql` and `postdeploy.sql` are each on neither side or compare `"ok"`. -/
  textFiles : ∀ n ∈ ["predeploy.sql", "postdeploy.sql"],
    compareTextFiles (fs.entry (pathJoin dirA n)) (fs.entry (pathJoin dirB n)) = some none ∨
      compareTextFiles (fs.entry (pathJoin dirA n)) (fs.entry (pathJoin dirB n)) = some (some .ok)
  /-- The two directories hold the same files besides the known ones. -/
  sameUnknown : ∀ n, n ∉ knownFiles → (n ∈ listFiles fs dirA ↔ n ∈ listFiles fs dirB)
  /-- Each of those compares `"ok"`. -/
  unknownOk : ∀ n ∈ listFiles fs dirA, n ∉ knownFiles →
    compareTextFiles (fs.entry (pathJoin dirA n)) (fs.entry (pathJoin dirB n)) = some (some .ok)
  /-- `model.xml` parses on both sides, and `compare_model_xml` reports an identical header and
  no missing, extra or different element. -/
  model : ∃ A B r, parseEntry (fs.entry (pathJoin dirA "model.xml")) = some (some A) ∧
    parseEntry (fs.entry (pathJoin dirB "model.xml")) = some (some B) ∧
    compareModelXml A B = some r ∧ r.header.1 = .ok ∧ r.elements.clean

theorem recordStatus_ok (label : String) (acc : List (String × Status))
    {r : Option (Option Status)} (hr : r = some none ∨ r = some (some .ok))
    (hacc : ∀ p ∈ acc, p.2 = .ok) :
    ∃ acc', recordStatus label r acc = some acc' ∧ ∀ p ∈ acc', p.2 = .ok := by
  rcases hr with rfl | rfl
  · exact ⟨acc, rfl, hacc⟩
  · refine ⟨acc ++ [(label, Status.ok)], rfl, fun p hp => ?_⟩
    rcases List.mem_append.1 hp with hp | hp
    · exact hacc p hp
    · rw [List.mem_singleton.1 hp]

/-- A loop whose every step leaves its accumulator returns it. -/
theorem foldlM_eq_some_self {α β : Type} {f : β → α → Option β} {b : β} :
    ∀ {l : List α}, (∀ a ∈ l, f b a = some b) → l.foldlM f b = some b
  | [], _ => rfl
  | a :: l, h => by
    rw [List.foldlM_cons, h a (.head _)]
    exact foldlM_eq_some_self fun x hx => h x (.tail _ hx)

/-- The per-file comparisons of two directories that agree record `"ok"` for every file they
record: no file is on one side only, and the loop over the others records nothing. -/
theorem fileResults_ok {fs : Fs} {dirA dirB : String} (h : DirsAgree fs dirA dirB) :
    ∃ files, fileResults fs dirA dirB = some files ∧ ∀ p ∈ files, p.2 = .ok := by
  obtain ⟨a₁, h₁, ha₁⟩ := recordStatus_ok "DacMetadata.xml" [("Origin.xml", .ok)]
    (h.simpleXml "DacMetadata.xml" (by simp)) (by simp)
  obtain ⟨a₂, h₂, ha₂⟩ := recordStatus_ok "[Content_Types].xml" a₁
    (h.simpleXml "[Content_Types].xml" (by simp)) ha₁
  obtain ⟨a₃, h₃, ha₃⟩ := recordStatus_ok "predeploy.sql" a₂
    (h.textFiles "predeploy.sql" (by simp)) ha₂
  obtain ⟨a₄, h₄, ha₄⟩ := recordStatus_ok "postdeploy.sql" a₃
    (h.textFiles "postdeploy.sql" (by simp)) ha₃
  have hrust : ((listFiles fs dirA).filter fun n => n ∉ listFiles fs dirB ∧ n ∉ knownFiles) = [] :=
    List.filter_eq_nil_iff.2 fun n hn hp =>
      (of_decide_eq_true hp).1 ((h.sameUnknown n (of_decide_eq_true hp).2).1 hn)
  have hdotnet : ((listFiles fs dirB).filter fun n => n ∉ listFiles fs dirA ∧ n ∉ knownFiles) = [] :=
    List.filter_eq_nil_iff.2 fun n hn hp =>
      (of_decide_eq_true hp).1 ((h.sameUnknown n (of_decide_eq_true hp).2).2 hn)
  refine ⟨a₄, ?_, ha₄⟩
  simp only [fileResults, Option.bind_eq_bind, h₁, h₂, h₃, h₄, Option.some_bind, hrust, hdotnet,
    ne_eq, not_true_eq_false, if_false]
  refine foldlM_eq_some_self fun n hn => ?_
  have hmem := List.mem_filter.1 ((Py.mem_sortOn _).1 hn)
  simp [h.unknownOk n hmem.1 (of_decide_eq_true hmem.2).2]

theorem modelStep_of_parse {fs : Fs} {dirA dirB : String} {A B : Node} {r : ModelResults}
    (hA : parseEntry (fs.entry (pathJoin dirA "model.xml")) = some (some A))
    (hB : parseEntry (fs.entry (pathJoin dirB "model.xml")) = some (some B))
    (hr : compareModelXml A B = some r) : modelStep fs dirA dirB = some (some r, none) := by
  unfold modelStep
  rcases hea : fs.entry (pathJoin dirA "model.xml") with _ | ea
  · rw [hea] at hA
    cases hA
  rcases heb : fs.entry (pathJoin dirB "model.xml") with _ | eb
  · rw [heb] at hB
    cases hB
  rw [hea] at hA
  rw [heb] at hB
  simp [hA, hB, hr]

/-- **The verdict is "no differences" exactly when the two directories agree.** -/
theorem verdict_eq_some_false_iff {fs : Fs} {dirA dirB : String} :
    verdict fs dirA dirB = some false ↔ DirsAgree fs dirA dirB := by
  refine ⟨fun h => ?_, fun h => ?_⟩
  · obtain ⟨hxml, htext, hsame, hok⟩ := verdict_eq_some_false_files h
    exact ⟨hxml, htext, hsame, hok, verdict_eq_some_false h⟩
  · obtain ⟨files, hfiles, hok⟩ := fileResults_ok h
    obtain ⟨A, B, r, hA, hB, hr, hhead, hclean⟩ := h.model
    refine verdict_eq_some.2 ⟨files, some r, none, hfiles, modelStep_of_parse hA hB hr,
      hasDiffs_eq_false.2 ⟨fun p hp _ => hok p ?_, fun _ h => Option.some.inj h ▸ ⟨hhead, hclean⟩⟩⟩
    simpa using Py.Dict.mem_of_mem_items_ofList hp

/-- **Exit code `0` when every comparison is `"ok"`.**  Once both arguments have resolved to
directories, `main` exits `0` as soon as every comparison it makes of them is `"ok"`, or skipped
for a file compared by name that is on neither side. -/
theorem mainExitCode_eq_zero_of_agree {fs fsA fsB : Fs} {tmpdir pathA pathB dirA dirB : String}
    (hA : resolveDir fs tmpdir pathA = some (fsA, dirA))
    (hB : resolveDir fsA tmpdir pathB = some (fsB, dirB)) (hagree : DirsAgree fsB dirA dirB) :
    mainExitCode fs tmpdir pathA pathB = 0 := by
  simp [mainExitCode, hA, hB, verdict_eq_some_false_iff.2 hagree]

theorem mainExitCode_eq_zero_of_agree_trailing_space :
    let doc := Node.elem (nsTag "DataSchemaModel") [] [.elem (nsTag "Model") []
      [.elem (nsTag "Element") [("Type", "SqlTable"), ("Name", "[dbo].[T]")] []]]
    let fs : Fs := [("rust", .dir), ("rust/model.xml", .file ⟨some [], some doc⟩ none),
      ("rust/notes.txt", .file ⟨some ["x  "], none⟩ none),
      ("dotnet", .dir), ("dotnet/model.xml", .file ⟨some [], some doc⟩ none),
      ("dotnet/notes.txt", .file ⟨some ["x"], none⟩ none)]
    resolveDir fs "/tmp/w" "rust" = some (fs, "rust") ∧
      resolveDir fs "/tmp/w" "dotnet" = some (fs, "dotnet") ∧ DirsAgree fs "rust" "dotnet" ∧
      mainExitCode fs "/tmp/w" "rust" "dotnet" = 0 := by
  intro doc fs
  have hA : resolveDir fs "/tmp/w" "rust" = some (fs, "rust") := rfl
  have hB : resolveDir fs "/tmp/w" "dotnet" = some (fs, "dotnet") := rfl
  obtain ⟨r, hr, hhead, hclean⟩ := compareModelXml_self (show DocOk doc by decide)
  have hfiles : listFiles fs "rust" = listFiles fs "dotnet" := by decide
  have hagree : DirsAgree fs "rust" "dotnet" :=
    ⟨by decide, by decide, fun n _ => by rw [hfiles], by decide, doc, doc, r, rfl, rfl, hr, hhead,
      hclean⟩
  exact ⟨hA, hB, hagree, mainExitCode_eq_zero_of_agree hA hB hagree⟩

/-! ## Swapping two directories -/

/-- A simple XML comparison that is silent, or `"ok"`, is so with its sides swapped. -/
theorem compareSimpleXml_comm {x y : Option (Option Node)} {s : Option Status}
    (hs : s = none ∨ s = some .ok) (h : compareSimpleXml x y = some s) :
    compareSimpleXml y x = some s := by
  rcases hs with rfl | rfl <;> rcases x with _ | _ | a <;> rcases y with _ | _ | b <;>
    simp_all [compareSimpleXml]

/-- A text comparison that is silent, or `"ok"`, is so with its sides swapped. -/
theorem compareTextFiles_comm {x y : Option FsEntry} {s : Option Status}
    (hs : s = none ∨ s = some .ok) (h : compareTextFiles x y = some s) :
    compareTextFiles y x = some s := by
  rcases hs with rfl | rfl <;> rcases x with _ | _ | ⟨⟨_ | la, xa⟩, m⟩ <;>
    rcases y with _ | _ | ⟨⟨_ | lb, xb⟩, m'⟩ <;> simp_all [compareTextFiles, readLines]

theorem DirsAgree.symm {fs : Fs} {dirA dirB : String} (h : DirsAgree fs dirA dirB) :
    DirsAgree fs dirB dirA := by
  obtain ⟨A, B, r, hA, hB, hr, hhead, hclean⟩ := h.model
  obtain ⟨r', hr', hhead', hclean'⟩ := compareModelXml_clean_comm hr hhead hclean
  exact ⟨fun n hn => (h.simpleXml n hn).imp (compareSimpleXml_comm (.inl rfl))
      (compareSimpleXml_comm (.inr rfl)),
    fun n hn => (h.textFiles n hn).imp (compareTextFiles_comm (.inl rfl))
      (compareTextFiles_comm (.inr rfl)),
    fun n hn => (h.sameUnknown n hn).symm,
    fun n hnB hnk => compareTextFiles_comm (.inr rfl)
      (h.unknownOk n ((h.sameUnknown n hnk).2 hnB) hnk),
    B, A, r', hB, hA, hr', hhead', hclean'⟩

/-- On two directories, `main` exits `0` exactly on the verdict "no differences". -/
theorem mainExitCode_of_isDir {fs : Fs} {tmpdir pathA pathB : String} (hA : fs.isDir pathA = true)
    (hB : fs.isDir pathB = true) :
    mainExitCode fs tmpdir pathA pathB = if verdict fs pathA pathB = some false then 0 else 1 := by
  simp only [mainExitCode, resolveDir, hA, hB, if_true, Option.bind_eq_bind, Option.some_bind]
  split <;> simp_all

/-- **Two directories give the same exit code in either order.**  Only extraction tells the two
arguments apart: every comparison `main` makes is silent or `"ok"` in one order exactly when it is
in the other, and a clean model comparison stays clean with the two documents swapped. -/
theorem mainExitCode_comm_of_isDir {fs : Fs} {tmpdir pathA pathB : String}
    (hA : fs.isDir pathA = true) (hB : fs.isDir pathB = true) :
    mainExitCode fs tmpdir pathA pathB = mainExitCode fs tmpdir pathB pathA := by
  rw [mainExitCode_of_isDir hA hB, mainExitCode_of_isDir hB hA]
  refine if_congr ?_ rfl rfl
  rw [verdict_eq_some_false_iff, verdict_eq_some_false_iff]
  exact ⟨DirsAgree.symm, DirsAgree.symm⟩

theorem mainExitCode_comm_of_isDir_two_tables :
    let doc := fun n : String => Node.elem (nsTag "DataSchemaModel") [] [.elem (nsTag "Model") []
      [.elem (nsTag "Element") [("Type", "SqlTable"), ("Name", n)] []]]
    let fs : Fs := [("rust", .dir), ("rust/model.xml", .file ⟨some [], some (doc "[dbo].[T1]")⟩ none),
      ("dotnet", .dir), ("dotnet/model.xml", .file ⟨some [], some (doc "[dbo].[T2]")⟩ none)]
    fs.isDir "rust" = true ∧ fs.isDir "dotnet" = true ∧
      mainExitCode fs "/tmp/w" "rust" "dotnet" = mainExitCode fs "/tmp/w" "dotnet" "rust" := by
  intro doc fs
  have hA : fs.isDir "rust" = true := by decide
  have hB : fs.isDir "dotnet" = true := by decide
  exact ⟨hA, hB, mainExitCode_comm_of_isDir hA hB⟩

/-! ## A directory compared with itself -/

/-- A simple XML file compared with itself is `"ok"`, or not recorded when it is absent, as long
as it parses. -/
theorem compareSimpleXml_self {x : Option (Option Node)} (hx : x.all Option.isSome) :
    compareSimpleXml x x = some none ∨ compareSimpleXml x x = some (some .ok) := by
  rcases x with _ | _ | n <;> simp [compareSimpleXml] at hx ⊢

/-- A text file compared with itself is `"ok"`, or not recorded when it is absent, as long as it
can be read. -/
theorem compareTextFiles_self {e : Option FsEntry} (he : e.all fun e => (readLines e).isSome) :
    compareTextFiles e e = some none ∨ compareTextFiles e e = some (some .ok) := by
  rcases e with _ | _ | ⟨⟨_ | l, x⟩, m⟩ <;> simp [compareTextFiles, readLines] at he ⊢

/-- A directory agrees with itself when its simple XML files parse, its text files, the known
ones and the others, can be read, and its `model.xml` is a well-formed model. -/
theorem dirsAgree_self {fs : Fs} {d : String} {A : Node}
    (hxml : ∀ n ∈ ["DacMetadata.xml", "[Content_Types].xml"],
      (parseEntry (fs.entry (pathJoin d n))).all Option.isSome)
    (htext : ∀ n ∈ ["predeploy.sql", "postdeploy.sql"],
      (fs.entry (pathJoin d n)).all fun e => (readLines e).isSome)
    (hunknown : ∀ n ∈ listFiles fs d, n ∉ knownFiles →
      (fs.entry (pathJoin d n)).all fun e => (readLines e).isSome)
    (hmodel : parseEntry (fs.entry (pathJoin d "model.xml")) = some (some A)) (hA : DocOk A) :
    DirsAgree fs d d := by
  obtain ⟨r, hr, hhead, hclean⟩ := compareModelXml_self hA
  refine ⟨fun n hn => compareSimpleXml_self (hxml n hn), fun n hn => compareTextFiles_self (htext n hn),
    fun _ _ => Iff.rfl, fun n hn hk => ?_, A, A, r, hmodel, hmodel, hr, hhead, hclean⟩
  obtain ⟨c, m, he⟩ := exists_file_of_mem_listFiles hn
  have hc := hunknown n hn hk
  rw [he] at hc ⊢
  rcases c with ⟨_ | l, x⟩
  · simp [readLines] at hc
  · simp [compareTextFiles, readLines]

/-- **A directory compared with itself exits `0`** when its simple XML files parse, its text
files, the known ones and the others, can be read, and its `model.xml` is a well-formed model. -/
theorem mainExitCode_self {fs : Fs} {tmpdir d : String} {A : Node} (hdir : fs.isDir d = true)
    (hxml : ∀ n ∈ ["DacMetadata.xml", "[Content_Types].xml"],
      (parseEntry (fs.entry (pathJoin d n))).all Option.isSome)
    (htext : ∀ n ∈ ["predeploy.sql", "postdeploy.sql"],
      (fs.entry (pathJoin d n)).all fun e => (readLines e).isSome)
    (hunknown : ∀ n ∈ listFiles fs d, n ∉ knownFiles →
      (fs.entry (pathJoin d n)).all fun e => (readLines e).isSome)
    (hmodel : parseEntry (fs.entry (pathJoin d "model.xml")) = some (some A)) (hA : DocOk A) :
    mainExitCode fs tmpdir d d = 0 := by
  simp [mainExitCode, resolveDir, hdir,
    verdict_eq_some_false_iff.2 (dirsAgree_self hxml htext hunknown hmodel hA)]

/-- A directory with a table model and a notes file beside it. -/
theorem mainExitCode_self_one_table :
    mainExitCode [("db", .dir), ("db/notes.txt", .file ⟨some ["x"], none⟩ none),
      ("db/model.xml", .file ⟨some [], some (.elem (nsTag "DataSchemaModel") []
      [.elem (nsTag "Model") [] [.elem (nsTag "Element") [("Type", "SqlTable"), ("Name", "[dbo].[T]")]
        [.elem (nsTag "Property") [("Name", "IsAnsiNullsOn"), ("Value", "True")] []]]])⟩ none)]
      "/tmp/w" "db" "db" = 0 :=
  mainExitCode_self (by decide) (by decide) (by decide) (by decide) rfl (by decide)

/-- **Two archives with one base name are extracted into one directory.**  `target/Db.dacpac`
and `bin/Debug/Db.dacpac` both go to `tmpdir/Db.dacpac`, the second over the first, so the run
compares the dotnet package with itself and exits `0`, though the packages differ in
`predeploy.sql`; the same packages extracted apart give `1`. -/
theorem mainExitCode_same_basename :
    mainExitCode
        [("target/Db.dacpac", .file ⟨some [], none⟩ (some
          [("model.xml", ⟨some [], some (.elem (nsTag "DataSchemaModel") [] [.elem (nsTag "Model") [] []])⟩),
            ("predeploy.sql", ⟨some ["a"], none⟩)])),
        ("bin/Debug/Db.dacpac", .file ⟨some [], none⟩ (some
          [("model.xml", ⟨some [], some (.elem (nsTag "DataSchemaModel") [] [.elem (nsTag "Model") [] []])⟩),
            ("predeploy.sql", ⟨some ["b"], none⟩)]))]
        "/tmp/w" "target/Db.dacpac" "bin/Debug/Db.dacpac" = 0 ∧
    mainExitCode
        [("rust", .dir),
        ("rust/model.xml", .file
          ⟨some [], some (.elem (nsTag "DataSchemaModel") [] [.elem (nsTag "Model") [] []])⟩ none),
        ("rust/predeploy.sql", .file ⟨some ["a"], none⟩ none),
        ("dotnet", .dir),
        ("dotnet/model.xml", .file
          ⟨some [], some (.elem (nsTag "DataSchemaModel") [] [.elem (nsTag "Model") [] []])⟩ none),
        ("dotnet/predeploy.sql", .file ⟨some ["b"], none⟩ none)]
        "/tmp/w" "rust" "dotnet" = 1 := by
  decide

/-- **Swapping two archives with one base name changes the verdict.**  Whichever is extracted
second supplies every file both have; here only the rust package's `DacMetadata.xml` fails to
parse, so the run raises when the rust package is extracted second and not otherwise. -/
theorem mainExitCode_swap_same_basename :
    mainExitCode
        [("target/Db.dacpac", .file ⟨some [], none⟩ (some
          [("model.xml", ⟨some [], some (.elem (nsTag "DataSchemaModel") [] [.elem (nsTag "Model") [] []])⟩),
            ("DacMetadata.xml", ⟨some [], none⟩)])),
        ("bin/Debug/Db.dacpac", .file ⟨some [], none⟩ (some
          [("model.xml", ⟨some [], some (.elem (nsTag "DataSchemaModel") [] [.elem (nsTag "Model") [] []])⟩),
            ("DacMetadata.xml", ⟨some [], some (.elem "DacType" [] [])⟩)]))]
        "/tmp/w" "target/Db.dacpac" "bin/Debug/Db.dacpac" = 0 ∧
    mainExitCode
        [("target/Db.dacpac", .file ⟨some [], none⟩ (some
          [("model.xml", ⟨some [], some (.elem (nsTag "DataSchemaModel") [] [.elem (nsTag "Model") [] []])⟩),
            ("DacMetadata.xml", ⟨some [], none⟩)])),
        ("bin/Debug/Db.dacpac", .file ⟨some [], none⟩ (some
          [("model.xml", ⟨some [], some (.elem (nsTag "DataSchemaModel") [] [.elem (nsTag "Model") [] []])⟩),
            ("DacMetadata.xml", ⟨some [], some (.elem "DacType" [] [])⟩)]))]
        "/tmp/w" "bin/Debug/Db.dacpac" "target/Db.dacpac" = 1 := by
  decide

end DacpacCompare
