import DacpacCompare.Transitivity

/-!
# What `main` reads

Run on two directories, `main` reads the known files by name and lists the rest with
`list_files`, which keeps the names of the files directly in a directory.  So what it says
depends on the top level of the two directories and nothing else: not on their subdirectories,
on other directories, or on the temporary directory it never uses (`mainExitCode_frame`).  An
archive argument is read through the directory `extract_dacpac` writes its members to, so a
dacpac compares exactly as a directory holding its files (`mainExitCode_archive_eq_dir`).

What is here:

* `mem_listFiles` — `list_files(d)` holds exactly the non-empty names without `/` of the files
  directly in `d`, and nothing when `d` is not a directory;
* `SameDir` — two directories, in one file system or two, under one name or two, that `main`
  cannot tell apart; `DirsAgree.of_sameDir` carries agreement across it, and from it the
  verdict and the exit code;
* `SameTopLevel` — one directory on which two file systems agree, and the frame theorem;
* `HoldsMembers` — a directory holding an archive's members; `holdsMembers_extracted` says
  `extractall` into an empty directory makes one, and `sameTopLevel_extracted` that it leaves
  the other argument alone;
* two archives extracted apart each keep their members whichever comes first, so `main` is
  symmetric on them (`mainExitCode_comm_of_archives`); with one base name it is not.
-/

set_option autoImplicit false

namespace DacpacCompare

/-! ## The files directly in a directory -/

theorem isPrefixOf?_eq_some_iff : ∀ {l₁ l₂ t : List Char}, l₁.isPrefixOf? l₂ = some t ↔ l₂ = l₁ ++ t
  | [], l₂, t => by simp [List.isPrefixOf?, eq_comm]
  | _ :: _, [], _ => by simp [List.isPrefixOf?]
  | x :: l₁, y :: l₂, t => by
    by_cases h : x = y
    · subst h
      simp [List.isPrefixOf?, isPrefixOf?_eq_some_iff]
    · simp [List.isPrefixOf?, h, Ne.symm h]

/-- A name that does not start with `/` is joined to a directory by appending it to the
directory's own prefix. -/
theorem pathJoin_eq_append {n : String} (d : String) (hn : n.data.head? ≠ some '/') :
    pathJoin d n = pathJoin d "" ++ n := by
  have h0 : ("" : String).data.head? ≠ some '/' := by decide
  unfold pathJoin
  rw [if_neg hn, if_neg h0]
  split_ifs <;> simp [String.append_assoc]

theorem head?_ne_of_not_mem {n : String} (hn : '/' ∉ n.data) : n.data.head? ≠ some '/' :=
  fun h => hn (List.mem_of_mem_head? h)

/-- `p` is directly in `d`, under the name `n`. -/
theorem childName_eq_some_iff {d p n : String} :
    childName d p = some n ↔ n ≠ "" ∧ '/' ∉ n.data ∧ p = pathJoin d n := by
  unfold childName
  constructor
  · intro h
    split at h
    · rename_i rest hrest
      split_ifs at h with hok
      cases h
      refine ⟨fun he => hok.1 (congrArg String.data he), hok.2, ?_⟩
      rw [pathJoin_eq_append d (head?_ne_of_not_mem hok.2)]
      exact String.ext (by simpa using isPrefixOf?_eq_some_iff.1 hrest)
    · cases h
  · rintro ⟨hne, hn, rfl⟩
    rw [pathJoin_eq_append d (head?_ne_of_not_mem hn), String.data_append,
      isPrefixOf?_eq_some_iff.2 rfl]
    have hne' : n.data ≠ [] := fun h => hne (String.ext h)
    simp [hne', hn]

theorem mem_map_fst_of_lookup {fs : Fs} {p : String} {x : FsEntry} (h : fs.entry p = some x) :
    p ∈ fs.map Prod.fst := by
  have hs : (fs.lookup p).isSome := by rw [show fs.lookup p = some x from h]; rfl
  obtain ⟨q, hq, hpq⟩ := List.lookup_isSome_iff.1 hs
  exact List.mem_map.2 ⟨q, hq, (beq_iff_eq.1 hpq).symm⟩

/-- **`list_files(d)`** holds exactly the non-empty names without `/` of the files directly in
`d`, and nothing when `d` is not a directory. -/
theorem mem_listFiles {fs : Fs} {d n : String} :
    n ∈ listFiles fs d ↔ fs.isDir d = true ∧ n ≠ "" ∧ '/' ∉ n.data ∧ fs.isFile (pathJoin d n) = true := by
  unfold listFiles
  split_ifs with hd
  · simp only [List.mem_filter, List.mem_dedup, List.mem_filterMap, childName_eq_some_iff, hd,
      true_and]
    constructor
    · rintro ⟨⟨p, -, hne, hn, -⟩, hf⟩
      exact ⟨hne, hn, hf⟩
    · rintro ⟨hne, hn, hf⟩
      refine ⟨⟨pathJoin d n, ?_, hne, hn, rfl⟩, hf⟩
      unfold Fs.isFile at hf
      split at hf
      · exact mem_map_fst_of_lookup ‹_›
      · cases hf
  · simp [hd]

/-! ## Two directories that look the same

`main` reads a directory through two doors: whether it is one, and the entry under each name
directly in it.  Two directories that agree there, in one file system or in two, under one name
or under two, are compared alike. -/

/-- Directory `a` of `fs` and directory `a'` of `fs'` look the same to `main`. -/
structure SameDir (fs : Fs) (a : String) (fs' : Fs) (a' : String) : Prop where
  /-- Both are directories, or neither is. -/
  isDir : fs.isDir a = fs'.isDir a'
  /-- The same entry under every non-empty name without `/`. -/
  child : ∀ n, n ≠ "" → '/' ∉ n.data → fs.entry (pathJoin a n) = fs'.entry (pathJoin a' n)

theorem SameDir.symm {fs fs' : Fs} {a a' : String} (h : SameDir fs a fs' a') : SameDir fs' a' fs a :=
  ⟨h.isDir.symm, fun n hne hn => (h.child n hne hn).symm⟩

theorem SameDir.mem_listFiles {fs fs' : Fs} {a a' n : String} (h : SameDir fs a fs' a') :
    n ∈ listFiles fs a ↔ n ∈ listFiles fs' a' := by
  simp only [DacpacCompare.mem_listFiles, h.isDir, and_congr_right_iff]
  intro _ hne hn
  simp only [Fs.isFile, h.child n hne hn]

/-- The names `main` compares by name are not empty and hold no `/`. -/
theorem known_name {n : String} (hn : n ∈ knownFiles) : n ≠ "" ∧ '/' ∉ n.data := by
  simp only [knownFiles, List.mem_cons, List.not_mem_nil, or_false] at hn
  rcases hn with rfl | rfl | rfl | rfl | rfl | rfl <;> decide

/-- **Agreement of two directories depends on what `main` sees of them only.** -/
theorem DirsAgree.of_sameDir {fs fs' : Fs} {a b a' b' : String} (ha : SameDir fs a fs' a')
    (hb : SameDir fs b fs' b') (h : DirsAgree fs a b) : DirsAgree fs' a' b' := by
  have hk : ∀ n ∈ knownFiles, ∀ {d d'}, SameDir fs d fs' d' →
      fs.entry (pathJoin d n) = fs'.entry (pathJoin d' n) :=
    fun n hn _ _ hd => hd.child n (known_name hn).1 (known_name hn).2
  have hxml : ∀ n ∈ ["DacMetadata.xml", "[Content_Types].xml"], n ∈ knownFiles := by decide
  have htext : ∀ n ∈ ["predeploy.sql", "postdeploy.sql"], n ∈ knownFiles := by decide
  obtain ⟨A, B, r, hA, hB, hr, hh, hc⟩ := h.model
  refine ⟨fun n hn => ?_, fun n hn => ?_, fun n hn => ?_, fun n hn hu => ?_,
    A, B, r, ?_, ?_, hr, hh, hc⟩
  · rw [← hk n (hxml n hn) ha, ← hk n (hxml n hn) hb]
    exact h.simpleXml n hn
  · rw [← hk n (htext n hn) ha, ← hk n (htext n hn) hb]
    exact h.textFiles n hn
  · rw [← ha.mem_listFiles, ← hb.mem_listFiles]
    exact h.sameUnknown n hn
  · have hn₀ := ha.mem_listFiles.2 hn
    obtain ⟨-, hne, hsl, -⟩ := DacpacCompare.mem_listFiles.1 hn₀
    rw [← ha.child n hne hsl, ← hb.child n hne hsl]
    exact h.unknownOk n hn₀ hu
  · rwa [← hk "model.xml" (by decide) ha]
  · rwa [← hk "model.xml" (by decide) hb]

/-- Directories that look the same get the same verdict "no differences". -/
theorem verdict_eq_some_false_congr {fs fs' : Fs} {a b a' b' : String} (ha : SameDir fs a fs' a')
    (hb : SameDir fs b fs' b') : verdict fs a b = some false ↔ verdict fs' a' b' = some false := by
  rw [verdict_eq_some_false_iff, verdict_eq_some_false_iff]
  exact ⟨DirsAgree.of_sameDir ha hb, DirsAgree.of_sameDir ha.symm hb.symm⟩

/-- `main`'s exit code once its two arguments have resolved to directories. -/
theorem mainExitCode_of_resolve {fs fsA fsB : Fs} {tmpdir pathA pathB dirA dirB : String}
    (hA : resolveDir fs tmpdir pathA = some (fsA, dirA))
    (hB : resolveDir fsA tmpdir pathB = some (fsB, dirB)) :
    mainExitCode fs tmpdir pathA pathB = if verdict fsB dirA dirB = some false then 0 else 1 := by
  simp only [mainExitCode, hA, hB, Option.bind_eq_bind, Option.some_bind]
  split <;> simp_all

theorem resolveDir_of_isDir {fs : Fs} {tmpdir d : String} (h : fs.isDir d = true) :
    resolveDir fs tmpdir d = some (fs, d) := by
  simp [resolveDir, h]

/-! ## Two file systems with the same top level -/

/-- The two file systems agree on `d` and on every entry directly in it. -/
structure SameTopLevel (fs fs' : Fs) (d : String) : Prop where
  /-- The same entry at `d`. -/
  self : fs.entry d = fs'.entry d
  /-- The same entry under every non-empty name without `/`. -/
  child : ∀ n, n ≠ "" → '/' ∉ n.data → fs.entry (pathJoin d n) = fs'.entry (pathJoin d n)

theorem SameTopLevel.sameDir {fs fs' : Fs} {d : String} (h : SameTopLevel fs fs' d) :
    SameDir fs d fs' d :=
  ⟨by simp only [Fs.isDir, h.self], h.child⟩

theorem SameTopLevel.symm {fs fs' : Fs} {d : String} (h : SameTopLevel fs fs' d) :
    SameTopLevel fs' fs d :=
  ⟨h.self.symm, fun n hne hn => (h.child n hne hn).symm⟩

theorem entry_append_of_not_mem {extra fs : Fs} {p : String} (h : p ∉ extra.map Prod.fst) :
    Fs.entry (extra ++ fs) p = fs.entry p := by
  have hnone : extra.lookup p = none := List.lookup_eq_none_iff.2 fun q hq =>
    bne_iff_ne.2 fun hpq => h (hpq ▸ List.mem_map_of_mem _ hq)
  rw [Fs.entry, List.lookup_append, hnone, Option.none_or]
  rfl

/-- Entries added at paths that are neither `d` nor directly in `d` leave its top level. -/
theorem sameTopLevel_append {extra fs : Fs} {d : String}
    (h : ∀ p ∈ extra.map Prod.fst, p ≠ d ∧ childName d p = none) :
    SameTopLevel (extra ++ fs) fs d :=
  ⟨entry_append_of_not_mem fun hm => (h d hm).1 rfl, fun n hne hn => entry_append_of_not_mem
    fun hm => by simpa [childName_eq_some_iff.2 ⟨hne, hn, (rfl : pathJoin d n = _)⟩] using
      (h _ hm).2⟩

/-- **`main` reads only the top level of its two directories.**  Two file systems that agree on
the two directories and on every entry directly in them give the same exit code, whatever else
they hold (subdirectories, other directories) and whatever the temporary directory. -/
theorem mainExitCode_frame {fs fs' : Fs} {tmpdir tmpdir' a b : String} (ha : fs.isDir a = true)
    (hb : fs.isDir b = true) (hsa : SameTopLevel fs fs' a) (hsb : SameTopLevel fs fs' b) :
    mainExitCode fs tmpdir a b = mainExitCode fs' tmpdir' a b := by
  have ha' : fs'.isDir a = true := hsa.sameDir.isDir ▸ ha
  have hb' : fs'.isDir b = true := hsb.sameDir.isDir ▸ hb
  rw [mainExitCode_of_isDir ha hb, mainExitCode_of_isDir ha' hb']
  exact if_congr (verdict_eq_some_false_congr hsa.sameDir hsb.sameDir) rfl rfl

theorem mainExitCode_frame_subdirectory :
    let doc := fun n : String => Node.elem (nsTag "DataSchemaModel") [] [.elem (nsTag "Model") []
      [.elem (nsTag "Element") [("Type", "SqlTable"), ("Name", n)] []]]
    let fs : Fs := [("rust", .dir), ("rust/model.xml", .file ⟨some [], some (doc "[dbo].[T]")⟩ none),
      ("dotnet", .dir), ("dotnet/model.xml", .file ⟨some [], some (doc "[dbo].[T]")⟩ none)]
    let extra : Fs := [("rust/obj/model.xml", .file ⟨some [], none⟩ none),
      ("dotnet-old/model.xml", .file ⟨some [], some (doc "[dbo].[U]")⟩ none)]
    fs.isDir "rust" = true ∧ fs.isDir "dotnet" = true ∧
      SameTopLevel fs (extra ++ fs) "rust" ∧ SameTopLevel fs (extra ++ fs) "dotnet" ∧
      mainExitCode fs "/tmp/w" "rust" "dotnet" =
        mainExitCode (extra ++ fs) "/tmp/v" "rust" "dotnet" := by
  intro doc fs extra
  have ha : fs.isDir "rust" = true := by decide
  have hb : fs.isDir "dotnet" = true := by decide
  have hsa : SameTopLevel fs (extra ++ fs) "rust" := (sameTopLevel_append (by decide)).symm
  have hsb : SameTopLevel fs (extra ++ fs) "dotnet" := (sameTopLevel_append (by decide)).symm
  exact ⟨ha, hb, hsa, hsb, mainExitCode_frame ha hb hsa hsb⟩

/-! ## An archive and the directory of its members

`extract_dacpac` writes each member of the archive under `tmpdir/<basename>`, the last member of
a name over the earlier ones.  When that directory was empty and the writing stays away from the
other argument, `main` sees in it exactly what it sees in any directory holding the same files:
comparing a dacpac is comparing the directory it extracts to. -/

/-- A directory's own prefix is a prefix of every path joined to it. -/
theorem isPrefix_pathJoin_empty (d : String) : d.data <+: (pathJoin d "").data := by
  unfold pathJoin
  split_ifs with h0 <;> simp at h0 ⊢

/-- A non-empty relative name joined to a directory is not the directory. -/
theorem pathJoin_ne_self {d n : String} (hn : n.data.head? ≠ some '/') (hne : n ≠ "") :
    pathJoin d n ≠ d := by
  intro h
  have hlen := congrArg (fun s : String => s.data.length) ((pathJoin_eq_append d hn).symm.trans h)
  have hn0 : n.data.length ≠ 0 := fun h0 => hne (String.ext (List.length_eq_zero.1 h0))
  have hd := (isPrefix_pathJoin_empty d).length_le
  simp only [String.data_append, List.length_append] at hlen
  omega

theorem pathJoin_inj {d m n : String} (hm : m.data.head? ≠ some '/') (hn : n.data.head? ≠ some '/') :
    pathJoin d m = pathJoin d n ↔ m = n := by
  rw [pathJoin_eq_append d hm, pathJoin_eq_append d hn]
  exact ⟨fun h => String.ext (by simpa using congrArg String.data h), fun h => h ▸ rfl⟩

/-- The entries `extractall` writes, looked up at a relative name. -/
theorem lookup_extracted {e n : String} (hn : n.data.head? ≠ some '/') :
    ∀ {ms : List (String × Contents)}, (∀ m ∈ ms, m.1.data.head? ≠ some '/') →
      (ms.map fun m => (pathJoin e m.1, FsEntry.file m.2 none)).lookup (pathJoin e n) =
        (ms.lookup n).map (FsEntry.file · none)
  | [], _ => rfl
  | (k, c) :: ms, h => by
    by_cases hkn : n = k
    · subst hkn
      simp [List.lookup_cons]
    · have hne : pathJoin e n ≠ pathJoin e k :=
        fun h' => hkn ((pathJoin_inj hn (h (k, c) (List.mem_cons_self _ _))).1 h')
      simp only [List.map_cons, List.lookup_cons, beq_false_of_ne hne, beq_false_of_ne hkn]
      exact lookup_extracted hn fun m hm => h m (List.mem_cons_of_mem _ hm)

/-- Every entry directly in `d` is under one of the names `ns`, so no other name holds anything. -/
theorem entry_eq_none_of_listing {fs : Fs} {d n : String} (ns : List String)
    (hout : ∀ x ∈ fs.map Prod.fst, (childName d x).all (· ∈ ns) = true) (hne : n ≠ "")
    (hn : '/' ∉ n.data) (hns : n ∉ ns) : fs.entry (pathJoin d n) = none := by
  cases h : fs.entry (pathJoin d n) with
  | none => rfl
  | some x =>
    have := hout _ (mem_map_fst_of_lookup h)
    rw [childName_eq_some_iff.2 ⟨hne, hn, rfl⟩] at this
    exact absurd (by simpa using this) hns

/-- Nothing in `fs` lies directly in `d`, so no name directly in `d` holds anything. -/
theorem entry_eq_none_of_fresh {fs : Fs} {d n : String}
    (hfresh : ∀ x ∈ fs.map Prod.fst, childName d x = none) (hne : n ≠ "") (hn : '/' ∉ n.data) :
    fs.entry (pathJoin d n) = none :=
  entry_eq_none_of_listing [] (fun x hx => by rw [hfresh x hx]; rfl) hne hn (List.not_mem_nil n)

/-- No member has the name, so looking it up finds nothing. -/
theorem lookup_reverse_eq_none {ms : List (String × Contents)} {n : String}
    (hm : n ∉ ms.map Prod.fst) : ms.reverse.lookup n = none :=
  List.lookup_eq_none_iff.2 fun m hmem =>
    bne_iff_ne.2 fun h => hm (by rw [h]; exact List.mem_map_of_mem _ (List.mem_reverse.1 hmem))

/-- Directory `d` holds the members `ms` of an archive: under each name directly in it, the last
member of that name as a file, and nothing under a name no member has. -/
def HoldsMembers (fs : Fs) (d : String) (ms : List (String × Contents)) : Prop :=
  fs.isDir d = true ∧ ∀ n, n ≠ "" → '/' ∉ n.data →
    fs.entry (pathJoin d n) = (ms.reverse.lookup n).map (FsEntry.file · none)

theorem HoldsMembers.sameDir {fs fs' : Fs} {d d' : String} {ms : List (String × Contents)}
    (h : HoldsMembers fs d ms) (h' : HoldsMembers fs' d' ms) : SameDir fs d fs' d' :=
  ⟨h.1.trans h'.1.symm, fun n hne hn => (h.2 n hne hn).trans (h'.2 n hne hn).symm⟩

/-- A directory holds the members when each member's name holds that member, last one winning,
and every file directly in it is named after a member. -/
theorem holdsMembers_of_listing {fs : Fs} {d : String} {ms : List (String × Contents)}
    (hd : fs.isDir d = true)
    (hin : ∀ m ∈ ms, fs.entry (pathJoin d m.1) = (ms.reverse.lookup m.1).map (FsEntry.file · none))
    (hout : ∀ x ∈ fs.map Prod.fst, (childName d x).all (· ∈ ms.map Prod.fst) = true) :
    HoldsMembers fs d ms := by
  refine ⟨hd, fun n hne hn => ?_⟩
  by_cases hm : n ∈ ms.map Prod.fst
  · obtain ⟨m, hmem, rfl⟩ := List.mem_map.1 hm
    exact hin m hmem
  · rw [lookup_reverse_eq_none hm, entry_eq_none_of_listing _ hout hne hn hm]
    rfl

/-- The file system after `extractall` of the members `ms` into `e`: each member written under
its name, the last member of a name in front, and the directory itself. -/
def extractAll (fs : Fs) (e : String) (ms : List (String × Contents)) : Fs :=
  ms.reverse.map (fun m => (pathJoin e m.1, FsEntry.file m.2 none)) ++ (e, .dir) :: fs

/-- `extract_dacpac` on an archive is `extractall` into `tmpdir/<basename>`. -/
theorem resolveDir_of_archive {fs : Fs} {tmpdir p : String} {c : Contents}
    {ms : List (String × Contents)} (hp : fs.entry p = some (.file c (some ms))) :
    resolveDir fs tmpdir p =
      some (extractAll fs (pathJoin tmpdir (basename p)) ms, pathJoin tmpdir (basename p)) := by
  have hnp : fs.isDir p = false := by simp [Fs.isDir, hp]
  simp [resolveDir, hnp, extractDacpac, extractAll, hp]

/-- The paths `extractall` writes: the directory, and one under it per member. -/
theorem mem_paths_extractAll {fs : Fs} {e x : String} {ms : List (String × Contents)} :
    x ∈ (extractAll fs e ms).map Prod.fst ↔
      x ∈ e :: ms.map (fun m => pathJoin e m.1) ∨ x ∈ fs.map Prod.fst := by
  simp only [extractAll, List.map_append, List.map_map, List.map_reverse, List.mem_append,
    List.mem_reverse, List.map_cons, List.mem_cons, Function.comp_def]
  tauto

theorem extractAll_eq_append (fs : Fs) (e : String) (ms : List (String × Contents)) :
    extractAll fs e ms = extractAll [] e ms ++ fs := by
  simp [extractAll]

theorem entry_extractAll_of_not_mem {fs : Fs} {e x : String} {ms : List (String × Contents)}
    (hx : x ∉ e :: ms.map (fun m => pathJoin e m.1)) : (extractAll fs e ms).entry x = fs.entry x := by
  rw [extractAll_eq_append]
  exact entry_append_of_not_mem fun h => hx (by simpa using mem_paths_extractAll.1 h)

/-- `extractall` leaves its directory a directory. -/
theorem isDir_extractAll {fs : Fs} {e : String} {ms : List (String × Contents)}
    (hms : ∀ m ∈ ms, m.1 ≠ "" ∧ m.1.data.head? ≠ some '/') : (extractAll fs e ms).isDir e = true := by
  have hnone : (ms.reverse.map fun m => (pathJoin e m.1, FsEntry.file m.2 none)).lookup e = none := by
    simp only [List.lookup_eq_none_iff, List.mem_map, List.mem_reverse]
    rintro _ ⟨m, hm, rfl⟩
    simpa using (pathJoin_ne_self (hms m hm).2 (hms m hm).1).symm
  simp only [extractAll, Fs.isDir, Fs.entry, List.lookup_append, hnone, Option.none_or,
    List.lookup_cons, beq_self_eq_true]

/-- After `extractall` into `e`, a name directly in `e` holds the last member of that name, or
what it held before. -/
theorem entry_extractAll_child {fs : Fs} {e n : String} {ms : List (String × Contents)}
    (hms : ∀ m ∈ ms, m.1.data.head? ≠ some '/') (hne : n ≠ "") (hn : '/' ∉ n.data) :
    (extractAll fs e ms).entry (pathJoin e n) =
      ((ms.reverse.lookup n).map (FsEntry.file · none)).or (fs.entry (pathJoin e n)) := by
  have hrev : ∀ m ∈ ms.reverse, m.1.data.head? ≠ some '/' :=
    fun m hm => hms m (List.mem_reverse.1 hm)
  have hne' : (pathJoin e n == e) = false :=
    beq_false_of_ne (pathJoin_ne_self (head?_ne_of_not_mem hn) hne)
  simp only [extractAll, Fs.entry, List.lookup_append, lookup_extracted (head?_ne_of_not_mem hn) hrev,
    List.lookup_cons, hne']

/-- **After `extractall` into a directory with nothing directly in it, the directory holds the
archive's members.** -/
theorem holdsMembers_extracted {fs : Fs} {e : String} {ms : List (String × Contents)}
    (hms : ∀ m ∈ ms, m.1 ≠ "" ∧ m.1.data.head? ≠ some '/')
    (hfresh : ∀ x ∈ fs.map Prod.fst, childName e x = none) : HoldsMembers (extractAll fs e ms) e ms :=
  ⟨isDir_extractAll hms, fun n hne hn => by
    rw [entry_extractAll_child (fun m hm => (hms m hm).2) hne hn, entry_eq_none_of_fresh hfresh hne hn,
      Option.or_none]⟩

/-- A second `extractall` into a directory that holds members adds its own, winning the names
both have. -/
theorem HoldsMembers.extracted {fs : Fs} {e : String} {ms ms' : List (String × Contents)}
    (h : HoldsMembers fs e ms) (hms' : ∀ m ∈ ms', m.1 ≠ "" ∧ m.1.data.head? ≠ some '/') :
    HoldsMembers (extractAll fs e ms') e (ms ++ ms') :=
  ⟨isDir_extractAll hms', fun n hne hn => by
    rw [entry_extractAll_child (fun m hm => (hms' m hm).2) hne hn, h.2 n hne hn, List.reverse_append,
      List.lookup_append, Option.map_or']⟩

/-- `extractall` writes nothing at `q` or directly in it, so `q` keeps its top level. -/
theorem sameTopLevel_extracted {fs : Fs} {e q : String} {ms : List (String × Contents)}
    (hsep : ∀ x ∈ e :: ms.map (fun m => pathJoin e m.1), x ≠ q ∧ childName q x = none) :
    SameTopLevel (extractAll fs e ms) fs q := by
  rw [extractAll_eq_append]
  exact sameTopLevel_append fun x hx => hsep x (by simpa using mem_paths_extractAll.1 hx)

/-- **A dacpac compares as the directory of its files.**  Let `p` be an archive whose members
have non-empty names without `/`, extracted into a directory `tmpdir/<basename>` with nothing in
it, and let `q` be a directory whose top level the extraction does not write to.  Then `main` on
`p` and `q`, in either order, exits with the code it gives on any directory `d` that holds the
archive's members in place of `p`.  A member named `a/b` would make `extractall` create the
directory `a` as well, which `extractAll` leaves out and `main` can see, so names are flat. -/
theorem mainExitCode_archive_eq_dir {fs : Fs} {tmpdir p q d : String} {c : Contents}
    {ms : List (String × Contents)} (hp : fs.entry p = some (.file c (some ms)))
    (hms : ∀ m ∈ ms, m.1 ≠ "" ∧ '/' ∉ m.1.data)
    (hfresh : ∀ x ∈ fs.map Prod.fst, childName (pathJoin tmpdir (basename p)) x = none)
    (hq : fs.isDir q = true)
    (hsep : ∀ x ∈ pathJoin tmpdir (basename p) ::
      ms.map (fun m => pathJoin (pathJoin tmpdir (basename p)) m.1), x ≠ q ∧ childName q x = none)
    (hd : HoldsMembers fs d ms) :
    mainExitCode fs tmpdir p q = mainExitCode fs tmpdir d q ∧
      mainExitCode fs tmpdir q p = mainExitCode fs tmpdir q d := by
  have hext := @resolveDir_of_archive fs tmpdir p c ms hp
  have hheld := @holdsMembers_extracted fs _ _ (fun m hm => ⟨(hms m hm).1, head?_ne_of_not_mem (hms m hm).2⟩)
    hfresh
  have hsq := (@sameTopLevel_extracted fs _ _ _ hsep).sameDir
  have hq' := hsq.isDir.trans hq
  rw [mainExitCode_of_resolve hext (resolveDir_of_isDir hq'), mainExitCode_of_isDir hd.1 hq,
    mainExitCode_of_resolve (resolveDir_of_isDir hq) hext, mainExitCode_of_isDir hq hd.1]
  exact ⟨if_congr (verdict_eq_some_false_congr (hheld.sameDir hd) hsq) rfl rfl,
    if_congr (verdict_eq_some_false_congr hsq (hheld.sameDir hd)) rfl rfl⟩

theorem mainExitCode_archive_eq_dir_bin :
    let doc := fun n : String => Node.elem (nsTag "DataSchemaModel") [] [.elem (nsTag "Model") []
      [.elem (nsTag "Element") [("Type", "SqlTable"), ("Name", n)] []]]
    let ms : List (String × Contents) :=
      [("model.xml", ⟨some [], some (doc "[dbo].[T]")⟩), ("Origin.xml", ⟨some ["<a/>"], none⟩)]
    let fs : Fs := [("bin/Db.dacpac", .file ⟨some [], none⟩ (some ms)),
      ("out", .dir), ("out/model.xml", .file ⟨some [], some (doc "[dbo].[T]")⟩ none),
      ("out/Origin.xml", .file ⟨some ["<a/>"], none⟩ none),
      ("dotnet", .dir), ("dotnet/model.xml", .file ⟨some [], some (doc "[dbo].[U]")⟩ none)]
    fs.entry "bin/Db.dacpac" = some (.file ⟨some [], none⟩ (some ms)) ∧
      (∀ m ∈ ms, m.1 ≠ "" ∧ '/' ∉ m.1.data) ∧
      (∀ x ∈ fs.map Prod.fst, childName (pathJoin "/tmp/w" (basename "bin/Db.dacpac")) x = none) ∧
      fs.isDir "dotnet" = true ∧
      (∀ x ∈ pathJoin "/tmp/w" (basename "bin/Db.dacpac") :: ms.map (fun m =>
        pathJoin (pathJoin "/tmp/w" (basename "bin/Db.dacpac")) m.1),
        x ≠ "dotnet" ∧ childName "dotnet" x = none) ∧
      HoldsMembers fs "out" ms ∧
      (mainExitCode fs "/tmp/w" "bin/Db.dacpac" "dotnet" = mainExitCode fs "/tmp/w" "out" "dotnet" ∧
        mainExitCode fs "/tmp/w" "dotnet" "bin/Db.dacpac" = mainExitCode fs "/tmp/w" "dotnet" "out") := by
  intro doc ms fs
  have hp : fs.entry "bin/Db.dacpac" = some (.file ⟨some [], none⟩ (some ms)) := rfl
  have hms : ∀ m ∈ ms, m.1 ≠ "" ∧ '/' ∉ m.1.data := by decide
  have hfresh : ∀ x ∈ fs.map Prod.fst,
      childName (pathJoin "/tmp/w" (basename "bin/Db.dacpac")) x = none := by decide
  have hq : fs.isDir "dotnet" = true := by decide
  have hsep : ∀ x ∈ pathJoin "/tmp/w" (basename "bin/Db.dacpac") :: ms.map (fun m =>
      pathJoin (pathJoin "/tmp/w" (basename "bin/Db.dacpac")) m.1),
      x ≠ "dotnet" ∧ childName "dotnet" x = none := by decide
  have hd : HoldsMembers fs "out" ms := holdsMembers_of_listing (by decide)
    (fun m hm => by
      simp only [ms, List.mem_cons, List.mem_singleton, List.not_mem_nil, or_false] at hm
      rcases hm with rfl | rfl <;> rfl)
    (by decide)
  exact ⟨hp, hms, hfresh, hq, hsep, hd, mainExitCode_archive_eq_dir hp hms hfresh hq hsep hd⟩

/-! ## Two archives

With both arguments archives, the first is extracted into `tmpdir/<basename>`, then the second
into its own.  When the two directories are kept apart — neither extraction writes at the other
archive, at the other directory or directly in it — each holds its own archive's members
whichever is extracted first, and `main` gives the same code in either order.  With one base name
the two directories are one, holding the members of both with the second archive's winning a
name they share: the order decides what is compared (`mainExitCode_swap_same_basename`), and the
run compares that one directory with itself. -/

theorem HoldsMembers.of_sameTopLevel {fs fs' : Fs} {d : String} {ms : List (String × Contents)}
    (h : HoldsMembers fs d ms) (hs : SameTopLevel fs' fs d) : HoldsMembers fs' d ms :=
  ⟨hs.sameDir.isDir.trans h.1, fun n hne hn => (hs.child n hne hn).trans (h.2 n hne hn)⟩

/-- A second extraction kept apart from the first leaves both directories holding their members. -/
theorem holdsMembers_extracted_twice {fs : Fs} {e e' : String} {ms ms' : List (String × Contents)}
    (hms : ∀ m ∈ ms, m.1 ≠ "" ∧ m.1.data.head? ≠ some '/')
    (hms' : ∀ m ∈ ms', m.1 ≠ "" ∧ m.1.data.head? ≠ some '/')
    (hf : ∀ x ∈ fs.map Prod.fst, childName e x = none)
    (hf' : ∀ x ∈ fs.map Prod.fst, childName e' x = none)
    (hsep : ∀ x ∈ e :: ms.map (fun m => pathJoin e m.1), childName e' x = none)
    (hsep' : ∀ x ∈ e' :: ms'.map (fun m => pathJoin e' m.1), x ≠ e ∧ childName e x = none) :
    HoldsMembers (extractAll (extractAll fs e ms) e' ms') e ms ∧
      HoldsMembers (extractAll (extractAll fs e ms) e' ms') e' ms' :=
  ⟨(holdsMembers_extracted hms hf).of_sameTopLevel (sameTopLevel_extracted hsep'),
    holdsMembers_extracted hms' fun x hx => (mem_paths_extractAll.1 hx).elim (hsep x) (hf' x)⟩

/-- **On two archives extracted apart, `main` is symmetric.**  Let `p` and `q` be archives whose
members have non-empty relative names, each extracted into a `tmpdir/<basename>` with nothing
directly in it, and let neither extraction write at the other archive, at the other's directory
or directly in it.  Then `main` exits with the same code on `(p, q)` as on `(q, p)`. -/
theorem mainExitCode_comm_of_archives {fs : Fs} {tmpdir p q : String} {cp cq : Contents}
    {msp msq : List (String × Contents)} (hp : fs.entry p = some (.file cp (some msp)))
    (hq : fs.entry q = some (.file cq (some msq)))
    (hmsp : ∀ m ∈ msp, m.1 ≠ "" ∧ m.1.data.head? ≠ some '/')
    (hmsq : ∀ m ∈ msq, m.1 ≠ "" ∧ m.1.data.head? ≠ some '/')
    (hfp : ∀ x ∈ fs.map Prod.fst, childName (pathJoin tmpdir (basename p)) x = none)
    (hfq : ∀ x ∈ fs.map Prod.fst, childName (pathJoin tmpdir (basename q)) x = none)
    (hsp : ∀ x ∈ pathJoin tmpdir (basename p) ::
      msp.map (fun m => pathJoin (pathJoin tmpdir (basename p)) m.1),
      x ≠ q ∧ x ≠ pathJoin tmpdir (basename q) ∧ childName (pathJoin tmpdir (basename q)) x = none)
    (hsq : ∀ x ∈ pathJoin tmpdir (basename q) ::
      msq.map (fun m => pathJoin (pathJoin tmpdir (basename q)) m.1),
      x ≠ p ∧ x ≠ pathJoin tmpdir (basename p) ∧ childName (pathJoin tmpdir (basename p)) x = none) :
    mainExitCode fs tmpdir p q = mainExitCode fs tmpdir q p := by
  have hq₁ : (extractAll fs (pathJoin tmpdir (basename p)) msp).entry q = some (.file cq (some msq)) :=
    (entry_extractAll_of_not_mem fun h => (hsp q h).1 rfl).trans hq
  have hp₁ : (extractAll fs (pathJoin tmpdir (basename q)) msq).entry p = some (.file cp (some msp)) :=
    (entry_extractAll_of_not_mem fun h => (hsq p h).1 rfl).trans hp
  obtain ⟨hPp, hPq⟩ := holdsMembers_extracted_twice hmsp hmsq hfp hfq (fun x hx => (hsp x hx).2.2)
    fun x hx => (hsq x hx).2
  obtain ⟨hQq, hQp⟩ := holdsMembers_extracted_twice hmsq hmsp hfq hfp (fun x hx => (hsq x hx).2.2)
    fun x hx => (hsp x hx).2
  rw [mainExitCode_of_resolve (resolveDir_of_archive hp) (resolveDir_of_archive hq₁),
    mainExitCode_of_resolve (resolveDir_of_archive hq) (resolveDir_of_archive hp₁)]
  refine if_congr ?_ rfl rfl
  rw [verdict_eq_some_false_congr (hPp.sameDir hQp) (hPq.sameDir hQq), verdict_eq_some_false_iff,
    verdict_eq_some_false_iff]
  exact ⟨DirsAgree.symm, DirsAgree.symm⟩

theorem mainExitCode_comm_of_archives_two_names :
    let doc := fun cs : List Node => Node.elem (nsTag "DataSchemaModel") [] [.elem (nsTag "Model") []
      cs]
    let t := Node.elem (nsTag "Element") [("Type", "SqlTable"), ("Name", "[dbo].[T]")] []
    let v := Node.elem (nsTag "Element") [("Type", "SqlView"), ("Name", "[dbo].[V]")] []
    let msp : List (String × Contents) := [("model.xml", ⟨some [], some (doc [t])⟩)]
    let msq : List (String × Contents) :=
      [("model.xml", ⟨some [], some (doc [t, v])⟩), ("predeploy.sql", ⟨some ["GO"], none⟩)]
    let fs : Fs := [("rust/Db.dacpac", .file ⟨some [], none⟩ (some msp)),
      ("dotnet/Db.Reference.dacpac", .file ⟨some [], none⟩ (some msq))]
    fs.entry "rust/Db.dacpac" = some (.file ⟨some [], none⟩ (some msp)) ∧
      fs.entry "dotnet/Db.Reference.dacpac" = some (.file ⟨some [], none⟩ (some msq)) ∧
      (∀ m ∈ msp, m.1 ≠ "" ∧ m.1.data.head? ≠ some '/') ∧
      (∀ m ∈ msq, m.1 ≠ "" ∧ m.1.data.head? ≠ some '/') ∧
      (∀ x ∈ fs.map Prod.fst, childName (pathJoin "/tmp/w" (basename "rust/Db.dacpac")) x = none) ∧
      (∀ x ∈ fs.map Prod.fst,
        childName (pathJoin "/tmp/w" (basename "dotnet/Db.Reference.dacpac")) x = none) ∧
      (∀ x ∈ pathJoin "/tmp/w" (basename "rust/Db.dacpac") ::
        msp.map (fun m => pathJoin (pathJoin "/tmp/w" (basename "rust/Db.dacpac")) m.1),
        x ≠ "dotnet/Db.Reference.dacpac" ∧
          x ≠ pathJoin "/tmp/w" (basename "dotnet/Db.Reference.dacpac") ∧
          childName (pathJoin "/tmp/w" (basename "dotnet/Db.Reference.dacpac")) x = none) ∧
      (∀ x ∈ pathJoin "/tmp/w" (basename "dotnet/Db.Reference.dacpac") ::
        msq.map (fun m => pathJoin (pathJoin "/tmp/w" (basename "dotnet/Db.Reference.dacpac")) m.1),
        x ≠ "rust/Db.dacpac" ∧ x ≠ pathJoin "/tmp/w" (basename "rust/Db.dacpac") ∧
          childName (pathJoin "/tmp/w" (basename "rust/Db.dacpac")) x = none) ∧
      mainExitCode fs "/tmp/w" "rust/Db.dacpac" "dotnet/Db.Reference.dacpac" =
        mainExitCode fs "/tmp/w" "dotnet/Db.Reference.dacpac" "rust/Db.dacpac" := by
  intro doc t v msp msq fs
  have hp : fs.entry "rust/Db.dacpac" = some (.file ⟨some [], none⟩ (some msp)) := rfl
  have hq : fs.entry "dotnet/Db.Reference.dacpac" = some (.file ⟨some [], none⟩ (some msq)) := rfl
  have hmsp : ∀ m ∈ msp, m.1 ≠ "" ∧ m.1.data.head? ≠ some '/' := by decide
  have hmsq : ∀ m ∈ msq, m.1 ≠ "" ∧ m.1.data.head? ≠ some '/' := by decide
  have hfp : ∀ x ∈ fs.map Prod.fst,
      childName (pathJoin "/tmp/w" (basename "rust/Db.dacpac")) x = none := by decide
  have hfq : ∀ x ∈ fs.map Prod.fst,
      childName (pathJoin "/tmp/w" (basename "dotnet/Db.Reference.dacpac")) x = none := by decide
  have hsp : ∀ x ∈ pathJoin "/tmp/w" (basename "rust/Db.dacpac") ::
      msp.map (fun m => pathJoin (pathJoin "/tmp/w" (basename "rust/Db.dacpac")) m.1),
      x ≠ "dotnet/Db.Reference.dacpac" ∧
        x ≠ pathJoin "/tmp/w" (basename "dotnet/Db.Reference.dacpac") ∧
        childName (pathJoin "/tmp/w" (basename "dotnet/Db.Reference.dacpac")) x = none := by decide
  have hsq : ∀ x ∈ pathJoin "/tmp/w" (basename "dotnet/Db.Reference.dacpac") ::
      msq.map (fun m => pathJoin (pathJoin "/tmp/w" (basename "dotnet/Db.Reference.dacpac")) m.1),
      x ≠ "rust/Db.dacpac" ∧ x ≠ pathJoin "/tmp/w" (basename "rust/Db.dacpac") ∧
        childName (pathJoin "/tmp/w" (basename "rust/Db.dacpac")) x = none := by decide
  exact ⟨hp, hq, hmsp, hmsq, hfp, hfq, hsp, hsq,
    mainExitCode_comm_of_archives hp hq hmsp hmsq hfp hfq hsp hsq⟩

theorem parseEntry_map_file (o : Option Contents) :
    parseEntry (o.map (FsEntry.file · none)) = o.map Contents.xml := by
  cases o <;> rfl

theorem all_readLines_map_file (o : Option Contents) :
    ((o.map (FsEntry.file · none)).all fun e => (readLines e).isSome) =
      (o.map Contents.lines).all Option.isSome := by
  cases o <;> rfl

/-- **Two archives with one base name: the run compares one directory with itself.**  Both are
extracted into `tmpdir/<basename>`, the second over the first, so `main` exits `0` whatever the
two archives hold apart from what the merged directory shows: under each name, the last member of
that name in the second archive, or else in the first.  It is enough that those simple XML files
parse, those text files decode, and the model is well formed.  Member names are non-empty and
without `/`, as for `mainExitCode_archive_eq_dir`; the directory starts empty, and the second
archive is not where the first is extracted. -/
theorem mainExitCode_same_basename_eq_zero {fs : Fs} {tmpdir pathA pathB : String}
    {cA cB : Contents} {msA msB : List (String × Contents)} {M : Node}
    (hpA : fs.entry pathA = some (.file cA (some msA)))
    (hpB : fs.entry pathB = some (.file cB (some msB)))
    (hbase : basename pathA = basename pathB)
    (hms : ∀ m ∈ msA ++ msB, m.1 ≠ "" ∧ '/' ∉ m.1.data)
    (hfresh : ∀ x ∈ fs.map Prod.fst, childName (pathJoin tmpdir (basename pathA)) x = none)
    (hsep : pathB ∉ pathJoin tmpdir (basename pathA) ::
      msA.map (fun m => pathJoin (pathJoin tmpdir (basename pathA)) m.1))
    (hxml : ∀ n ∈ ["DacMetadata.xml", "[Content_Types].xml"],
      (((msA ++ msB).reverse.lookup n).map Contents.xml).all Option.isSome)
    (htext : ∀ n ∈ ["predeploy.sql", "postdeploy.sql"],
      (((msA ++ msB).reverse.lookup n).map Contents.lines).all Option.isSome)
    (hunknown : ∀ n ∈ (msA ++ msB).map Prod.fst, n ∉ knownFiles →
      (((msA ++ msB).reverse.lookup n).map Contents.lines).all Option.isSome)
    (hmodel : ((msA ++ msB).reverse.lookup "model.xml").bind Contents.xml = some M) (hM : DocOk M) :
    mainExitCode fs tmpdir pathA pathB = 0 := by
  set e := pathJoin tmpdir (basename pathA)
  have hflat : ∀ m ∈ msA ++ msB, m.1 ≠ "" ∧ m.1.data.head? ≠ some '/' :=
    fun m hm => ⟨(hms m hm).1, head?_ne_of_not_mem (hms m hm).2⟩
  have hheld := (holdsMembers_extracted (fun m hm => hflat m (List.mem_append_left _ hm))
    hfresh).extracted fun m hm => hflat m (List.mem_append_right _ hm)
  have hB : resolveDir (extractAll fs e msA) tmpdir pathB =
      some (extractAll (extractAll fs e msA) e msB, e) := by
    rw [resolveDir_of_archive ((entry_extractAll_of_not_mem hsep).trans hpB), ← hbase]
  have hxk : ∀ n ∈ ["DacMetadata.xml", "[Content_Types].xml"], n ≠ "" ∧ '/' ∉ n.data := by decide
  have htk : ∀ n ∈ ["predeploy.sql", "postdeploy.sql"], n ≠ "" ∧ '/' ∉ n.data := by decide
  have hagree : DirsAgree (extractAll (extractAll fs e msA) e msB) e e := by
    refine dirsAgree_self (fun n hn => ?_) (fun n hn => ?_) (fun n hn hk => ?_) ?_ hM
    · rw [hheld.2 n (hxk n hn).1 (hxk n hn).2, parseEntry_map_file]
      exact hxml n hn
    · rw [hheld.2 n (htk n hn).1 (htk n hn).2, all_readLines_map_file]
      exact htext n hn
    · obtain ⟨-, hne, hsl, -⟩ := mem_listFiles.1 hn
      rw [hheld.2 n hne hsl, all_readLines_map_file]
      by_cases hm : n ∈ (msA ++ msB).map Prod.fst
      · exact hunknown n hm hk
      · rw [lookup_reverse_eq_none hm]
        rfl
    · obtain ⟨c, hc, hx⟩ := Option.bind_eq_some.1 hmodel
      rw [hheld.2 "model.xml" (by decide) (by decide), parseEntry_map_file, hc, Option.map_some', hx]
  rw [mainExitCode_of_resolve (resolveDir_of_archive hpA) hB,
    if_pos (verdict_eq_some_false_iff.2 hagree)]

/-- Two archives named `Db.dacpac` that differ in `predeploy.sql`: the run reads the dotnet
package's on both sides. -/
theorem mainExitCode_same_basename_eq_zero_predeploy :
    let doc := Node.elem (nsTag "DataSchemaModel") [] [.elem (nsTag "Model") [] []]
    let msA : List (String × Contents) := [("model.xml", ⟨some [], some doc⟩),
      ("predeploy.sql", ⟨some ["a"], none⟩), ("notes.txt", ⟨none, none⟩)]
    let msB : List (String × Contents) := [("model.xml", ⟨some [], some doc⟩),
      ("predeploy.sql", ⟨some ["b"], none⟩), ("notes.txt", ⟨some ["x"], none⟩)]
    let fs : Fs := [("target/Db.dacpac", .file ⟨none, none⟩ (some msA)),
      ("bin/Debug/Db.dacpac", .file ⟨none, none⟩ (some msB))]
    mainExitCode fs "/tmp/w" "target/Db.dacpac" "bin/Debug/Db.dacpac" = 0 := by
  intro doc msA msB fs
  exact mainExitCode_same_basename_eq_zero (M := doc) rfl rfl rfl (by decide) (by decide) (by decide) (by decide) (by decide) (by decide) rfl
    (by decide)

end DacpacCompare
