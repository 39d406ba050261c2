import Mathlib.Data.List.Nodup
import Mathlib.Data.List.Perm.Basic
import Conformance.Runner.Discovery
import Conformance.Proofs.Files.Tree

/-!
# What discovery finds

A given path reaches itself, if it leads to a suite file, and the suite files below it, if it leads
to a directory. Discovery finds what the given paths reach, once for each given path, sorted by
path. So what it finds depends only on which files exist.
-/

namespace Conformance

variable {extension directory given path : String} {fs fs' : FileSystem} {e : Entry}
  {f : SuiteFile}

namespace Entry

open FileSystem

/-- The suite files of an entry of a directory at a path. -/
def suiteFilesOf (extension directory : String) (entry : String × Entry) : List SuiteFile :=
  if maxPathLength < (Path.join directory entry.1).utf8ByteSize then []
  else suiteFiles extension (Path.join directory entry.1) entry.2

theorem mem_suiteFilesOf_iff {entry : String × Entry} :
    f ∈ suiteFilesOf extension directory entry ↔
      (Path.join directory entry.1).utf8ByteSize ≤ maxPathLength ∧
        f ∈ suiteFiles extension (Path.join directory entry.1) entry.2 := by
  rw [suiteFilesOf, ← Nat.not_lt]
  split_ifs with hlong <;> simp [hlong]

theorem suiteFiles_directory (extension directory : String) (entries : List (String × Entry)) :
    suiteFiles extension directory (.directory entries) =
      entries.flatMap (suiteFilesOf extension directory) := by
  rw [suiteFiles]
  induction entries with
  | nil => rfl
  | cons entry rest ih =>
      rw [suiteFilesBelow, ih, List.flatMap_cons]
      rfl

theorem mem_suiteFiles_file_iff {content : Except FileError String} :
    f ∈ suiteFiles extension given (.file content) ↔
      Path.extension? given = some extension ∧ f = ⟨given, content⟩ := by
  rw [suiteFiles]
  split_ifs with h <;> simp [h]

/-- The suite files of what is at a path are those at the path and below it. -/
theorem mem_suiteFiles_iff (htree : fs.IsTree) (hgiven : given ≠ "")
    (hentry : fs.resolve given = .ok e) :
    f ∈ suiteFiles extension given e ↔ Path.extension? f.path = some extension ∧
      fs.resolve f.path = .ok (.file f.content) ∧
        (f.path = given ∨ Path.Below given f.path) := by
  induction isTree_of_resolve htree hentry generalizing given with
  | file content =>
      rw [mem_suiteFiles_file_iff]
      constructor
      · rintro ⟨hextension, rfl⟩
        exact ⟨hextension, hentry, .inl rfl⟩
      · obtain ⟨p, content'⟩ := f
        rintro ⟨hextension, hfile, rfl | hbelow⟩
        · cases hentry.symm.trans hfile
          exact ⟨hextension, rfl⟩
        · obtain ⟨entries, hdirectory⟩ :=
            isDirectory_of_below htree hgiven hbelow ⟨content', hfile⟩
          cases hentry.symm.trans hdirectory
  | @directory entries hnames hdistinct htrees ih =>
      simp only [suiteFiles_directory, List.mem_flatMap, mem_suiteFilesOf_iff]
      constructor
      · rintro ⟨⟨name, inner⟩, hmem, hfits, hf⟩
        have hname := hnames _ hmem
        have hinner : fs.resolve (Path.join given name) = .ok inner :=
          (resolve_join_eq_ok_iff htree hgiven hname).2 ⟨hfits, entries, hentry, hmem⟩
        obtain ⟨hextension, hfile, hreached⟩ :=
          (ih _ hmem (Path.join_ne_empty given name) hinner).1 hf
        exact ⟨hextension, hfile, .inr (Path.below_iff.2 ⟨name, hname, hreached⟩)⟩
      · rintro ⟨hextension, hfile, rfl | hbelow⟩
        · cases hentry.symm.trans hfile
        · obtain ⟨name, hname, hreached⟩ := Path.below_iff.1 hbelow
          have hne := Path.join_ne_empty given name
          -- Whether the name is the last one or not, something is there.
          have hsome : ∃ inner, fs.resolve (Path.join given name) = .ok inner := by
            obtain heq | hdeeper := hreached
            · exact ⟨_, heq ▸ hfile⟩
            · obtain ⟨inner, hinner⟩ :=
                isDirectory_of_below htree hne hdeeper ⟨_, hfile⟩
              exact ⟨_, hinner⟩
          obtain ⟨inner, hinner⟩ := hsome
          obtain ⟨hfits, entries', hentries, hmem⟩ :=
            (resolve_join_eq_ok_iff htree hgiven hname).1 hinner
          cases hentry.symm.trans hentries
          have hf := (ih _ hmem hne hinner).2 ⟨hextension, hfile, hreached⟩
          exact ⟨(name, inner), hmem, hfits, hf⟩

/-- What is found in an entry has its name behind the segments of the directory. -/
theorem stem_prefix_of_mem (htree : fs.IsTree) (hdirectory : directory ≠ "")
    {entries : List (String × Entry)} {entry : String × Entry}
    (hentries : fs.resolve directory = .ok (.directory entries)) (hmem : entry ∈ entries)
    (hf : f ∈ suiteFilesOf extension directory entry) :
    Path.stem (Path.join directory entry.1) <+: Path.stem f.path := by
  obtain ⟨hfits, hf⟩ := mem_suiteFilesOf_iff.1 hf
  have hname := (isTree_of_resolve htree hentries).isName hmem
  have hentry : fs.resolve (Path.join directory entry.1) = .ok entry.2 :=
    (resolve_join_eq_ok_iff htree hdirectory hname).2 ⟨hfits, entries, hentries, hmem⟩
  obtain ⟨-, -, heq | hbelow⟩ :=
    (mem_suiteFiles_iff htree (Path.join_ne_empty directory entry.1) hentry).1 hf
  · exact heq ▸ List.prefix_rfl
  · exact hbelow.stem_prefix

/-- No path is found twice in what is at one path. -/
theorem nodup_suiteFiles (htree : fs.IsTree) (hgiven : given ≠ "")
    (hentry : fs.resolve given = .ok e) :
    ((suiteFiles extension given e).map (·.path)).Nodup := by
  induction isTree_of_resolve htree hentry generalizing given with
  | file content =>
      rw [suiteFiles]
      split_ifs
      · exact List.pairwise_singleton _ _
      · exact .nil
  | @directory entries hnames hdistinct htrees ih =>
      rw [suiteFiles_directory, List.map_flatMap, List.nodup_flatMap]
      constructor
      · intro entry hmem
        rw [suiteFilesOf]
        split_ifs with hlong
        · exact .nil
        · exact ih entry hmem (Path.join_ne_empty given entry.1)
            ((resolve_join_eq_ok_iff htree hgiven (hnames _ hmem)).2
              ⟨Nat.not_lt.1 hlong, entries, hentry, hmem⟩)
      · refine (List.pairwise_map.1 hdistinct).imp_of_mem ?_
        intro entry entry' hmem hmem' hdiffer path hpath hpath'
        obtain ⟨f, hf, rfl⟩ := List.mem_map.1 hpath
        obtain ⟨f', hf', heq⟩ := List.mem_map.1 hpath'
        have hstem := stem_prefix_of_mem htree hgiven hentry hmem hf
        have hstem' := stem_prefix_of_mem htree hgiven hentry hmem' hf'
        rw [heq] at hstem'
        exact hdiffer
          (Path.name_eq_of_stem_prefix (hnames _ hmem) (hnames _ hmem') hstem hstem')

end Entry

/-- Whether a given path reaches a suite file: it is its path, or that of a directory that the file
is below. -/
def Files.Reaches (files : Files) (extension given path : String) : Prop :=
  Path.extension? path = some extension ∧ files.IsFile path ∧
    (path = given ∨ files.IsDirectory given ∧ Path.Below given path)

theorem FileSystem.reaches_iff (htree : fs.IsTree) :
    fs.files.Reaches extension given path ↔
      Path.extension? path = some extension ∧ fs.files.IsFile path ∧
        (path = given ∨ given ≠ "" ∧ Path.Below given path) := by
  refine and_congr_right fun _ => and_congr_right fun hfile => or_congr_right ?_
  refine and_congr_left fun hbelow => ⟨?_, fun hgiven => ?_⟩
  · rintro ⟨entries, hentries⟩
    exact (FileSystem.resolve_eq_ok_iff.1 hentries).1
  · exact isDirectory_of_below htree hgiven hbelow hfile

namespace SuiteFile

open scoped List

/-- The paths of the suite files that a given path reaches. -/
def reachedPaths (files : Files) (extension given : String) : List String :=
  (reachedFrom files extension given).map (·.path)

/-- The paths that discovery returns. -/
def discovered (files : Files) (extension : String) (paths : List String) : List String :=
  (discover files extension paths).map (·.path)

theorem reachedPaths_of_error {files : Files} {cause : FileError}
    (hentry : files.entry given = .error cause) : reachedPaths files extension given = [] := by
  rw [reachedPaths, reachedFrom, hentry]
  rfl

theorem reachedPaths_of_ok {files : Files} (hentry : files.entry given = .ok e) :
    reachedPaths files extension given = (e.suiteFiles extension given).map (·.path) := by
  rw [reachedPaths, reachedFrom, hentry]

theorem mem_reachedPaths_iff (htree : fs.IsTree) :
    path ∈ reachedPaths fs.files extension given ↔
      fs.files.Reaches extension given path := by
  cases hentry : fs.files.entry given with
  | error cause =>
      rw [reachedPaths_of_error hentry]
      constructor
      · exact nofun
      · rintro ⟨-, ⟨content, hfile⟩, rfl | ⟨⟨entries, hdirectory⟩, -⟩⟩
        · cases hentry.symm.trans hfile
        · cases hentry.symm.trans hdirectory
  | ok e =>
      have hgiven := (FileSystem.resolve_eq_ok_iff.1 hentry).1
      rw [FileSystem.reaches_iff htree, reachedPaths_of_ok hentry, List.mem_map]
      simp only [Entry.mem_suiteFiles_iff htree hgiven hentry]
      constructor
      · rintro ⟨f, ⟨hextension, hfile, hreached⟩, rfl⟩
        exact ⟨hextension, ⟨f.content, hfile⟩, hreached.imp_right fun hbelow => ⟨hgiven, hbelow⟩⟩
      · rintro ⟨hextension, ⟨content, hfile⟩, hreached⟩
        exact ⟨⟨path, content⟩, ⟨hextension, hfile, hreached.imp_right And.right⟩, rfl⟩

theorem nodup_reachedPaths (htree : fs.IsTree) (extension given : String) :
    (reachedPaths fs.files extension given).Nodup := by
  cases hentry : fs.files.entry given with
  | error cause =>
      rw [reachedPaths_of_error hentry]
      exact .nil
  | ok e =>
      rw [reachedPaths_of_ok hentry]
      exact Entry.nodup_suiteFiles htree (FileSystem.resolve_eq_ok_iff.1 hentry).1 hentry

theorem discovered_sorted (files : Files) (extension : String) (paths : List String) :
    (discovered files extension paths).Pairwise fun p q => (Path.compare p q).isLE := by
  refine List.pairwise_map.2 (List.pairwise_mergeSort (fun a b c => ?_) (fun a b => ?_) _)
  · exact Path.isLE_trans
  · rw [Bool.or_eq_true]
    exact Path.isLE_total a.path b.path

theorem discovered_perm (files : Files) (extension : String) (paths : List String) :
    discovered files extension paths ~ paths.flatMap (reachedPaths files extension) := by
  have hpaths := (List.mergeSort_perm (paths.flatMap (reachedFrom files extension)) precedes).map
    (·.path)
  rwa [List.map_flatMap] at hpaths

/-- Discovery depends only on which files exist, and not on the order of the given paths. -/
theorem discovered_congr (htree : fs.IsTree) (htree' : fs'.IsTree)
    (hfiles : ∀ path, fs'.files.IsFile path ↔
      fs.files.IsFile path) {paths paths' : List String}
    (hpaths : paths' ~ paths) :
    (discovered fs'.files extension paths').map Path.components =
      (discovered fs.files extension paths).map Path.components := by
  have hreached (given : String) : reachedPaths fs'.files extension given ~
      reachedPaths fs.files extension given := by
    apply (List.perm_ext_iff_of_nodup (nodup_reachedPaths htree' extension given)
      (nodup_reachedPaths htree extension given)).2
    intro path
    rw [mem_reachedPaths_iff htree', mem_reachedPaths_iff htree, FileSystem.reaches_iff htree',
      FileSystem.reaches_iff htree, hfiles]
  apply Path.map_components_eq_of_perm _ (discovered_sorted _ _ _) (discovered_sorted _ _ _)
  calc discovered fs'.files extension paths'
    _ ~ paths'.flatMap (reachedPaths fs'.files extension) := discovered_perm _ _ _
    _ ~ paths.flatMap (reachedPaths fs.files extension) :=
      hpaths.flatMap fun given _ => hreached given
    _ ~ discovered fs.files extension paths := (discovered_perm _ _ _).symm

/-- A path is found once for each given path that reaches it. -/
theorem count_discovered (htree : fs.IsTree) (paths : List String)
    [DecidablePred fun given => fs.files.Reaches extension given path] :
    (discovered fs.files extension paths).count path =
      paths.countP fun given => fs.files.Reaches extension given path := by
  rw [(discovered_perm _ _ _).count_eq]
  induction paths with
  | nil => rfl
  | cons given rest ih =>
      rw [List.flatMap_cons, List.count_append, ih, List.countP_cons, Nat.add_comm,
        (nodup_reachedPaths htree extension given).count]
      simp only [mem_reachedPaths_iff htree, decide_eq_true_eq]

/-- A given path that leads nowhere changes nothing. -/
theorem discover_append_cons_of_error {files : Files} {cause : FileError}
    (hmissing : files.entry given = .error cause) (before after : List String) :
    discover files extension (before ++ given :: after) =
      discover files extension (before ++ after) := by
  have hnothing : reachedFrom files extension given = [] := by
    rw [reachedFrom, hmissing]
  rw [discover, discover, List.flatMap_append, List.flatMap_cons, hnothing, List.nil_append,
    List.flatMap_append]

open Classical in
/-- Discovery depends only on which files exist. In a directory tree, it returns sorted paths, and
each as often as given paths reach it: it is itself given, or the file is at some depth below a
given directory. So neither the order of the given paths nor that of the entries of directories
matters, up to the equality of paths, and a given path that leads nowhere changes nothing. Given
paths begin at the root or at the working directory. A path that is too long for the operating
system leads nowhere. -/
theorem discovery_depends_only_on_files (htree : fs.IsTree) (extension : String)
    (paths : List String) :
    let files := fs.files
    (discovered files extension paths).Pairwise (fun p q => (Path.compare p q).isLE) ∧
    (∀ path, (discovered files extension paths).count path =
      paths.countP fun given => files.Reaches extension given path) ∧
    (∀ (fs' : FileSystem) (paths' : List String), fs'.IsTree →
      (∀ path, fs'.files.IsFile path ↔ files.IsFile path) → paths' ~ paths →
        (discovered fs'.files extension paths').map Path.components =
          (discovered files extension paths).map Path.components) ∧
    (∀ (fs' : FileSystem) (paths' : List String), fs.Rearranged fs' → paths' ~ paths →
      (discovered fs'.files extension paths').map Path.components =
        (discovered files extension paths).map Path.components) ∧
    (∀ before given after cause, paths = before ++ given :: after →
      files.entry given = .error cause →
        discover files extension paths = discover files extension (before ++ after)) := by
  refine ⟨discovered_sorted _ _ _, fun path => count_discovered htree paths, ?_, ?_, ?_⟩
  · intro fs' paths' htree' hfiles hpaths
    exact discovered_congr htree htree' hfiles hpaths
  · intro fs' paths' harranged hpaths
    exact discovered_congr htree (harranged.isTree htree)
      (fun path => FileSystem.isFile_iff_of_rearranged htree harranged) hpaths
  · rintro before given after cause rfl hmissing
    exact discover_append_cons_of_error hmissing before after

/-- A home directory with suite files at two depths and a file of another kind. -/
def nestedSuites : Entry :=
  .directory [("b.toml", .file (.ok "")), ("nested", .directory
    [("notes.txt", .file (.ok "")), ("deep", .directory [("a.toml", .file (.ok ""))])])]

theorem discovery_depends_only_on_files_nested :
    FileSystem.IsTree ⟨[("home", nestedSuites)], ["home"]⟩ ∧
    (discovered (.ofDirectory nestedSuites) "toml" ["/home/nested", "../home", "nested",
      "/home/nested"]).count "/home/nested/deep/a.toml" = 2 ∧
    discover (.ofDirectory nestedSuites) "toml" ["/home/nested", "../missing", "nested"] =
      discover (.ofDirectory nestedSuites) "toml" ["/home/nested", "nested"] := by
  have htree : FileSystem.IsTree ⟨[("home", nestedSuites)], ["home"]⟩ := by
    have hdeep : Entry.IsTree (.directory [("a.toml", .file (.ok ""))]) :=
      .directory (by decide) (by decide) (List.forall_mem_singleton.2 (.file _))
    have hnested : Entry.IsTree (.directory [("notes.txt", .file (.ok "")),
        ("deep", .directory [("a.toml", .file (.ok ""))])]) :=
      .directory (by decide) (by decide)
        (List.forall_mem_cons.2 ⟨.file _, List.forall_mem_singleton.2 hdeep⟩)
    have hhome : nestedSuites.IsTree := .directory (by decide) (by decide)
      (List.forall_mem_cons.2 ⟨.file _, List.forall_mem_singleton.2 hnested⟩)
    exact .directory (by decide) (by decide) (List.forall_mem_singleton.2 hhome)
  obtain ⟨-, hcount, -, -, -⟩ := discovery_depends_only_on_files htree "toml"
    ["/home/nested", "../home", "nested", "/home/nested"]
  obtain ⟨-, -, -, -, hmissing⟩ := discovery_depends_only_on_files htree "toml"
    ["/home/nested", "../missing", "nested"]
  unfold Files.ofDirectory
  refine ⟨htree, ?_, ?_⟩
  · have hyes : (Files.ofDirectory nestedSuites).Reaches "toml" "/home/nested"
        "/home/nested/deep/a.toml" := (mem_reachedPaths_iff htree).1 (by decide +kernel)
    have hno : ∀ given ∈ ["../home", "nested"],
        ¬ (Files.ofDirectory nestedSuites).Reaches "toml" given "/home/nested/deep/a.toml" := by
      simp only [Files.ofDirectory, ← mem_reachedPaths_iff htree]
      decide +kernel
    unfold Files.ofDirectory at hyes hno
    rw [hcount]
    simp [hyes, hno]
  · exact hmissing ["/home/nested"] "../missing" ["nested"] .notFound rfl (by rfl)

end SuiteFile

end Conformance
