import Conformance.Cli.Gather
import Conformance.Proofs.Runner.Discovery

/-!
# Gathering loses nothing

On a disk that holds a directory tree, the program leaves behind what it would leave behind with
all files of the tree at hand. What is gathered of a given path need not be what is there, but it
has the same suite files; and a configuration is read as it is.
-/

namespace Conformance

/-- What is at a path, without the entries themselves. -/
def Files.look (files : Files) (path : String) : Option Place :=
  match files.entry path with
  | .ok (.file _) => some .file
  | .ok (.directory entries) => some (.directory (entries.map (·.1)))
  | .error _ => none

/-- A disk that answers as some files are. -/
structure Disk.Shows {m : Type → Type} [Monad m] (disk : Disk m) (files : Files) : Prop where
  look : ∀ path, disk.look path = pure (files.look path)
  read : ∀ path, disk.read path = pure (files.read path)

/-- The disk that has some files and asks nothing of the world. -/
def Files.disk {m : Type → Type} [Monad m] (files : Files) : Disk m :=
  ⟨fun path => pure (files.look path), fun path => pure (files.read path)⟩

theorem Files.shows_disk {m : Type → Type} [Monad m] (files : Files) :
    (files.disk : Disk m).Shows files := ⟨fun _ => rfl, fun _ => rfl⟩

theorem Files.read_of_entry {files : Files} {path : String} {e : Entry}
    (h : files.entry path = .ok e) : files.read path = e.read := by
  rw [read, h]
  rfl

/-- A text that is read is that of a file. -/
theorem Files.entry_of_read {files : Files} {path text : String}
    (h : files.read path = .ok text) : files.entry path = .ok (.file (.ok text)) := by
  cases hentry : files.entry path with
  | error cause =>
      rw [read, hentry] at h
      cases h
  | ok e =>
      rw [read_of_entry hentry] at h
      cases e with
      | file content =>
          have hcontent : content = .ok text := h
          rw [hcontent]
      | directory entries => cases h

section FilterMap

variable {α β γ : Type} {m : Type → Type} [Monad m] [LawfulMonad m]

theorem filterMapM_pure (f : α → Option β) (items : List α) :
    items.filterMapM (fun a => (pure (f a) : m (Option β))) = pure (items.filterMap f) := by
  induction items with
  | nil => rfl
  | cons a rest ih =>
      rw [List.filterMapM_cons, pure_bind, ih, List.filterMap_cons]
      cases f a with
      | none => rfl
      | some b => exact pure_bind ..

/-- A search that finds for each item what there is to tell of it finds all that there is. -/
theorem exists_filterMapM {key : α → String} {f : String → m (Option β)} {tell : β → List γ}
    {told : α → List γ} {items : List α}
    (h : ∀ a ∈ items, ∃ found, f (key a) = pure found ∧ (found.map tell).getD [] = told a) :
    ∃ found, (items.map key).filterMapM f = pure found ∧
      found.flatMap tell = items.flatMap told := by
  induction items with
  | nil => exact ⟨[], rfl, rfl⟩
  | cons a rest ih =>
      obtain ⟨⟨first, hfirst, htold⟩, hrest⟩ := List.forall_mem_cons.1 h
      obtain ⟨later, hlater, hall⟩ := ih hrest
      rw [List.map_cons, List.filterMapM_cons, hfirst, pure_bind, hlater, List.flatMap_cons]
      cases first with
      | none =>
          refine ⟨later, rfl, ?_⟩
          rw [hall, ← htold]
          rfl
      | some b =>
          refine ⟨b :: later, pure_bind .., ?_⟩
          rw [List.flatMap_cons, hall, ← htold]
          rfl

end FilterMap

namespace Cli

variable {m : Type → Type} [Monad m] [LawfulMonad m] {disk : Disk m} {fs : FileSystem}
  {extension given : String} {e : Entry}

/-- What is gathered of an entry of a directory at a path. -/
def collectBelow (disk : Disk m) (extension path name : String) : m (Option (String × Entry)) := do
  if path.utf8ByteSize < (Path.join path name).utf8ByteSize ∧
      (Path.join path name).utf8ByteSize ≤ Entry.maxPathLength then
    return (← collect disk extension (Path.join path name)).map (name, ·)
  else return none

theorem collect_directory {names : List String}
    (hlook : disk.look given = pure (some (.directory names))) : collect disk extension given =
      (do return some (.directory (← names.filterMapM (collectBelow disk extension given)))) := by
  rw [collect, hlook, pure_bind]
  rfl

theorem collect_file (hlook : disk.look given = pure (some .file)) :
    collect disk extension given =
      if Path.extension? given = some extension then
        return some (.file (← disk.read given))
      else return none := by
  rw [collect, hlook, pure_bind]

theorem collect_nothing (hlook : disk.look given = pure none) :
    collect disk extension given = pure none := by
  rw [collect, hlook, pure_bind]

/-- What is gathered of an entry of a tree has its suite files, and a file that is gathered is read
as it is. -/
theorem exists_collect_of_ok (hdisk : disk.Shows fs.files) (htree : fs.IsTree)
    (hentry : fs.resolve given = .ok e) : ∃ found, collect disk extension given = pure found ∧
      (found.map (·.suiteFiles extension given)).getD [] = e.suiteFiles extension given ∧
      ∀ e' ∈ found, e'.read = e.read := by
  have hgiven := (FileSystem.resolve_eq_ok_iff.1 hentry).1
  induction FileSystem.isTree_of_resolve htree hentry generalizing given with
  | file content =>
      have hlook : disk.look given = pure (some .file) := by
        simp only [hdisk.look, Files.look, FileSystem.files, hentry]
      have hread : disk.read given = pure content := by
        rw [hdisk.read, Files.read_of_entry hentry]
        rfl
      rw [collect_file hlook, hread, pure_bind]
      by_cases hextension : Path.extension? given = some extension
      · refine ⟨some (.file content), if_pos hextension, rfl, ?_⟩
        rintro _ ⟨⟩
        rfl
      · refine ⟨none, if_neg hextension, ?_, nofun⟩
        rw [Entry.suiteFiles, if_neg hextension]
        rfl
  | @directory entries hnames hdistinct htrees ih =>
      have hlook : disk.look given = pure (some (.directory (entries.map (·.1)))) := by
        simp only [hdisk.look, Files.look, FileSystem.files, hentry]
      have hentries : ∀ entry ∈ entries, ∃ found,
          collectBelow disk extension given entry.1 = pure found ∧
            (found.map (Entry.suiteFilesOf extension given)).getD [] =
              Entry.suiteFilesOf extension given entry := by
        intro entry hmem
        rw [collectBelow, Entry.suiteFilesOf]
        by_cases hfits : (Path.join given entry.1).utf8ByteSize ≤ Entry.maxPathLength
        · have hgrows := Path.utf8ByteSize_lt_join (hnames _ hmem) given
          have hinner : fs.resolve (Path.join given entry.1) = .ok entry.2 :=
            (FileSystem.resolve_join_eq_ok_iff htree hgiven (hnames _ hmem)).2
              ⟨hfits, entries, hentry, hmem⟩
          obtain ⟨found, hfound, hfiles, -⟩ :=
            ih entry hmem hinner (Path.join_ne_empty given entry.1)
          rw [if_pos ⟨hgrows, hfits⟩, if_neg (Nat.not_lt.2 hfits), hfound, pure_bind]
          refine ⟨_, rfl, ?_⟩
          rw [← hfiles]
          cases found with
          | none => rfl
          | some e' => exact if_neg (Nat.not_lt.2 hfits)
        · rw [if_neg (not_and_of_not_right _ hfits), if_pos (Nat.not_le.1 hfits)]
          exact ⟨none, rfl, rfl⟩
      obtain ⟨found, hfound, hall⟩ := exists_filterMapM hentries
      refine ⟨some (.directory found), ?_, ?_, ?_⟩
      · rw [collect_directory hlook, hfound, pure_bind]
      · rw [Option.map_some, Option.getD_some, Entry.suiteFiles_directory, hall,
          Entry.suiteFiles_directory]
      · rintro _ ⟨⟩
        rfl

/-- What is gathered of a path has the suite files that the path reaches. -/
theorem exists_collect (hdisk : disk.Shows fs.files) (htree : fs.IsTree)
    (extension given : String) : ∃ found, collect disk extension given = pure found ∧
      (found.map (·.suiteFiles extension given)).getD [] =
        SuiteFile.reachedFrom fs.files extension given ∧
      ∀ e ∈ found, e.read = fs.files.read given := by
  cases hentry : fs.resolve given with
  | error cause =>
      have hlook : disk.look given = pure none := by
        simp only [hdisk.look, Files.look, FileSystem.files, hentry]
      refine ⟨none, collect_nothing hlook, ?_, nofun⟩
      simp only [SuiteFile.reachedFrom, FileSystem.files, hentry]
      rfl
  | ok e =>
      obtain ⟨found, hfound, hfiles, hread⟩ := exists_collect_of_ok hdisk htree hentry
      have hgiven : fs.files.read given = e.read := Files.read_of_entry hentry
      refine ⟨found, hfound, ?_, fun e' he' => (hread e' he').trans hgiven.symm⟩
      simp only [hfiles, SuiteFile.reachedFrom, FileSystem.files, hentry]

/-- Looking up what was found at some paths. -/
theorem find?_filterMap_path {α : Type} (found : String → Option α) (paths : List String)
    (path : String) :
    (paths.filterMap fun p => (found p).map (p, ·)).find? (·.1 == path) =
      if path ∈ paths then (found path).map (path, ·) else none := by
  induction paths with
  | nil => rfl
  | cons p rest ih =>
      by_cases hp : p = path
      · subst hp
        cases hfound : found p <;> simp [hfound, ih]
      · cases hfound : found p <;> simp [hfound, ih, hp, Ne.symm hp]

section Configuration

variable [DocumentReader Overrides] {files files' : Files} {r : Request}

/-- A configuration depends on the file that it is in and on no other. -/
theorem configuration_congr (h : ∀ path ∈ r.config, files'.read path = files.read path) :
    r.configuration files' = r.configuration files := by
  unfold Request.configuration
  cases hconfig : r.config with
  | none => rfl
  | some path => simp only [Config.load, h path hconfig]

/-- A configuration that does load was read. -/
theorem exists_read_of_configuration {config : Config} (h : r.configuration files = .ok config) :
    ∀ path ∈ r.config, ∃ text, files.read path = .ok text := by
  intro path hpath
  rw [Option.mem_def] at hpath
  rw [Request.configuration, hpath] at h
  cases hread : files.read path with
  | error cause =>
      simp only [Config.load, hread] at h
      cases h
  | ok text => exact ⟨text, rfl⟩

end Configuration

section Gathered

variable {files : Files} {r : Request} {paths : List String} {path : String}

/-- The configuration file of a request as it is read. -/
def settings (files : Files) (r : Request) : List (String × Entry) :=
  r.config.toList.map fun path => (path, .file (files.read path))

theorem find?_settings : (settings files r).find? (·.1 == path) =
    if r.config = some path then some (path, .file (files.read path)) else none := by
  unfold settings
  cases r.config with
  | none => rfl
  | some p =>
      by_cases hp : p = path
      · simp [hp]
      · simp [hp]

/-- The files that are known after a search of some paths. -/
def knownAfter (files : Files) (r : Request) (found : String → Option Entry) (paths : List String) :
    Files :=
  known ((paths.filterMap fun path => (found path).map (path, ·)) ++ settings files r)

variable {found : String → Option Entry}

theorem entry_knownAfter_of_found (hpath : path ∈ paths) (hfound : found path = some e) :
    (knownAfter files r found paths).entry path = .ok e := by
  simp only [knownAfter, known, List.find?_append, find?_filterMap_path, if_pos hpath, hfound,
    Option.map_some, Option.some_or]

theorem entry_knownAfter_of_not_found (hfound : path ∈ paths → found path = none) :
    (knownAfter files r found paths).entry path =
      if r.config = some path then .ok (.file (files.read path)) else .error .notFound := by
  have hnone : (if path ∈ paths then (found path).map (path, ·) else none) = none := by
    split
    case isTrue hpath => rw [hfound hpath, Option.map_none]
    case isFalse => rfl
  simp only [knownAfter, known, List.find?_append, find?_filterMap_path, hnone, Option.none_or,
    find?_settings]
  by_cases hself : r.config = some path
  · simp only [if_pos hself]
  · simp only [if_neg hself]

/-- The configuration file is known as it is, whether or not its path was searched. -/
theorem read_knownAfter (hfound : ∀ path, ∀ e ∈ found path, e.read = files.read path) :
    ∀ path ∈ r.config, (knownAfter files r found paths).read path = files.read path := by
  intro path hconfig
  rw [Files.read]
  by_cases hknown : path ∈ paths → found path = none
  · rw [entry_knownAfter_of_not_found hknown, if_pos (Option.mem_def.1 hconfig)]
    rfl
  · obtain ⟨hpath, hsome⟩ := Classical.not_imp.1 hknown
    obtain ⟨e, he⟩ := Option.ne_none_iff_exists'.1 hsome
    rw [entry_knownAfter_of_found hpath he]
    exact hfound path e he

/-- A searched path reaches the same suite files as before, if the configuration is a file. -/
theorem reachedFrom_knownAfter
    (hfound : ∀ path, ((found path).map (·.suiteFiles extension path)).getD [] =
      SuiteFile.reachedFrom files extension path)
    (hconfig : ∀ path ∈ r.config, ∃ text, files.read path = .ok text) (hpath : path ∈ paths) :
    SuiteFile.reachedFrom (knownAfter files r found paths) extension path =
      SuiteFile.reachedFrom files extension path := by
  have hfiles := hfound path
  cases hsome : found path with
  | some e =>
      rw [hsome] at hfiles
      rw [← hfiles, SuiteFile.reachedFrom, entry_knownAfter_of_found hpath hsome]
      rfl
  | none =>
      rw [hsome] at hfiles
      rw [SuiteFile.reachedFrom, entry_knownAfter_of_not_found fun _ => hsome]
      split_ifs with hself
      · -- The path is that of the configuration, so it is a file, and what is read there is in it.
        obtain ⟨text, hread⟩ := hconfig path hself
        rw [SuiteFile.reachedFrom, Files.entry_of_read hread, hread]
      · exact hfiles

end Gathered

/-- The configuration file is read first. -/
theorem mapM_settings {files : Files} (hdisk : disk.Shows files) (r : Request) :
    r.config.toList.mapM (fun path => do return (path, Entry.file (← disk.read path))) =
      (pure (settings files r) : m (List (String × Entry))) := by
  unfold settings
  cases r.config with
  | none => simp
  | some path => simp [hdisk.read]

variable [DocumentReader (List Case)] [DocumentReader Overrides]

theorem exists_gather (hdisk : disk.Shows fs.files) (htree : fs.IsTree) (r : Request) :
    ∃ files, gather disk r = pure files ∧ runRequest files r = runRequest fs.files r := by
  have hsettings : ∀ path ∈ r.config,
      (known (settings fs.files r)).read path = fs.files.read path :=
    @read_knownAfter fs.files r [] (fun _ => none) nofun
  rw [gather, mapM_settings hdisk, pure_bind, configuration_congr hsettings]
  cases hconfig : r.configuration fs.files with
  | error cause =>
      refine ⟨_, rfl, ?_⟩
      rw [runRequest, runRequest, configuration_congr hsettings, hconfig]
  | ok config =>
      choose found hfound hfiles hread using exists_collect hdisk htree config.extension
      have hsearch : r.searched.filterMapM (fun path => do
          return (← collect disk config.extension path).map (path, ·)) =
            (pure (r.searched.filterMap fun path => (found path).map (path, ·)) :
              m (List (String × Entry))) := by
        simp only [hfound, pure_bind, filterMapM_pure]
      refine ⟨knownAfter fs.files r found r.searched, ?_, ?_⟩
      · simp only [hsearch, pure_bind, knownAfter]
      · have hreached : ∀ path ∈ r.searched,
            SuiteFile.reachedFrom (knownAfter fs.files r found r.searched) config.extension path =
              SuiteFile.reachedFrom fs.files config.extension path :=
          fun _ => reachedFrom_knownAfter hfiles (exists_read_of_configuration hconfig)
        have hdiscover : SuiteFile.discover (knownAfter fs.files r found r.searched)
            config.extension r.searched =
              SuiteFile.discover fs.files config.extension r.searched := by
          rw [SuiteFile.discover, SuiteFile.discover, List.flatMap_congr hreached]
        rw [runRequest, runRequest, configuration_congr (read_knownAfter hread), hconfig]
        simp only [hdiscover]

/-- On a disk that holds a tree, the program leaves behind what it would leave behind with all
files of the tree at hand. -/
theorem execute_filesFor (hdisk : disk.Shows fs.files) (htree : fs.IsTree) (i : Invocation) :
    (do return execute (← filesFor disk i) i) = (pure (execute fs.files i) : m Outcome) := by
  cases i with
  | run r =>
      obtain ⟨files, hfiles, hrun⟩ := exists_gather hdisk htree r
      simp only [filesFor, hfiles, pure_bind, execute, hrun]
  | version | help | misuse => simp only [filesFor, pure_bind, execute]

/-- The files that are gathered from a tree at hand are as good as the tree. -/
theorem execute_filesFor_disk (htree : fs.IsTree) (i : Invocation) :
    execute (Id.run (filesFor fs.files.disk i)) i = execute fs.files i :=
  congrArg Id.run (execute_filesFor (m := Id) fs.files.shows_disk htree i)

end Cli

end Conformance
