import Conformance.Proofs.Files.Path
import Conformance.Proofs.Traversal

/-!
# Directory trees

In a directory tree, each directory gives its entries different names. A name joined to the path of
a directory leads to the entry of that name and to nothing else, unless the path is too long. The
order of the entries of a directory makes no difference to where paths lead.
-/

namespace Conformance

namespace Entry

/-- A tree of files and directories. -/
inductive IsTree : Entry → Prop
  | file (content : Except FileError String) : IsTree (.file content)
  | directory {entries : List (String × Entry)} (names : ∀ entry ∈ entries, Path.IsName entry.1)
      (distinct : (entries.map (·.1)).Nodup) (trees : ∀ entry ∈ entries, IsTree entry.2) :
      IsTree (.directory entries)

/-- A tree whose directories have their entries in another order. -/
inductive Rearranged : Entry → Entry → Prop
  | refl (e : Entry) : Rearranged e e
  | trans {e e' e'' : Entry} : Rearranged e e' → Rearranged e' e'' → Rearranged e e''
  | shuffle {entries entries' : List (String × Entry)} :
      entries.Perm entries' → Rearranged (.directory entries) (.directory entries')
  | inside (before : List (String × Entry)) (name : String) {e e' : Entry}
      (after : List (String × Entry)) : Rearranged e e' →
      Rearranged (.directory (before ++ (name, e) :: after))
        (.directory (before ++ (name, e') :: after))

variable {e e' d : Entry} {entries : List (String × Entry)} {above : List Entry}
  {name step path : String} {steps : List String}

theorem IsTree.isName (h : IsTree (.directory entries)) (hmem : (name, e) ∈ entries) :
    Path.IsName name := by
  obtain - | ⟨hnames, -, -⟩ := h
  exact hnames _ hmem

theorem IsTree.isTree_of_mem (h : IsTree (.directory entries)) (hmem : (name, e) ∈ entries) :
    e.IsTree := by
  obtain - | ⟨-, -, htrees⟩ := h
  exact htrees _ hmem

namespace Rearranged

theorem symm (h : Rearranged e e') : Rearranged e' e := by
  induction h with
  | refl e => exact .refl e
  | trans _ _ ih ih' => exact ih'.trans ih
  | shuffle hperm => exact .shuffle hperm.symm
  | inside before name after _ ih => exact .inside before name after ih

theorem isTree (h : Rearranged e e') (htree : e.IsTree) : e'.IsTree := by
  induction h with
  | refl => exact htree
  | trans _ _ ih ih' => exact ih' (ih htree)
  | shuffle hperm =>
      obtain - | ⟨hnames, hdistinct, htrees⟩ := htree
      refine .directory (fun entry hmem => ?_) ?_ (fun entry hmem => ?_)
      · exact hnames entry (hperm.mem_iff.2 hmem)
      · exact (hperm.map _).nodup hdistinct
      · exact htrees entry (hperm.mem_iff.2 hmem)
  | inside before name after _ ih =>
      obtain - | ⟨hnames, hdistinct, htrees⟩ := htree
      simp only [List.forall_mem_append, List.forall_mem_cons] at hnames htrees
      obtain ⟨hbefore, hinner, hafter⟩ := htrees
      refine .directory ?_ ?_ ?_
      · simpa only [List.forall_mem_append, List.forall_mem_cons] using hnames
      · simpa using hdistinct
      · simpa only [List.forall_mem_append, List.forall_mem_cons]
          using ⟨hbefore, ih hinner, hafter⟩

theorem file_left {content : Except FileError String} (h : Rearranged (.file content) e') :
    e' = .file content := by
  generalize hfile : Entry.file content = e at h
  induction h with
  | refl => rfl
  | trans _ _ ih ih' =>
      cases ih hfile
      exact ih' hfile
  | shuffle | inside => cases hfile

theorem directory_left (h : Rearranged (.directory entries) e') :
    ∃ entries', e' = .directory entries' ∧
      ∀ name e, (name, e) ∈ entries → ∃ e', (name, e') ∈ entries' ∧ Rearranged e e' := by
  generalize hdirectory : Entry.directory entries = d at h
  induction h generalizing entries with
  | refl => exact ⟨entries, hdirectory.symm, fun name e hmem => ⟨e, hmem, .refl e⟩⟩
  | trans _ _ ih ih' =>
      obtain ⟨middle, hmiddle, hleft⟩ := ih hdirectory
      obtain ⟨last, hlast, hright⟩ := ih' hmiddle.symm
      refine ⟨last, hlast, fun name e hmem => ?_⟩
      obtain ⟨e', hmem', harranged⟩ := hleft name e hmem
      obtain ⟨e'', hmem'', harranged'⟩ := hright name e' hmem'
      exact ⟨e'', hmem'', harranged.trans harranged'⟩
  | shuffle hperm =>
      cases hdirectory
      exact ⟨_, rfl, fun name e hmem => ⟨e, hperm.mem_iff.1 hmem, .refl e⟩⟩
  | @inside before name inner inner' after harranged =>
      cases hdirectory
      refine ⟨_, rfl, fun name' e hmem => ?_⟩
      simp only [List.mem_append, List.mem_cons] at hmem ⊢
      obtain hbefore | heq | hafter := hmem
      · exact ⟨e, .inl hbefore, .refl e⟩
      · cases heq
        exact ⟨inner', .inr (.inl rfl), harranged⟩
      · exact ⟨e, .inr (.inr hafter), .refl e⟩

end Rearranged

@[simp] theorem walk_nil (above : List Entry) (e : Entry) : walk above e [] = .ok e := by
  cases e <;> rfl

theorem walk_cons_of_stay (hstay : step = "" ∨ step = ".") :
    walk above (.directory entries) (step :: steps) = walk above (.directory entries) steps := by
  cases above <;> simp only [walk, if_pos hstay]

theorem walk_cons_parent : walk above (.directory entries) (".." :: steps) =
    walk above.tail (above.headD (.directory entries)) steps := by
  cases above <;> rfl

/-- Where the step to a name leads does not depend on the directories above. -/
theorem walk_cons_of_name (above : List Entry) (steps : List String)
    (hstay : ¬ (step = "" ∨ step = ".")) (hparent : step ≠ "..") :
    walk above (.directory entries) (step :: steps) =
      (walk [] (.directory entries) [step]).bind fun e =>
        walk (.directory entries :: above) e steps := by
  cases above with
  | nil | cons =>
      simp only [walk, if_neg hstay, if_neg hparent]
      split_ifs
      · rfl
      · cases entries.find? (·.1 == step) <;> rfl

theorem walk_name_eq_ok_iff (htree : IsTree (.directory entries))
    (hstay : ¬ (step = "" ∨ step = ".")) (hparent : step ≠ "..") :
    walk [] (.directory entries) [step] = .ok e ↔ (step, e) ∈ entries := by
  simp only [walk, if_neg hstay, if_neg hparent]
  constructor
  · intro h
    split_ifs at h
    split at h
    · next hfind =>
        cases h
        exact mem_of_map_find?_key (by rw [hfind]; rfl)
    · cases h
  · intro hmem
    have hshort := Nat.not_lt.2 (htree.isName hmem).short
    obtain - | ⟨-, hdistinct, -⟩ := htree
    obtain ⟨entry, hfind, rfl⟩ :=
      Option.map_eq_some_iff.1 ((map_find?_key_eq_some_iff hdistinct).2 hmem)
    rw [if_neg hshort, hfind]

/-- Steps that lead somewhere in a tree lead to the same place in the rearranged tree. -/
theorem walk_rearranged {above' : List Entry}
    (habove : List.Forall₂ (fun a a' => a.IsTree ∧ Rearranged a a') above above')
    (htree : e.IsTree) (harranged : Rearranged e e') (h : walk above e steps = .ok d) :
    ∃ d', walk above' e' steps = .ok d' ∧ d.IsTree ∧ Rearranged d d' := by
  -- A step to the parent may go back to any directory above, so these are related as well.
  induction steps generalizing above above' e e' with
  | nil =>
      cases (walk_nil above e).symm.trans h
      exact ⟨e', walk_nil above' e', htree, harranged⟩
  | cons step steps ih =>
      cases e with
      | file content => cases h
      | directory entries =>
          obtain ⟨entries', rfl, hentries⟩ := harranged.directory_left
          by_cases hstay : step = "" ∨ step = "."
          · rw [walk_cons_of_stay hstay] at h ⊢
            exact ih habove htree harranged h
          by_cases hparent : step = ".."
          · subst hparent
            rw [walk_cons_parent] at h ⊢
            cases habove with
            | nil => exact ih .nil htree harranged h
            | cons hfirst hrest => exact ih hrest hfirst.1 hfirst.2 h
          rw [walk_cons_of_name _ _ hstay hparent] at h ⊢
          cases hinner : walk [] (.directory entries) [step] with
          | error cause =>
              rw [hinner] at h
              cases h
          | ok inner =>
              rw [hinner] at h
              have hmem := (walk_name_eq_ok_iff htree hstay hparent).1 hinner
              obtain ⟨inner', hmem', harranged'⟩ := hentries step inner hmem
              rw [(walk_name_eq_ok_iff (harranged.isTree htree) hstay hparent).2 hmem']
              exact ih (.cons ⟨htree, harranged⟩ habove) (htree.isTree_of_mem hmem) harranged' h

/-- The last one of some steps is taken from where the others lead. -/
theorem walk_concat (hstep : step ≠ "..") :
    walk above e (steps ++ [step]) = (walk above e steps).bind fun d => walk [] d [step] := by
  induction steps generalizing above e with
  | nil =>
      rw [List.nil_append, walk_nil]
      cases e with
      | file content => rfl
      | directory entries =>
          by_cases hstay : step = "" ∨ step = "."
          · simp only [walk_cons_of_stay hstay, walk_nil, Except.bind]
          · simp only [walk_cons_of_name above [] hstay hstep, walk_nil, Except.bind]
            cases walk [] (.directory entries) [step] <;> rfl
  | cons first rest ih =>
      rw [List.cons_append]
      cases e with
      | file content => rfl
      | directory entries =>
          by_cases hstay : first = "" ∨ first = "."
          · rw [walk_cons_of_stay hstay, walk_cons_of_stay hstay, ih]
          by_cases hparent : first = ".."
          · subst hparent
            rw [walk_cons_parent, walk_cons_parent, ih]
          rw [walk_cons_of_name _ _ hstay hparent, walk_cons_of_name _ rest hstay hparent]
          simp only [ih]
          cases walk [] (.directory entries) [first] <;> rfl

/-- What steps lead to from the root of a tree is a tree. -/
theorem isTree_of_walk (htree : e.IsTree) (h : walk [] e steps = .ok d) : d.IsTree := by
  obtain ⟨-, -, hd, -⟩ := walk_rearranged .nil htree (.refl e) h
  exact hd

end Entry

namespace FileSystem

open Entry

/-- A file system whose directories give their entries different names. -/
def IsTree (fs : FileSystem) : Prop := Entry.IsTree (.directory fs.root)

/-- A file system whose directories have their entries in another order. -/
def Rearranged (fs fs' : FileSystem) : Prop :=
  Entry.Rearranged (.directory fs.root) (.directory fs'.root) ∧ fs'.working = fs.working

variable {fs fs' : FileSystem} {e : Entry} {entries : List (String × Entry)}
  {name directory path : String}

theorem Rearranged.symm (h : fs.Rearranged fs') : fs'.Rearranged fs := ⟨h.1.symm, h.2.symm⟩

theorem Rearranged.isTree (h : fs.Rearranged fs') (htree : fs.IsTree) : fs'.IsTree :=
  h.1.isTree htree

theorem Rearranged.steps_eq (h : fs.Rearranged fs') : fs'.steps = fs.steps := by
  funext segments
  unfold steps
  rw [h.2]

/-- Further segments are further steps. -/
theorem steps_append {segments : List String} (hne : segments ≠ []) (more : List String) :
    fs.steps (segments ++ more) = fs.steps segments ++ more := by
  obtain ⟨first, rest, rfl⟩ := List.exists_cons_of_ne_nil hne
  by_cases hroot : first = "" <;> simp [steps, hroot]

theorem resolve_eq_ok_iff : fs.resolve path = .ok e ↔ path ≠ "" ∧ '\x00' ∉ path.toList ∧
    path.utf8ByteSize ≤ maxPathLength ∧
      walk [] (.directory fs.root) (fs.steps (Path.segments path)) = .ok e := by
  rw [resolve]
  split_ifs with hempty hnul hlong
  · have : path = "" := String.isEmpty_iff.1 hempty
    simp [this]
  · have : '\x00' ∈ path.toList := List.contains_iff_mem.1 hnul
    simp [this]
  · simp [Nat.not_le.2 hlong]
  · have hvalid : path ≠ "" ∧ '\x00' ∉ path.toList ∧ path.utf8ByteSize ≤ maxPathLength := by
      simpa using And.intro hempty (And.intro hnul hlong)
    simp only [hvalid, ne_eq, not_false_iff, true_and]

theorem resolve_rearranged (htree : fs.IsTree) (harranged : fs.Rearranged fs')
    (h : fs.resolve path = .ok e) : ∃ e', fs'.resolve path = .ok e' ∧ e.Rearranged e' := by
  obtain ⟨hvalid, hnul, hfits, hwalk⟩ := resolve_eq_ok_iff.1 h
  obtain ⟨e', hwalk', -, he'⟩ := walk_rearranged .nil htree harranged.1 hwalk
  rw [← harranged.steps_eq] at hwalk'
  exact ⟨e', resolve_eq_ok_iff.2 ⟨hvalid, hnul, hfits, hwalk'⟩, he'⟩

/-- What is at a path in a tree is a tree. -/
theorem isTree_of_resolve (htree : fs.IsTree) (h : fs.resolve path = .ok e) : e.IsTree := by
  obtain ⟨-, -, -, hwalk⟩ := resolve_eq_ok_iff.1 h
  exact isTree_of_walk htree hwalk

/-- A directory is found whether or not its path ends with a slash. -/
theorem walk_segments_eq_ok_directory_iff {above : List Entry} {start : Entry} :
    walk above start (fs.steps (Path.segments path)) = .ok (.directory entries) ↔
      walk above start (fs.steps (Path.stem path)) = .ok (.directory entries) := by
  obtain heq | heq := Path.segments_eq_stem path
  · rw [heq]
  · rw [heq, steps_append (Path.stem_ne_nil path), walk_concat (by decide)]
    cases walk above start (fs.steps (Path.stem path)) with
    | error cause => exact Iff.rfl
    | ok e => cases e <;> simp [Except.bind, walk]

/-- A name that is joined to a path leads to an entry of the directory at the path, if the path
does not become too long. -/
theorem resolve_join_eq_ok_iff (htree : fs.IsTree) (hdirectory : directory ≠ "")
    (hname : Path.IsName name) : fs.resolve (Path.join directory name) = .ok e ↔
      (Path.join directory name).utf8ByteSize ≤ maxPathLength ∧
        ∃ entries, fs.resolve directory = .ok (.directory entries) ∧ (name, e) ∈ entries := by
  have hstay : ¬ (name = "" ∨ name = ".") := not_or.2 ⟨hname.ne_empty, hname.ne_current⟩
  have hnul : '\x00' ∉ (Path.join directory name).toList ↔ '\x00' ∉ directory.toList := by
    rw [Path.mem_toList_join (by decide), or_iff_left hname.no_nul]
  have hsteps : fs.steps (Path.segments (Path.join directory name)) =
      fs.steps (Path.stem directory) ++ [name] := by
    rw [Path.segments_join hname.no_slash, steps_append (Path.stem_ne_nil directory)]
  have hwalk : walk [] (.directory fs.root) (fs.steps (Path.stem directory) ++ [name]) = .ok e ↔
      ∃ entries, walk [] (.directory fs.root) (fs.steps (Path.segments directory)) =
        .ok (.directory entries) ∧ (name, e) ∈ entries := by
    simp only [walk_segments_eq_ok_directory_iff, walk_concat hname.ne_parent]
    cases hstem : walk [] (.directory fs.root) (fs.steps (Path.stem directory)) with
    | error cause => simp [Except.bind]
    | ok d =>
        cases d with
        | file content => simp [Except.bind, walk]
        | directory entries =>
            have hentries := isTree_of_walk htree hstem
            simpa [Except.bind] using walk_name_eq_ok_iff hentries hstay hname.ne_parent
  have hlength := Nat.le_of_lt (Path.utf8ByteSize_lt_join hname directory)
  simp only [resolve_eq_ok_iff, hsteps, hnul, hwalk]
  constructor
  · rintro ⟨-, hnul, hfits, entries, hentries, hmem⟩
    exact ⟨hfits, entries, ⟨hdirectory, hnul, Nat.le_trans hlength hfits, hentries⟩, hmem⟩
  · rintro ⟨hfits, entries, ⟨-, hnul, -, hentries⟩, hmem⟩
    exact ⟨Path.join_ne_empty directory name, hnul, hfits, entries, hentries, hmem⟩

end FileSystem

namespace Files

/-- Whether a path leads to a file. -/
def IsFile (files : Files) (path : String) : Prop :=
  ∃ content, files.entry path = .ok (.file content)

/-- Whether a path leads to a directory. -/
def IsDirectory (files : Files) (path : String) : Prop :=
  ∃ entries, files.entry path = .ok (.directory entries)

end Files

namespace FileSystem

variable {fs fs' : FileSystem} {directory path : String}

/-- A file is only below directories. -/
theorem isDirectory_of_below (htree : fs.IsTree) (hdirectory : directory ≠ "")
    (hbelow : Path.Below directory path) (hfile : fs.files.IsFile path) :
    fs.files.IsDirectory directory := by
  induction hbelow with
  | entry hname =>
      obtain ⟨content, hcontent⟩ := hfile
      obtain ⟨-, entries, hentries, -⟩ :=
        (resolve_join_eq_ok_iff htree hdirectory hname).1 hcontent
      exact ⟨entries, hentries⟩
  | @inside directory name path hname hbelow ih =>
      obtain ⟨inner, hinner⟩ := ih (Path.join_ne_empty directory name) hfile
      obtain ⟨-, entries, hentries, -⟩ :=
        (resolve_join_eq_ok_iff htree hdirectory hname).1 hinner
      exact ⟨entries, hentries⟩

theorem isFile_of_rearranged (htree : fs.IsTree) (h : fs.Rearranged fs')
    (hfile : fs.files.IsFile path) : fs'.files.IsFile path := by
  obtain ⟨content, hcontent⟩ := hfile
  obtain ⟨e', hentry, harranged⟩ := resolve_rearranged htree h hcontent
  rw [harranged.file_left] at hentry
  exact ⟨content, hentry⟩

/-- The order of the entries of directories makes no difference to which files exist. -/
theorem isFile_iff_of_rearranged (htree : fs.IsTree) (h : fs.Rearranged fs') :
    fs'.files.IsFile path ↔ fs.files.IsFile path :=
  ⟨isFile_of_rearranged (h.isTree htree) h.symm, isFile_of_rearranged htree h⟩

end FileSystem

end Conformance
