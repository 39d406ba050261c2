import Mathlib.Data.List.Basic
import Conformance.Files.Entry

/-!
# The order and the segments of paths

Paths are compared by their components, and components by their kind and then by their text; so the
order of paths is total, and two paths are equal in it exactly if they have the same components. A
path that names were joined to, one after the other, has the segments of the path, without an empty
one at the end, and then the names.
-/

namespace Conformance

namespace Path

/-- The text of a name; other components have none. -/
def Component.text : Component → String
  | name s => s
  | _ => ""

theorem Component.compare_eq :
    Component.compare = compareLex (compareOn Component.rank) (compareOn Component.text) := by
  funext a b
  cases a <;> cases b <;> rfl

instance : Std.TransCmp Component.compare := by
  rw [Component.compare_eq]
  infer_instance

instance : Std.LawfulEqCmp Component.compare where
  eq_of_compare {a b} h := by
    cases a <;> cases b <;> simp_all [Component.compare, Component.rank]

theorem compare_eq (p q : String) :
    compare p q = List.compareLex Component.compare (components p) (components q) := rfl

theorem isLE_trans {p q r : String} (hpq : (compare p q).isLE) (hqr : (compare q r).isLE) :
    (compare p r).isLE := by
  rw [compare_eq] at *
  exact Std.TransCmp.isLE_trans hpq hqr

theorem isLE_total (p q : String) : (compare p q).isLE ∨ (compare q p).isLE := by
  have hswap : compare q p = (compare p q).swap := by
    rw [compare_eq, compare_eq]
    exact Std.OrientedCmp.eq_swap
  rw [hswap]
  cases compare p q <;> decide

/-- Which components sorted paths have, and in which order, is determined by which paths they
are. -/
theorem map_components_eq_of_perm {paths paths' : List String} (hperm : paths.Perm paths')
    (hsorted : paths.Pairwise fun p q => (compare p q).isLE)
    (hsorted' : paths'.Pairwise fun p q => (compare p q).isLE) :
    paths.map components = paths'.map components := by
  have hmap : (paths.map components).Pairwise fun a b =>
      (List.compareLex Component.compare a b).isLE := List.pairwise_map.2 hsorted
  have hmap' : (paths'.map components).Pairwise fun a b =>
      (List.compareLex Component.compare a b).isLE := List.pairwise_map.2 hsorted'
  refine List.Perm.eq_of_pairwise (fun a b _ _ hle hge => ?_) hmap hmap' (hperm.map components)
  exact Std.LawfulEqCmp.eq_of_compare (Std.OrientedCmp.isLE_antisymm hle hge)

/-- The codepoints of a path without a slash at its end. -/
def lead (path : String) : List Char :=
  if path.toList.getLast? = some '/' then path.toList.dropLast else path.toList

/-- The segments of a path, without an empty one behind a slash at its end. -/
def stem (path : String) : List String := ((lead path).splitOn '/').map String.ofList

theorem toList_eq_lead (path : String) :
    path.toList = lead path ∨ path.toList = lead path ++ ['/'] := by
  by_cases hslash : path.toList.getLast? = some '/'
  · obtain ⟨front, hfront⟩ := List.getLast?_eq_some_iff.1 hslash
    rw [lead, if_pos hslash, hfront, List.dropLast_concat]
    exact .inr rfl
  · exact .inl (if_neg hslash).symm

/-- A path is its stem, with an empty segment if it ends with a slash. -/
theorem segments_eq_stem (path : String) :
    segments path = stem path ∨ segments path = stem path ++ [""] := by
  rcases toList_eq_lead path with hlead | hlead
  · exact .inl (by rw [segments, hlead, stem])
  · exact .inr (by rw [segments, hlead, List.splitOn_append_cons_self, List.map_append]; rfl)

theorem stem_ne_nil (path : String) : stem path ≠ [] := by
  simp [stem]

variable {directory name path : String}

theorem toList_join (directory name : String) :
    (join directory name).toList = lead directory ++ '/' :: name.toList := by
  unfold join lead
  split
  · next hslash =>
      obtain ⟨front, hfront⟩ := List.getLast?_eq_some_iff.1 hslash
      rw [String.toList_append, hfront, List.dropLast_concat, List.append_assoc]
      rfl
  · rw [String.toList_append, String.toList_append, List.append_assoc]
    rfl

theorem join_ne_empty (directory name : String) : join directory name ≠ "" := by
  intro hempty
  have hcons := toList_join directory name
  simp [hempty] at hcons

theorem mem_toList_join {c : Char} (hslash : c ≠ '/') :
    c ∈ (join directory name).toList ↔ c ∈ directory.toList ∨ c ∈ name.toList := by
  obtain heq | heq := toList_eq_lead directory <;> simp [toList_join, heq, hslash]

theorem segments_join (hslash : '/' ∉ name.toList) :
    segments (join directory name) = stem directory ++ [name] := by
  rw [segments, toList_join, List.splitOn_append_cons_self,
    List.splitOn_eq_singleton hslash, List.map_append, List.map_singleton, String.ofList_toList]
  rfl

/-- A name that an entry of a directory can have. -/
structure IsName (name : String) : Prop where
  ne_empty : name ≠ ""
  ne_current : name ≠ "."
  ne_parent : name ≠ ".."
  no_slash : '/' ∉ name.toList
  no_nul : '\x00' ∉ name.toList
  short : name.utf8ByteSize ≤ Entry.maxNameLength

instance (name : String) : Decidable (IsName name) :=
  decidable_of_iff (name ≠ "" ∧ name ≠ "." ∧ name ≠ ".." ∧ '/' ∉ name.toList ∧
      '\x00' ∉ name.toList ∧ name.utf8ByteSize ≤ Entry.maxNameLength)
    ⟨fun ⟨h₁, h₂, h₃, h₄, h₅, h₆⟩ => ⟨h₁, h₂, h₃, h₄, h₅, h₆⟩,
      fun ⟨h₁, h₂, h₃, h₄, h₅, h₆⟩ => ⟨h₁, h₂, h₃, h₄, h₅, h₆⟩⟩

theorem utf8ByteSize_lt_join (hname : IsName name) (directory : String) :
    directory.utf8ByteSize < (join directory name).utf8ByteSize := by
  have hpos : name.utf8ByteSize ≠ 0 := mt String.utf8ByteSize_eq_zero_iff.1 hname.ne_empty
  unfold join
  split <;> simp only [String.utf8ByteSize_append] <;> omega

/-- A name that is joined to a path becomes its last segment, with no slash behind it. -/
theorem stem_join (hname : IsName name) :
    stem (join directory name) = stem directory ++ [name] := by
  have hlast : (join directory name).toList.getLast? ≠ some '/' := by
    have hcons : name.toList ≠ [] := fun hnil => hname.ne_empty (String.toList_eq_nil_iff.1 hnil)
    rw [toList_join, List.getLast?_append_cons, List.getLast?_cons_of_ne_nil hcons]
    exact fun hslash => hname.no_slash (List.mem_of_getLast? hslash)
  rw [← segments_join hname.no_slash, segments, stem, lead, if_neg hlast]

/-- The paths of what can be below a directory at any depth: names are joined to its path. -/
inductive Below : String → String → Prop
  | entry {directory name : String} : IsName name → Below directory (join directory name)
  | inside {directory name path : String} :
      IsName name → Below (join directory name) path → Below directory path

theorem below_iff : Below directory path ↔
    ∃ name, IsName name ∧ (path = join directory name ∨ Below (join directory name) path) := by
  constructor
  · rintro (hname | ⟨hname, hbelow⟩)
    · exact ⟨_, hname, .inl rfl⟩
    · exact ⟨_, hname, .inr hbelow⟩
  · rintro ⟨name, hname, rfl | hbelow⟩
    · exact .entry hname
    · exact .inside hname hbelow

/-- What is below a directory begins with the segments of the directory. -/
theorem Below.stem_prefix (h : Below directory path) : stem directory <+: stem path := by
  induction h with
  | entry hname => exact ⟨_, (stem_join hname).symm⟩
  | inside hname _ ih => exact (List.prefix_append _ _).trans (stem_join hname ▸ ih)

/-- Paths below two entries of a directory differ. -/
theorem name_eq_of_stem_prefix {name' : String} (hname : IsName name) (hname' : IsName name')
    (h : stem (join directory name) <+: stem path)
    (h' : stem (join directory name') <+: stem path) : name = name' := by
  rw [stem_join hname] at h
  rw [stem_join hname'] at h'
  have hlength : (stem directory ++ [name]).length = (stem directory ++ [name']).length := by
    simp only [List.length_append, List.length_singleton]
  simpa using (List.prefix_of_prefix_length_le h h' (Nat.le_of_eq hlength)).eq_of_length hlength

end Path

end Conformance
