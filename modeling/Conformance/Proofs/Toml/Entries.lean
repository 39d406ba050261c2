import Mathlib.Data.List.Sort
import Mathlib.Data.String.Basic
import Conformance.Toml.Basic
import Conformance.Proofs.Traversal

/-!
# Settled tables

Entries that are inserted one by one stay in the strict order of their keys, so each key is there
once. Such entries are known by the values of the keys alone.
-/

namespace Conformance

namespace Toml.Entries

variable {entries entries' : Entries} {key : String} {value : Toml}

/-- The keys grow strictly from entry to entry. -/
def Sorted (entries : Entries) : Prop := entries.Pairwise fun entry later => entry.1 < later.1

theorem Sorted.nodup (h : entries.Sorted) : (entries.map (·.1)).Nodup :=
  List.pairwise_map.2 (h.imp ne_of_lt)

@[simp] theorem get?_nil (key : String) : get? [] key = none := rfl

theorem get?_cons (first key : String) (value : Toml) (entries : Entries) :
    get? ((first, value) :: entries) key =
      if first = key then some value else entries.get? key := by
  by_cases h : first = key
  · simp [get?, h]
  · have hb : (first == key) = false := beq_false_of_ne h
    simp [get?, hb, h]

theorem get?_append (front back : Entries) (key : String) :
    get? (front ++ back) key = (front.get? key).or (back.get? key) := by
  rw [get?, List.find?_append, Option.map_or]
  rfl

theorem mem_of_get? (h : entries.get? key = some value) : (key, value) ∈ entries :=
  mem_of_map_find?_key h

/-- Where each key is there once, its entry is found. -/
theorem get?_eq_some_iff (h : (entries.map (·.1)).Nodup) :
    entries.get? key = some value ↔ (key, value) ∈ entries :=
  map_find?_key_eq_some_iff h

theorem isSome_get?_iff (entries : Entries) (key : String) :
    (entries.get? key).isSome ↔ key ∈ entries.map (·.1) := by
  simp [get?]

theorem mem_insert {entry : String × Toml} (h : entry ∈ entries.insert key value) :
    entry = (key, value) ∨ entry ∈ entries := by
  induction entries with
  | nil => exact .inl (List.mem_singleton.1 h)
  | cons first rest ih =>
      rw [insert] at h
      split at h
      · exact List.mem_cons.1 h
      · split at h
        · exact (List.mem_cons.1 h).imp_right (List.mem_cons_of_mem _)
        · obtain rfl | hrest := List.mem_cons.1 h
          · exact .inr List.mem_cons_self
          · exact (ih hrest).imp_right (List.mem_cons_of_mem _)

/-- An entry goes where its key belongs. -/
theorem Sorted.insert (h : entries.Sorted) (key : String) (value : Toml) :
    (entries.insert key value).Sorted := by
  induction entries with
  | nil => exact List.pairwise_singleton ..
  | cons first rest ih =>
      obtain ⟨hfirst, hrest⟩ := List.pairwise_cons.1 h
      rw [Entries.insert]
      obtain hlt | rfl | hgt := lt_trichotomy key first.1
      · rw [if_pos hlt]
        refine List.pairwise_cons.2 ⟨List.forall_mem_cons.2 ⟨hlt, ?_⟩, h⟩
        exact fun later hlater => hlt.trans (hfirst later hlater)
      · rw [if_neg (lt_irrefl _), if_pos rfl]
        exact List.pairwise_cons.2 ⟨hfirst, hrest⟩
      · rw [if_neg hgt.asymm, if_neg hgt.ne']
        refine List.pairwise_cons.2 ⟨fun later hlater => ?_, ih hrest⟩
        obtain rfl | hold := mem_insert hlater
        · exact hgt
        · exact hfirst later hold

theorem get?_insert (entries : Entries) (key other : String) (value : Toml) :
    (entries.insert key value).get? other =
      if key = other then some value else entries.get? other := by
  induction entries with
  | nil => rw [insert, get?_cons]
  | cons entry rest ih =>
      obtain ⟨first, old⟩ := entry
      rw [insert]
      obtain hlt | rfl | hgt := lt_trichotomy key first
      · rw [if_pos hlt, get?_cons]
      · rw [if_neg (lt_irrefl _), if_pos rfl, get?_cons, get?_cons]
        split <;> rfl
      · rw [if_neg hgt.asymm, if_neg hgt.ne', get?_cons, ih, get?_cons]
        by_cases hother : first = other
        · rw [if_pos hother, if_pos hother, if_neg fun heq => hgt.ne' (heq.trans hother.symm)]
        · rw [if_neg hother, if_neg hother]

/-- Inserting entries one after the other: the last one of a key counts. -/
theorem foldl_insert (pairs : List (String × Toml)) (hentries : entries.Sorted) :
    let result := pairs.foldl (fun entries pair => entries.insert pair.1 pair.2) entries
    result.Sorted ∧ ∀ key, result.get? key = (get? pairs.reverse key).or (entries.get? key) := by
  induction pairs generalizing entries with
  | nil => exact ⟨hentries, fun key => rfl⟩
  | cons pair rest ih =>
      obtain ⟨hsorted, hget⟩ := ih (hentries.insert pair.1 pair.2)
      refine ⟨hsorted, fun key => (hget key).trans ?_⟩
      rw [List.reverse_cons, get?_append, Option.or_assoc, get?_cons, get?_insert, get?_nil]
      split <;> rfl

theorem sorted_ofList (pairs : List (String × Toml)) : (ofList pairs).Sorted :=
  (foldl_insert pairs .nil).1

theorem get?_ofList (pairs : List (String × Toml)) (key : String) :
    (ofList pairs).get? key = get? pairs.reverse key := by
  rw [ofList, (foldl_insert pairs .nil).2, get?_nil, Option.or_none]

/-- Settled tables with the same values are the same. -/
theorem Sorted.ext (h : entries.Sorted) (h' : entries'.Sorted)
    (hget : ∀ key, entries.get? key = entries'.get? key) : entries = entries' := by
  have hmem : ∀ entry, entry ∈ entries ↔ entry ∈ entries' := by
    rintro ⟨key, value⟩
    rw [← get?_eq_some_iff h.nodup, hget, get?_eq_some_iff h'.nodup]
  have hperm : entries.Perm entries' :=
    (List.perm_ext_iff_of_nodup h.nodup.of_map h'.nodup.of_map).2 hmem
  exact hperm.eq_of_pairwise (fun _ _ _ _ hlt hgt => absurd hgt hlt.asymm) h h'

end Toml.Entries

end Conformance
