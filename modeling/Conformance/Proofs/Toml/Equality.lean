import Conformance.Proofs.Toml.Parts

/-!
# Equality of TOML values

TOML values are compared part by part, and all parts but floats are equal to themselves only. A
value without floats at any depth is therefore equal to itself and to no other value.
-/

namespace Conformance

namespace Toml

/-- No float is in the value, at any depth. -/
def IsFloatFree (t : Toml) : Prop := ∀ part ∈ t.parts, part.kind ≠ .float

theorem isFloatFree_array {items : List Toml} :
    (array items).IsFloatFree ↔ ∀ part ∈ partsOf items, part.kind ≠ .float := by
  rw [IsFloatFree, parts, List.forall_mem_cons, and_iff_right (by simp [kind])]

theorem isFloatFree_table {entries : Entries} :
    (table entries).IsFloatFree ↔ ∀ entry ∈ entries, entry.2.IsFloatFree := by
  rw [IsFloatFree, parts, List.forall_mem_cons, and_iff_right (by simp [kind])]
  induction entries with
  | nil => simp [partsOfEntries]
  | cons entry rest ih =>
      rw [partsOfEntries, List.forall_mem_append, ih, List.forall_mem_cons]
      rfl

mutual

theorem same_iff_of_isFloatFree :
    (a : Toml) → a.IsFloatFree → (b : Toml) → (same a b = true ↔ a = b)
  | .string _, _, b | .integer _, _, b | .boolean _, _, b | .datetime _, _, b => by
      cases b <;> simp [same]
  | .float x, h, _ => absurd rfl (h (.float x) (by simp [parts]))
  | .array items, h, b => by
      cases b with
      | array others => simp [same, sameItems_iff items (isFloatFree_array.1 h) others]
      | _ => simp [same]
  | .table entries, h, b => by
      cases b with
      | table others => simp [same, sameEntries_iff entries (isFloatFree_table.1 h) others]
      | _ => simp [same]

theorem sameItems_iff : (items : List Toml) → (∀ part ∈ partsOf items, part.kind ≠ .float) →
    (others : List Toml) → (sameItems items others = true ↔ items = others)
  | [], _, others => by cases others <;> simp [sameItems]
  | t :: rest, h, others => by
      obtain ⟨hfirst, hrest⟩ := List.forall_mem_append.1 h
      cases others with
      | nil => simp [sameItems]
      | cons other others =>
          rw [sameItems, Bool.and_eq_true, same_iff_of_isFloatFree t hfirst,
            sameItems_iff rest hrest, List.cons.injEq]

theorem sameEntries_iff : (entries : Entries) → (∀ entry ∈ entries, entry.2.IsFloatFree) →
    (others : Entries) → (sameEntries entries others = true ↔ entries = others)
  | [], _, others => by cases others <;> simp [sameEntries]
  | (key, t) :: rest, h, others => by
      obtain ⟨hfirst, hrest⟩ := List.forall_mem_cons.1 h
      cases others with
      | nil => simp [sameEntries]
      | cons other others =>
          rw [sameEntries, Bool.and_eq_true, Bool.and_eq_true, beq_iff_eq,
            same_iff_of_isFloatFree t hfirst, sameEntries_iff rest hrest, List.cons.injEq,
            Prod.ext_iff]

end

/-- A value without floats is equal to itself and to no other value. -/
theorem beq_iff_of_isFloatFree {a b : Toml} (ha : a.IsFloatFree) : (a == b) = true ↔ a = b :=
  same_iff_of_isFloatFree a ha b

end Toml

end Conformance
