import Mathlib.Logic.Equiv.Defs
import Conformance.Proofs.Assignment.Scope

/-!
# Assigning names to names

The sources of an assignment from names are read in the scope as it is before, so it does not
matter how they overlap with the targets. Names that are bound can therefore be exchanged along
any permutation, and the inverse permutation puts back the scope as it was.
-/

namespace Conformance

namespace Scope

/-! ## Writing names that are bound -/

theorem write_append (s : Scope) (first second : Bindings) :
    s.write (first ++ second) = (s.write first).write second :=
  List.foldl_append

/-- Writing goes through the entries from the front: the first one takes the last value that is
written to its name, and the writes of other names go on to the rest. -/
theorem write_cons (name : String) (value : Value) (rest bindings : Bindings) :
    write ⟨(name, value) :: rest⟩ bindings =
      ⟨(name, (bindings.latest? name).getD value) ::
        (write ⟨rest⟩ (bindings.filter (·.1 ≠ name))).entries⟩ := by
  induction bindings generalizing value rest with
  | nil => rfl
  | cons binding later ih =>
      obtain ⟨target, new⟩ := binding
      have hstep : write ⟨(name, value) :: rest⟩ ((target, new) :: later) =
          write (set ⟨(name, value) :: rest⟩ target new) later := rfl
      rw [hstep, set, put, Bindings.latest?_cons]
      by_cases h : name = target
      · subst h
        rw [if_pos rfl, if_pos rfl, ih, List.filter_cons_of_neg (by simp)]
        cases Bindings.latest? later name <;> rfl
      · rw [if_neg h, if_neg (Ne.symm h), ih, Option.or_none,
          List.filter_cons_of_pos (by simpa using Ne.symm h)]
        rfl

/-- Writes of bound names that change no value leave the scope as it is. -/
theorem write_eq_self {s : Scope} {bindings : Bindings}
    (hbound : ∀ name ∈ bindings.map (·.1), (s.get? name).isSome)
    (hget : ∀ name, (s.write bindings).get? name = s.get? name) : s.write bindings = s := by
  obtain ⟨entries⟩ := s
  induction entries generalizing bindings with
  | nil =>
      cases bindings with
      | nil => rfl
      | cons binding later => cases hbound binding.1 List.mem_cons_self
  | cons entry rest ih =>
      obtain ⟨name, value⟩ := entry
      have hfirst : (bindings.latest? name).getD value = value := by
        have h := hget name
        rw [get?_write, Scope.get?, Bindings.get?_cons, if_pos rfl] at h
        cases hlatest : bindings.latest? name with
        | none => rfl
        | some v => simpa [hlatest] using h
      have hrest : write ⟨rest⟩ (bindings.filter (·.1 ≠ name)) = ⟨rest⟩ := by
        apply ih
        · intro other hother
          obtain ⟨binding, hmem, rfl⟩ := List.mem_map.1 hother
          obtain ⟨hmem, hkept⟩ := List.mem_filter.1 hmem
          have hne : name ≠ binding.1 := Ne.symm (of_decide_eq_true hkept)
          have h := hbound binding.1 (List.mem_map_of_mem hmem)
          rwa [Scope.get?, Bindings.get?_cons, if_neg hne] at h
        · intro other
          by_cases hne : name = other
          · subst hne
            have hnone : Bindings.latest? (bindings.filter (·.1 ≠ name)) name = none := by
              rw [Bindings.latest?_eq_none_iff]
              simp
            rw [get?_write, hnone, Option.none_or]
          · have h := hget other
            rw [write_cons, Scope.get?, Bindings.get?_cons, if_neg hne, Scope.get?,
              Bindings.get?_cons, if_neg hne] at h
            exact h
      rw [write_cons, hfirst, hrest]

/-- Of names written once each, every one has the value at its position. -/
theorem get?_write_zip (s : Scope) {names : List String} {values : List Value}
    (hnodup : names.Nodup) (hlength : values.length = names.length) {i : ℕ}
    (hi : i < names.length) :
    (s.write (names.zip values)).get? names[i] = some values[i] := by
  have hkeys : ((names.zip values).map (·.1)).Nodup := by
    rwa [List.map_fst_zip (Nat.le_of_eq hlength.symm)]
  have hmem : (names[i], values[i]) ∈ names.zip values := by
    rw [List.mem_iff_getElem]
    exact ⟨i, by simp [hlength, hi], List.getElem_zip⟩
  rw [get?_write, Bindings.latest?_eq_get? hkeys, Bindings.get?_of_mem hkeys hmem, Option.some_or]

/-! ## Assigning bound names -/

variable {s s' : Scope} {p : Pattern} {names sources : List String}

/-- All of some names are bound if they have values. -/
theorem exists_values_iff : (∃ values : List Value, sources.map s.get? = values.map some) ↔
    ∀ name ∈ sources, (s.get? name).isSome := by
  simp only [← mapM_load_eq_ok_iff, exists_mapM_eq_ok_iff, load_eq_ok_iff, Option.isSome_iff_exists]

/-- Assigning to distinct names gives each of them the value that its source had before. -/
theorem assignNames_plain (hp : p.targets = names.map (⟨·, false⟩)) (hnodup : names.Nodup)
    (hlength : sources.length = names.length)
    (hbound : ∀ name ∈ sources, (s.get? name).isSome) :
    ∃ bindings : Bindings, bindings.map (·.1) = names ∧
      s.assignNames p sources = .ok (s.write bindings) ∧
      ∀ i (hi : i < names.length), (s.write bindings).get? names[i] = s.get? sources[i] := by
  obtain ⟨values, hvalues⟩ := exists_values_iff.2 hbound
  have hcount : values.length = names.length := by
    simpa [hlength] using (congrArg List.length hvalues).symm
  have hshares : Shares p.targets values (names.zip values) := by
    have hplain : AllPlain p.targets := by simp [AllPlain, hp]
    have hnames : p.targets.map (·.name) = names := by simp [hp, Function.comp_def]
    rw [← hnames]
    exact Shares.zip_names hplain (by simp [hp, hcount])
  refine ⟨_, List.map_fst_zip (Nat.le_of_eq hcount.symm),
    assignNames_eq_ok_iff.2 ⟨values, _, hvalues, hshares, rfl⟩, fun i hi => ?_⟩
  have hsource : (sources.map s.get?)[i]? = (values.map some)[i]? := by rw [hvalues]
  rw [get?_write_zip s hnodup hcount hi]
  simpa [hlength, hcount, hi] using hsource.symm

/-- An assignment from names fails with the first source that is not bound, or else with a number
of values that does not fit. -/
theorem assignNames_eq_error_iff {e : Fault} : s.assignNames p sources = .error e ↔
    (∃ before name after, sources = before ++ name :: after ∧
      (∀ other ∈ before, (s.get? other).isSome) ∧ s.get? name = none ∧
      e = .undefinedName name) ∨
    (∀ name ∈ sources, (s.get? name).isSome) ∧ ¬ p.Accepts sources.length ∧
      e = .unpackMismatch p.required sources.length p.star?.isSome := by
  have hread : sources.mapM s.load = .error e ↔ _ := mapM_eq_error_iff
  simp only [load_eq_ok_iff, ← Option.isSome_iff_exists, load_eq_error_iff] at hread
  rw [← hread, ← exists_values_iff, assignNames]
  cases hload : sources.mapM s.load with
  | error cause =>
      have hnone : ¬ ∃ values : List Value, sources.map s.get? = values.map some := by
        rintro ⟨values, hvalues⟩
        rw [mapM_load_eq_ok_iff.2 hvalues] at hload
        cases hload
      simp [hnone, bind, Except.bind]
  | ok values =>
      have hvalues := mapM_load_eq_ok_iff.1 hload
      have hcount : values.length = sources.length := by
        simpa using (congrArg List.length hvalues).symm
      rw [and_iff_right ⟨values, hvalues⟩, ← hcount]
      change (p.unpack values).map s.write = .error e ↔ _
      by_cases haccepts : p.Accepts values.length
      · obtain ⟨bindings, hok, -⟩ := Pattern.unpack_of_accepts haccepts
        simp [hok, haccepts, Except.map]
      · simp [Pattern.unpack_of_not_accepts haccepts, haccepts, Except.map, eq_comm]

/-- Some names in the order of a permutation of their positions. -/
def arranged (names : List String) (σ : Equiv.Perm (Fin names.length)) : List String :=
  List.ofFn fun i => names.get (σ i)

theorem arranged_subset (names : List String) (σ : Equiv.Perm (Fin names.length)) :
    arranged names σ ⊆ names := by
  intro name hname
  obtain ⟨i, rfl⟩ := List.mem_ofFn.1 hname
  exact List.get_mem ..

/-- Distinct bound names are given each other's values. -/
theorem assignNames_arranged (hp : p.targets = names.map (⟨·, false⟩)) (hnodup : names.Nodup)
    (hbound : ∀ name ∈ names, (s.get? name).isSome) (σ : Equiv.Perm (Fin names.length)) :
    ∃ bindings : Bindings, bindings.map (·.1) = names ∧
      s.assignNames p (arranged names σ) = .ok (s.write bindings) ∧
      ∀ i, (s.write bindings).get? (names.get i) = s.get? (names.get (σ i)) := by
  have hlength : (arranged names σ).length = names.length := List.length_ofFn
  obtain ⟨bindings, hnames, hok, hget⟩ := assignNames_plain hp hnodup hlength
    fun name hname => hbound name (arranged_subset names σ hname)
  refine ⟨bindings, hnames, hok, fun i => (hget i i.2).trans ?_⟩
  simp [arranged]

/-- The value of a name that is not among the names written. -/
theorem get?_write_of_not_mem {bindings : Bindings} {name : String}
    (h : name ∉ bindings.map (·.1)) : (s.write bindings).get? name = s.get? name := by
  rw [get?_write, (bindings.latest?_eq_none_iff name).2 h, Option.none_or]

end Scope

/-- An assignment from names reads all sources before it writes. Distinct bound names that are
assigned to each other along a permutation have the values that their sources had before, the other
names keep theirs, and assigning along the inverse permutation restores the scope. Whatever the
pattern and the sources are, the values that an assignment shares out among the targets are those
that the sources had before, and an assignment fails with the first source that is not bound, or
with the number of values if all are bound and do not fit. -/
theorem assignNames_reads_first (s : Scope) :
    (∀ (names : List String) (σ : Equiv.Perm (Fin names.length)), names.Nodup →
      (∀ name ∈ names, (s.get? name).isSome) →
      ∃ p s', Pattern.ofTargets (names.map (⟨·, false⟩)) = .ok p ∧
        s.assignNames p (Scope.arranged names σ) = .ok s' ∧
        (∀ i, s'.get? (names.get i) = s.get? (names.get (σ i))) ∧
        (∀ name, name ∉ names → s'.get? name = s.get? name) ∧
        s'.assignNames p (Scope.arranged names σ.symm) = .ok s) ∧
    ∀ (p : Pattern) (sources : List String),
      (∀ s', s.assignNames p sources = .ok s' → ∃ values bindings,
        sources.map s.get? = values.map some ∧ Shares p.targets values bindings ∧
        ∀ name, s'.get? name = (bindings.latest? name).or (s.get? name)) ∧
      ∀ e, s.assignNames p sources = .error e ↔
        (∃ before name after, sources = before ++ name :: after ∧
          (∀ other ∈ before, (s.get? other).isSome) ∧ s.get? name = none ∧
          e = .undefinedName name) ∨
        (∀ name ∈ sources, (s.get? name).isSome) ∧ ¬ p.Accepts sources.length ∧
          e = .unpackMismatch p.required sources.length p.star?.isSome := by
  refine ⟨fun names σ hnodup hbound => ?_, fun p sources => ⟨fun s' hok => ?_, fun e =>
    Scope.assignNames_eq_error_iff⟩⟩
  · have hcount : (names.map (⟨·, false⟩ : String → Target)).countP (·.starred) ≤ 1 := by
      simp [Function.comp_def]
    let p : Pattern := ⟨_, hcount⟩
    obtain ⟨there, hthere, hok, hget⟩ := Scope.assignNames_arranged (p := p) rfl hnodup hbound σ
    have hframe : ∀ name, name ∉ names → (s.write there).get? name = s.get? name :=
      fun name hname => Scope.get?_write_of_not_mem (hthere ▸ hname)
    have hstill : ∀ name ∈ names, ((s.write there).get? name).isSome := by
      intro name hname
      obtain ⟨i, rfl⟩ := List.mem_iff_get.1 hname
      rw [hget]
      exact hbound _ (List.get_mem ..)
    obtain ⟨back, hback, hok', hget'⟩ :=
      Scope.assignNames_arranged (p := p) rfl hnodup hstill σ.symm
    refine ⟨p, _, dif_pos hcount, hok, hget, hframe, hok'.trans (congrArg _ ?_)⟩
    rw [← Scope.write_append]
    apply Scope.write_eq_self
    · rw [List.map_append, hthere, hback]
      exact fun name hname => hbound name (by simpa using hname)
    · intro name
      rw [Scope.write_append]
      by_cases hname : name ∈ names
      · obtain ⟨i, rfl⟩ := List.mem_iff_get.1 hname
        rw [hget', hget, Equiv.apply_symm_apply]
      · rw [Scope.get?_write_of_not_mem (hback ▸ hname), hframe name hname]
  · obtain ⟨values, bindings, hvalues, hshares, rfl⟩ := Scope.assignNames_eq_ok_iff.1 hok
    exact ⟨values, bindings, hvalues, hshares, s.get?_write bindings⟩

/-- Three names that are exchanged in a circle and put back. -/
theorem assignNames_reads_first_cycle :
    let s : Scope := ⟨[("a", .int 1), ("b", .int 2), ("c", .int 3)]⟩
    let names := ["a", "b", "c"]
    names.Nodup ∧ (∀ name ∈ names, (s.get? name).isSome) ∧ ∃ p s',
      s.assignNames p ["b", "c", "a"] = .ok s' ∧ s'.get? "c" = some (.int 1) ∧
      s'.assignNames p ["c", "a", "b"] = .ok s := by
  intro s names
  let onward : Equiv.Perm (Fin 3) :=
    ⟨(· + 1), (· - 1), fun i => by decide +revert, fun i => by decide +revert⟩
  have hnodup : names.Nodup := by decide
  have hbound : ∀ name ∈ names, (s.get? name).isSome := by decide
  obtain ⟨p, s', -, hok, hget, -, hback⟩ :=
    (assignNames_reads_first s).1 names onward hnodup hbound
  have hlast : s.get? (names.get (onward 2)) = some (.int 1) := by decide
  exact ⟨hnodup, hbound, p, s', hok, (hget 2).trans hlast, hback⟩

end Conformance
