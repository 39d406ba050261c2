import Conformance.Proofs.Sequence.Uses

/-!
# What a value holds

The elements of a value are said without pulls: those of a list or a tuple, one text for each
codepoint of a text, and the production of a sequence up to its first none. To materialize a value
is to get these elements, and it succeeds exactly if there are such elements.
-/

namespace Conformance

namespace Store

variable {s : Store} {h : Handle} {values values' : List Value}

/-- The values that a sequence still gives before its first none. -/
structure Holds (s : Store) (h : Handle) (values : List Value) : Prop where
  ne_running : s.state h ≠ .running
  before : values.map (fun v => some (some v)) = (List.range values.length).map (s.production h)
  after : s.production h values.length = some none

namespace Holds

theorem ne_none (holds : s.Holds h values) {n : ℕ} (hn : n < values.length) :
    s.production h n ≠ some none := by
  intro hnone
  have hmem : some none ∈ (List.range values.length).map (s.production h) :=
    List.mem_map.2 ⟨n, List.mem_range.2 hn, hnone⟩
  rw [← holds.before] at hmem
  simp at hmem

theorem length_eq (holds : s.Holds h values) : (s.production h).length = values.length :=
  Production.length_eq holds.after fun _ => holds.ne_none

theorem total (holds : s.Holds h values) : (s.production h).Total := by
  intro n hn
  rw [holds.length_eq, Nat.cast_le] at hn
  rcases Nat.lt_or_eq_of_le hn with hlt | rfl
  · have hmem : s.production h n ∈ (List.range values.length).map (s.production h) :=
      List.mem_map.2 ⟨n, List.mem_range.2 hlt, rfl⟩
    rw [← holds.before] at hmem
    obtain ⟨v, -, hv⟩ := List.mem_map.1 hmem
    rw [← hv]
    rfl
  · rw [holds.after]
    rfl

theorem unique (holds : s.Holds h values) (holds' : s.Holds h values') : values = values' := by
  have hlength : values.length = values'.length :=
    Nat.cast_inj.1 (holds.length_eq.symm.trans holds'.length_eq)
  have hmap := holds.before
  rw [hlength, ← holds'.before] at hmap
  exact List.map_injective_iff.2 (fun _ _ h => Option.some.inj (Option.some.inj h)) hmap

/-- The values up to the first none of a series of pulls. -/
theorem of_pulls {s' : Store} (hopen : (s.state h).isOpen)
    (series : Pulls h s (values.map some ++ [none]) s') : s.Holds h values := by
  obtain ⟨-, hrs⟩ := (Stands.start hopen).pulls series
  rw [← List.range_eq_range'] at hrs
  obtain ⟨m, hm, hvalues⟩ := Production.exists_values hrs
  have hlt := (Production.none_mem_iff hrs).1 (by simp)
  have hreduce : (values.map some ++ [none]).reduceOption = values := by simp [List.reduceOption]
  rw [hreduce] at hvalues
  have hlength : m = values.length := by simpa using (congrArg List.length hvalues).symm
  rw [min_eq_right hlt.le, hlength] at hm
  rw [hlength] at hvalues
  refine ⟨(Stands.start hopen).ne_running, hvalues, ?_⟩
  have hlast := congrArg (·[values.length]?) hrs
  simpa [Production.fused_of_le hm.le] using hlast.symm

theorem of_exhausted (hs : s.state h = .exhausted) : s.Holds h [] where
  ne_running := by simp [hs]
  before := rfl
  after := by simp [production, hs]

end Holds

theorem state_of_pull_none {s' : Store} (hpull : s.pull h = some (.ok none, s')) :
    s'.state h = .exhausted := by
  cases hs : s.state h with
  | running =>
      rw [pull_running hs] at hpull
      cases hpull
  | exhausted =>
      rw [pull_exhausted hs] at hpull
      cases hpull
      exact hs
  | eager items cursor =>
      rw [pull_eager hs, Option.some.injEq, Prod.mk.injEq, Except.ok.injEq] at hpull
      obtain ⟨hnone, rfl⟩ := hpull
      have hlt : h.index < s.cells.length := index_lt_of_state (by simp [hs])
      rw [if_neg (Nat.not_lt.2 (List.getElem?_eq_none_iff.1 hnone)), state_setState,
        if_pos ⟨rfl, hlt⟩]
  | waiting g past =>
      obtain ⟨value, log, -, -, heq, hstate, -, -⟩ := pull_waiting_cases hs hpull
      cases heq
      exact hstate

/-- A drain that gives values leaves the sequence exhausted. -/
theorem state_of_drain {s' : Store} {seen : List Value}
    (hdrain : s.drain h seen = some (.ok values, s')) : s'.state h = .exhausted := by
  refine drain_induction
    (motive := fun _ _ r s' => (∃ values, r = .ok values) → s'.state h = .exhausted)
    ?more ?last ?refused hdrain ⟨values, rfl⟩
  case more =>
    intro s s₁ s₂ v seen r _ ih hok
    exact ih hok
  case last =>
    intro s s' seen hpull _
    exact state_of_pull_none hpull
  case refused =>
    rintro s s' seen e - ⟨_, heq⟩
    cases heq

/-- A drain gives what the sequence holds. -/
theorem exists_drain_iff :
    (∃ s', s.drain h [] = some (.ok values, s')) ↔ s.Holds h values := by
  cases hs : s.state h with
  | running =>
      rw [drain_of_error (pull_running hs)]
      constructor
      · rintro ⟨s', hdrain⟩
        cases hdrain
      · exact fun holds => absurd hs holds.ne_running
  | exhausted =>
      have hnone : s.Holds h [] := .of_exhausted hs
      rw [drain_of_none (pull_exhausted hs)]
      constructor
      · rintro ⟨s', hdrain⟩
        cases hdrain
        exact hnone
      · intro holds
        exact ⟨s, by rw [← hnone.unique holds]; rfl⟩
  | eager | waiting =>
      have hopen : (s.state h).isOpen := by rw [hs]; rfl
      have hidle := (Stands.start hopen).ne_running
      constructor
      · rintro ⟨s', hdrain⟩
        obtain ⟨_, heq, series⟩ := (drain_eq_some_iff hidle [] _).1 hdrain
        cases heq
        exact .of_pulls hopen series
      · intro holds
        have hfinite : (s.production h).length ≠ ⊤ := by
          rw [holds.length_eq]
          exact ENat.natCast_ne_top _
        obtain ⟨⟨r, s'⟩, hdrain⟩ := (Stands.start hopen).drain_ends holds.total hfinite []
        obtain ⟨values', rfl, series⟩ := (drain_eq_some_iff hidle [] _).1 hdrain
        rw [(Holds.of_pulls hopen series).unique holds] at hdrain
        exact ⟨s', hdrain⟩

end Store

namespace Value

/-- The elements that a value holds. -/
def Holds (s : Store) (elements : List Value) : Value → Prop
  | str t => elements = t.chars.map fun c => .str (Text.singleton c)
  | list items | tuple items => elements = items
  | lazy h => s.Holds h elements
  | _ => False

/-- A value materializes to the elements that it holds. -/
theorem exists_materialize_iff {v : Value} {s : Store} {elements : List Value} :
    (∃ s', v.materialize.run s = some (.ok elements, s')) ↔ v.Holds s elements := by
  cases v with
  | lazy h => exact Store.exists_drain_iff
  | str | list | tuple =>
      constructor
      · rintro ⟨s', hrun⟩
        cases hrun
        rfl
      · rintro rfl
        exact ⟨s, rfl⟩
  | nothing | bool | int =>
      constructor
      · rintro ⟨s', hrun⟩
        cases hrun
      · exact False.elim

/-- A sequence that was materialized has no elements left. -/
theorem materialize_lazy_again {h : Handle} {s s' : Store} {elements : List Value}
    (hrun : (lazy h).materialize.run s = some (.ok elements, s')) :
    (lazy h).materialize.run s' = some (.ok [], s') :=
  Store.drain_of_none (Store.pull_exhausted (Store.state_of_drain hrun)) []

end Value

end Conformance
