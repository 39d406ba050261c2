import Mathlib.Data.ENat.Lattice
import Mathlib.Data.List.ReduceOption
import Conformance.Proofs.Sequence.Series

/-!
# Productions

What a sequence produces is said without pulls: the values laid out from the cursor on, or what
the steps of its generator give when they are run one after the other, also after one of them
gave none. A series of pulls gives the production up to its first none, and none from there on.
-/

namespace Conformance

/-- What a generator learned, and the store, after `n` steps. The sequence of the generator counts
as running during each step, so a step that pulls it is refused. -/
def Generator.after (g : Generator) (h : Handle) (past : Past) (s : Store) :
    ℕ → Option (Past × Store)
  | 0 => some (past, s)
  | n + 1 => (g.after h past s n).bind fun (past, s) =>
      ((g.step past).run (s.enter h)).map fun (_, log, s) => (log :: past, s)

/-- What the step gives after `n` others. There is no outer value if one of them does not end. -/
def Generator.result (g : Generator) (h : Handle) (past : Past) (s : Store) (n : ℕ) :
    Option (Option Value) :=
  (g.after h past s n).bind fun (past, s) =>
    ((g.step past).run (s.enter h)).map fun (value, _, _) => value

theorem Generator.after_succ {g : Generator} {h : Handle} {past past' : Past} {s t s' : Store}
    {n : ℕ} {value : Option Value} {log : List Exchange}
    (hafter : g.after h past s n = some (past', t))
    (hrun : (g.step past').run (t.enter h) = some (value, log, s')) :
    g.after h past s (n + 1) = some (log :: past', s') := by
  simp [Generator.after, hafter, hrun]

theorem Generator.result_of_after {g : Generator} {h : Handle} {past past' : Past} {s t : Store}
    {n : ℕ} (hafter : g.after h past s n = some (past', t)) :
    g.result h past s n = ((g.step past').run (t.enter h)).map (·.1) := by
  simp [Generator.result, hafter]

/-- What a producer gives at each call, if the call ends. -/
abbrev Production := ℕ → Option (Option Value)

/-- What a sequence produces from its present state on. -/
def Store.production (s : Store) (h : Handle) : Production := fun n =>
  match s.state h with
  | .eager items cursor => some items[cursor + n]?
  | .waiting g past => g.result h past s n
  | .running | .exhausted => some none

namespace Production

variable {p : Production} {n k : ℕ}

/-- How many values come before the first none. -/
noncomputable def length (p : Production) : ℕ∞ := ⨅ (n : ℕ) (_ : p n = some none), (n : ℕ∞)

theorem le_length_iff : (n : ℕ∞) ≤ p.length ↔ ∀ k < n, p k ≠ some none := by
  simp only [length, le_iInf_iff, Nat.cast_le]
  constructor
  · intro h k hk hnone
    exact absurd (h k hnone) (Nat.not_le.2 hk)
  · intro h k hnone
    by_contra hk
    exact h k (Nat.not_le.1 hk) hnone

theorem length_le (hnone : p n = some none) : p.length ≤ n :=
  iInf₂_le n hnone

theorem length_eq (hnone : p n = some none) (hbefore : ∀ k < n, p k ≠ some none) :
    p.length = n :=
  le_antisymm (length_le hnone) (le_length_iff.2 hbefore)

theorem length_ne_top_iff : p.length ≠ ⊤ ↔ ∃ n, p n = some none := by
  simp [length]

theorem succ_le_length (hn : (n : ℕ∞) ≤ p.length) (hvalue : p n ≠ some none) :
    ((n + 1 : ℕ) : ℕ∞) ≤ p.length := by
  rw [le_length_iff] at hn ⊢
  intro k hk
  rcases Nat.lt_succ_iff_lt_or_eq.1 hk with hk | rfl
  · exact hn k hk
  · exact hvalue

/-- The production, with none for ever after its first none. -/
noncomputable def fused (p : Production) (n : ℕ) : Option (Option Value) :=
  if (n : ℕ∞) ≤ p.length then p n else some none

theorem fused_of_le (hn : (n : ℕ∞) ≤ p.length) : p.fused n = p n :=
  if_pos hn

theorem fused_of_none (hnone : p k = some none) (hk : k ≤ n) : p.fused n = some none := by
  by_cases hn : (n : ℕ∞) ≤ p.length
  · have hkn : k = n := by
      by_contra hne
      exact le_length_iff.1 hn k (lt_of_le_of_ne hk hne) hnone
    rw [fused_of_le hn, ← hkn, hnone]
  · rw [fused, if_neg hn]

/-- All calls up to the first that gives none come to an end. -/
def Total (p : Production) : Prop := ∀ n : ℕ, (n : ℕ∞) ≤ p.length → (p n).isSome

theorem Total.fused (hp : p.Total) (n : ℕ) : (p.fused n).isSome := by
  rw [Production.fused]
  split
  · next hn => exact hp n hn
  · rfl

/-- One of the first calls gives none if these calls reach beyond the values. -/
theorem none_mem_iff {rs : List (Option Value)}
    (hrs : rs.map some = (List.range rs.length).map p.fused) :
    none ∈ rs ↔ p.length < rs.length := by
  have hmem : none ∈ rs ↔ ∃ n < rs.length, p.fused n = some none := by
    rw [← List.mem_map_of_injective (Option.some_injective _), hrs]
    simp
  rw [hmem]
  constructor
  · rintro ⟨n, hn, hnone⟩
    refine lt_of_le_of_lt ?_ (Nat.cast_lt.2 hn)
    by_cases hle : (n : ℕ∞) ≤ p.length
    · rw [fused_of_le hle] at hnone
      exact length_le hnone
    · exact le_of_not_ge hle
  · intro hlt
    by_contra hno
    refine absurd (le_length_iff.2 ?_) (not_le_of_gt hlt)
    intro k hk hnone
    exact hno ⟨k, hk, fused_of_none hnone le_rfl⟩

/-- What is given at the first calls holds the first values, and these only. -/
theorem exists_values {rs : List (Option Value)}
    (hrs : rs.map some = (List.range rs.length).map p.fused) :
    ∃ m : ℕ, (m : ℕ∞) = min (rs.length : ℕ∞) p.length ∧
      rs.reduceOption.map (fun v => some (some v)) = (List.range m).map p := by
  induction rs using List.reverseRecOn with
  | nil => exact ⟨0, by simp, rfl⟩
  | append_singleton rs r ih =>
      simp only [List.map_append, List.length_append, List.length_singleton, List.range_succ] at hrs
      obtain ⟨hrs, hr⟩ := List.append_inj' hrs rfl
      obtain ⟨m, hm, hvalues⟩ := ih hrs
      replace hr : some r = p.fused rs.length := by simpa using hr
      rw [List.reduceOption_append, List.length_append, List.length_singleton]
      by_cases hlen : (rs.length : ℕ∞) ≤ p.length
      · rw [min_eq_left hlen, Nat.cast_inj] at hm
        subst hm
        rw [fused_of_le hlen] at hr
        cases r with
        | none =>
            have heq := length_eq hr.symm (le_length_iff.1 hlen)
            refine ⟨rs.length, ?_, by simpa using hvalues⟩
            rw [heq, min_eq_right (by simp)]
        | some v =>
            have hle := succ_le_length hlen (by simp [← hr])
            refine ⟨rs.length + 1, (min_eq_left hle).symm, ?_⟩
            rw [List.range_succ, List.map_append, List.map_append, hvalues]
            simp [List.reduceOption, hr]
      · have hle : p.length ≤ rs.length := le_of_not_ge hlen
        rw [Production.fused, if_neg hlen] at hr
        cases hr
        refine ⟨m, ?_, by simpa using hvalues⟩
        rw [hm, min_eq_right hle, min_eq_right (hle.trans (by simp))]

end Production

/-- Where a sequence stands after `n` pulls since the store `s₀`. -/
inductive Store.Stands (s₀ : Store) (h : Handle) (n : ℕ) (s : Store) : Prop
  | eager {items : List Value} {cursor : ℕ} (origin : s₀.state h = .eager items cursor)
      (values : (n : ℕ∞) ≤ (s₀.production h).length)
      (now : s.state h = .eager items (cursor + n))
  | waiting {g : Generator} {past past' : Past} {t : Store} (origin : s₀.state h = .waiting g past)
      (values : (n : ℕ∞) ≤ (s₀.production h).length)
      (after : g.after h past s₀ n = some (past', t)) (same : s.enter h = t.enter h)
      (now : s.state h = .waiting g past') (calls : s.calls h = s₀.calls h + n)
  | ended {last : ℕ} (values : (s₀.production h).length = last) (beyond : last < n)
      (now : s.state h = .exhausted)
      (calls : ∀ g past, s₀.state h = .waiting g past → s.calls h = s₀.calls h + (last + 1))

namespace Store

variable {s₀ s s' : Store} {h : Handle} {n : ℕ}

theorem production_eager {items : List Value} {cursor : ℕ}
    (hs : s₀.state h = .eager items cursor) (n : ℕ) :
    s₀.production h n = some items[cursor + n]? := by
  rw [production, hs]

theorem production_waiting {g : Generator} {past : Past} (hs : s₀.state h = .waiting g past)
    (n : ℕ) : s₀.production h n = g.result h past s₀ n := by
  rw [production, hs]

namespace Stands

theorem start (hopen : (s₀.state h).isOpen) : s₀.Stands h 0 s₀ := by
  cases hs : s₀.state h with
  | eager items cursor => exact .eager hs (by simp) hs
  | waiting g past => exact .waiting hs (by simp) rfl rfl hs rfl
  | running | exhausted => simp [hs, State.isOpen] at hopen

theorem ne_running (stands : s₀.Stands h n s) : s.state h ≠ .running := by
  cases stands with
  | eager _ _ now => simp [now]
  | waiting _ _ _ _ now _ => simp [now]
  | ended _ _ now _ => simp [now]

/-- One more pull gives what the production has next. -/
theorem pull (stands : s₀.Stands h n s) {r : Except Fault (Option Value)}
    (hpull : s.pull h = some (r, s')) :
    s₀.Stands h (n + 1) s' ∧ ∃ value, r = .ok value ∧ (s₀.production h).fused n = some value := by
  cases stands with
  | @eager items cursor origin values now =>
      have hlt : h.index < s.cells.length := index_lt_of_state (by simp [now])
      have hp := production_eager origin n
      rw [pull_eager now] at hpull
      obtain ⟨rfl, rfl⟩ := Prod.mk.inj (Option.some.inj hpull)
      refine ⟨?_, _, rfl, (Production.fused_of_le values).trans hp⟩
      by_cases hc : cursor + n < items.length
      · refine .eager origin (Production.succ_le_length values ?_) ?_
        · rw [hp, List.getElem?_eq_getElem hc]
          simp
        · rw [state_setState, if_pos ⟨rfl, hlt⟩, if_pos hc, Nat.add_assoc]
      · rw [List.getElem?_eq_none (Nat.le_of_not_lt hc)] at hp
        refine .ended (Production.length_eq hp (Production.le_length_iff.1 values))
          (Nat.lt_succ_self n) ?_ ?_
        · rw [state_setState, if_pos ⟨rfl, hlt⟩, if_neg hc]
        · intro g past hs
          rw [origin] at hs
          cases hs
  | @waiting g past past' t origin values after same now calls =>
      obtain ⟨value, log, t', hrun, rfl, hstate, hsame, hcalls⟩ := pull_waiting_cases now hpull
      rw [same] at hrun
      rw [calls, Nat.add_assoc] at hcalls
      have hp : s₀.production h n = some value := by
        rw [production_waiting origin, Generator.result_of_after after, hrun]
        rfl
      refine ⟨?_, value, rfl, (Production.fused_of_le values).trans hp⟩
      cases value with
      | some v =>
          have hvalues := Production.succ_le_length values (by simp [hp])
          exact .waiting origin hvalues (Generator.after_succ after hrun) hsame hstate hcalls
      | none =>
          have hlength := Production.length_eq hp (Production.le_length_iff.1 values)
          exact .ended hlength (Nat.lt_succ_self n) hstate fun _ _ _ => hcalls
  | @ended last values beyond now calls =>
      rw [pull_exhausted now] at hpull
      obtain ⟨rfl, rfl⟩ := Prod.mk.inj (Option.some.inj hpull)
      have hnone : ¬ (n : ℕ∞) ≤ (s₀.production h).length := by
        rw [values, Nat.cast_le]
        exact Nat.not_le.2 beyond
      exact ⟨.ended values (beyond.trans (Nat.lt_succ_self n)) now calls, none, rfl, if_neg hnone⟩

/-- A pull comes to an end if the production goes on. -/
theorem isSome_pull (stands : s₀.Stands h n s) (hnext : ((s₀.production h).fused n).isSome) :
    ∃ value s', s.pull h = some (.ok value, s') := by
  cases stands with
  | eager _ _ now => exact ⟨_, _, pull_eager now⟩
  | ended _ _ now _ => exact ⟨_, _, pull_exhausted now⟩
  | @waiting g past past' t origin values after same now calls =>
      rw [Production.fused_of_le values, production_waiting origin,
        Generator.result_of_after after, Option.isSome_map, ← same] at hnext
      obtain ⟨⟨value, log, s₁⟩, hrun⟩ := Option.isSome_iff_exists.1 hnext
      rw [pull_waiting now, hrun]
      exact ⟨_, _, rfl⟩

/-- A series of pulls gives the production, with none for ever after its first none. -/
theorem pulls {rs : List (Option Value)} (stands : s₀.Stands h n s) (series : Pulls h s rs s') :
    s₀.Stands h (n + rs.length) s' ∧
      rs.map some = (List.range' n rs.length).map (s₀.production h).fused := by
  induction series generalizing n with
  | refl => exact ⟨stands, rfl⟩
  | @pull s s₁ s₂ value rest first later ih =>
      obtain ⟨stands₁, _, heq, hvalue⟩ := stands.pull first
      cases heq
      obtain ⟨stands₂, hrest⟩ := ih stands₁
      constructor
      · rwa [List.length_cons, ← Nat.succ_add_eq_add_succ]
      · rw [List.map_cons, List.length_cons, List.range'_succ, List.map_cons, hvalue, hrest]

/-- A generator is begun once for each value, and once more if it gave none. -/
theorem calls_eq (stands : s₀.Stands h n s) {g : Generator} {past : Past}
    (origin : s₀.state h = .waiting g past) :
    (s.calls h : ℕ∞) = s₀.calls h + min (n : ℕ∞) ((s₀.production h).length + 1) := by
  cases stands with
  | eager other =>
      rw [origin] at other
      cases other
  | waiting _ values _ _ _ calls =>
      rw [calls, min_eq_left (values.trans le_self_add), Nat.cast_add]
  | @ended last values beyond _ calls =>
      have hle : ((last + 1 : ℕ) : ℕ∞) ≤ n := Nat.cast_le.2 beyond
      rw [calls g past origin, values]
      rw [Nat.cast_add, min_eq_right (by simpa using hle)]
      simp

/-- A sequence is exhausted once it has given none. -/
theorem isExhausted_iff (stands : s₀.Stands h n s) :
    (s.state h).isExhausted ↔ (s₀.production h).length < n := by
  cases stands with
  | eager _ values now => simpa [now, State.isExhausted] using values
  | waiting _ values _ _ now => simpa [now, State.isExhausted] using values
  | ended values beyond now => simpa [now, values, State.isExhausted] using beyond

end Stands

end Store

end Conformance
