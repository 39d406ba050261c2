import Conformance.Assignment.Unpack
import Conformance.Call.Join
import Conformance.Proofs.Sequence.Reentrancy
import Conformance.Proofs.Sequence.Uses
import Conformance.Proofs.Text.Split

/-!
# Ways of consuming a value

A consumer that goes on until a pull gives nothing takes a refused pull for the end; a drain fails
with it. The two differ only where a pull is refused, and of the pulls of one consumer at most the
first one is: a pull leaves its sequence running only if it was running before, whatever its step
pulls meanwhile. So a sequence may be consumed in either way, and a value as a whole or through
its sequence.
-/

namespace Conformance

namespace Store

variable {s s' : Store} {h : Handle} {seen : List Value}

/-! ## Refused pulls taken for the end -/

theorem collect_eq (s : Store) (h : Handle) (seen : List Value) : s.collect h seen =
    (s.pull h).bind fun
      | (.ok (some v), s) => s.collect h (v :: seen)
      | (_, s) => some (seen.reverse, s) := by
  rw [collect, Query.ask_next]
  obtain _ | ⟨e | _ | v, s'⟩ := s.pull h <;> rfl

/-- The pulls of a collection that ends end in a drain as well, if they are not refused. -/
theorem drain_of_collect {values : List Value} (hs : s.state h ≠ .running)
    (hcollect : s.collect h seen = some (values, s')) :
    s.drain h seen = some (.ok values, s') := by
  -- A collection may not end, so the induction is on the fixpoint and not on the values.
  refine collect.partial_correctness h
    (fun s seen o => s.state h ≠ .running → s.drain h seen = some (.ok o.1, o.2)) ?step
    s seen (values, s') hcollect hs
  intro collect ih s seen o hbody hs
  obtain ⟨⟨value, s₁⟩, hnext, hrest⟩ := Option.bind_eq_some_iff.1 hbody
  rw [Query.ask_next, Option.map_eq_some_iff] at hnext
  obtain ⟨⟨r, _⟩, hpull, heq⟩ := hnext
  obtain ⟨⟨value, rfl⟩, hs₁⟩ := pull_idle hs hpull
  cases heq
  cases value with
  | some v =>
      rw [drain_of_some hpull]
      exact ih s₁ (v :: seen) o hrest hs₁
  | none =>
      cases hrest
      exact drain_of_none hpull seen

theorem collect_of_drain {r : Except Fault (List Value)} (hs : s.state h ≠ .running)
    (hdrain : s.drain h seen = some (r, s')) :
    ∃ values, r = .ok values ∧ s.collect h seen = some (values, s') := by
  revert hs
  refine drain_induction
    (motive := fun s seen r s' => s.state h ≠ .running →
      ∃ values, r = .ok values ∧ s.collect h seen = some (values, s')) ?more ?last ?refused hdrain
  case more =>
    intro s s₁ s₂ v seen r hpull ih hs
    obtain ⟨values, hr, hcollect⟩ := ih (pull_idle hs hpull).2
    exact ⟨values, hr, by rwa [collect_eq, hpull]⟩
  case last =>
    intro s s' seen hpull hs
    exact ⟨_, rfl, by rw [collect_eq, hpull]; rfl⟩
  case refused =>
    intro s s' seen e hpull hs
    obtain ⟨value, heq⟩ := (pull_idle hs hpull).1
    cases heq

/-- To drain a sequence whose step is not in progress is to pull until a pull gives nothing. -/
theorem drain_eq_collect (hs : s.state h ≠ .running) (seen : List Value) :
    s.drain h seen = (s.collect h seen).map fun (values, s) => (.ok values, s) := by
  cases hdrain : s.drain h seen with
  | some o =>
      obtain ⟨r, s'⟩ := o
      obtain ⟨values, rfl, hcollect⟩ := collect_of_drain hs hdrain
      rw [hcollect]
      rfl
  | none =>
      cases hcollect : s.collect h seen with
      | none => rfl
      | some o =>
          rw [drain_of_collect hs hcollect] at hdrain
          cases hdrain

/-- A drain fails only at its first pull, and then it has changed nothing. -/
theorem drain_eq_error_iff {e : Fault} : s.drain h seen = some (.error e, s') ↔
    s.state h = .running ∧ e = .generatorRunning ∧ s' = s := by
  by_cases hs : s.state h = .running
  · rw [drain_of_error (pull_running hs)]
    simp [hs, eq_comm]
  · constructor
    · intro hdrain
      obtain ⟨values, heq, -⟩ := collect_of_drain hs hdrain
      cases heq
    · intro hrun
      exact absurd hrun.1 hs

/-- A sequence whose production is finite is drained to its end. -/
theorem drain_ends (hs : s.state h ≠ .running) (htotal : (s.production h).Total)
    (hfinite : (s.production h).length ≠ ⊤) :
    ∃ values s', s.drain h [] = some (.ok values, s') := by
  have hends : ∃ o, s.drain h [] = some o := by
    cases hstate : s.state h with
    | running => exact absurd hstate hs
    | exhausted => exact ⟨_, drain_of_none (pull_exhausted hstate) []⟩
    | eager | waiting =>
        have hopen : (s.state h).isOpen := by rw [hstate]; rfl
        exact (Stands.start hopen).drain_ends htotal hfinite []
  obtain ⟨⟨r, s'⟩, hdrain⟩ := hends
  obtain ⟨values, rfl, -⟩ := collect_of_drain hs hdrain
  exact ⟨values, s', hdrain⟩

/-! ## Values laid out beforehand -/

@[simp] theorem setState_setState (s : Store) (h : Handle) (first second : State) :
    (s.setState h first).setState h second = s.setState h second := by
  simp only [setState, Store.mk.injEq, and_true]
  apply List.ext_getElem?
  intro i
  simp only [List.getElem?_modify]
  grind

theorem setState_allocate (s : Store) (first second : State) :
    (s.allocate first).2.setState ⟨s.cells.length⟩ second = (s.allocate second).2 := by
  simp only [allocate, setState, Store.mk.injEq, and_true]
  apply List.ext_getElem?
  intro i
  simp only [List.getElem?_modify, List.getElem?_append]
  grind

/-- To drain values laid out beforehand is to give those after the cursor. -/
theorem drain_eager {items : List Value} {cursor : ℕ} (hs : s.state h = .eager items cursor)
    (seen : List Value) :
    s.drain h seen = some (.ok (seen.reverse ++ items.drop cursor), s.setState h .exhausted) := by
  have hlt : h.index < s.cells.length := index_lt_of_state (by simp [hs])
  have hpull := pull_eager hs
  induction hleft : items.drop cursor generalizing s cursor seen with
  | nil =>
      have hend : items.length ≤ cursor := List.drop_eq_nil_iff.1 hleft
      rw [List.getElem?_eq_none hend, if_neg (Nat.not_lt.2 hend)] at hpull
      rw [drain_of_none hpull, List.append_nil]
  | cons v left ih =>
      have hcursor : cursor < items.length := by
        rw [← List.drop_eq_nil_iff.not.trans Nat.not_le, hleft]
        exact List.cons_ne_nil v left
      rw [List.drop_eq_getElem_cons hcursor] at hleft
      obtain ⟨rfl, htail⟩ := List.cons.inj hleft
      rw [List.getElem?_eq_getElem hcursor, if_pos hcursor] at hpull
      have hnext : (s.setState h (.eager items (cursor + 1))).state h =
          .eager items (cursor + 1) := by
        rw [state_setState, if_pos ⟨rfl, hlt⟩]
      rw [drain_of_some hpull, ih hnext _ (by simpa using hlt) (pull_eager hnext) htail]
      simp

/-- Two stores give every handle the same sequence. -/
structure Matches (s s' : Store) : Prop where
  names : s'.names = s.names
  state : ∀ h, s'.state h = s.state h
  calls : ∀ h, s'.calls h = s.calls h

theorem Matches.refl (s : Store) : s.Matches s := ⟨rfl, fun _ => rfl, fun _ => rfl⟩

/-- A new sequence that is exhausted cannot be told from none. -/
theorem matches_allocate_exhausted (s : Store) : s.Matches (s.allocate .exhausted).2 where
  names := rfl
  state h := by
    rw [state_allocate]
    split
    · next heq => simp [state, heq]
    · rfl
  calls h := by
    simp only [allocate, calls, List.getElem?_append]
    grind

end Store

/-- Two outcomes have the same result and leave every sequence in the same state. -/
def SameOutcome {α : Type} (o o' : Except Fault α × Store) : Prop := o'.1 = o.1 ∧ o.2.Matches o'.2

theorem SameOutcome.refl {α : Type} (o : Except Fault α × Store) : SameOutcome o o :=
  ⟨rfl, .refl o.2⟩

namespace Sequence

variable {s : Store} {h : Handle}

theorem run_collect (hs : s.state h ≠ .running) : (collect h).run s = (drain h).run s := by
  change (s.collect h []).bind _ = s.drain h []
  rw [Store.drain_eq_collect hs, Option.map_eq_bind]
  rfl

theorem run_collect_bind {α : Type} (hs : s.state h ≠ .running) (f : List Value → Run α) :
    (collect h >>= f).run s = (drain h >>= f).run s := by
  rw [Run.run_bind, Run.run_bind, run_collect hs]

/-- A new sequence over given values gives them all, and is then exhausted. -/
theorem run_ofValues_drain (items : List Value) (s : Store) :
    (ofValues items >>= drain).run s = some (.ok items, (s.allocate .exhausted).2) := by
  have hmake : (ofValues items).run s =
      some (.ok ⟨s.cells.length⟩, (s.allocate (.eager items 0)).2) := rfl
  have hstate : (s.allocate (.eager items 0)).2.state ⟨s.cells.length⟩ = .eager items 0 := by
    rw [Store.state_allocate, if_pos rfl]
  have hdrained : (s.allocate (.eager items 0)).2.setState ⟨s.cells.length⟩ .exhausted =
      (s.allocate .exhausted).2 :=
    s.setState_allocate (.eager items 0) .exhausted
  rw [Run.run_bind_of_ok hmake]
  exact (Store.drain_eager hstate []).trans (by rw [hdrained]; rfl)

end Sequence

namespace Value

/-- A value as a whole and its sequence have the same elements, or are refused alike. -/
theorem sameOutcome_materialize_iterate (v : Value) (s : Store) :
    Option.Rel SameOutcome (v.materialize.run s) ((v.iterate >>= Sequence.drain).run s) := by
  have hitems : ∀ items : List Value, Option.Rel SameOutcome (some (.ok items, s))
      ((Sequence.ofValues items >>= Sequence.drain).run s) := by
    intro items
    rw [Sequence.run_ofValues_drain]
    exact .some ⟨rfl, s.matches_allocate_exhausted⟩
  cases v with
  | str t => exact hitems (ofChars t)
  | list items | tuple items => exact hitems items
  | lazy h =>
      change Option.Rel SameOutcome (s.drain h []) (s.drain h [])
      cases s.drain h [] with
      | none => exact .none
      | some o => exact .some (.refl o)
  | nothing | bool | int => exact .some (.refl _)

/-- The sequence of a value is not in progress, unless the value is such a sequence. -/
theorem state_of_iterate {v : Value} {s s' : Store} {h : Handle}
    (hs : ∀ h, v = lazy h → s.state h ≠ .running)
    (hrun : v.iterate.run s = some (.ok h, s')) : s'.state h ≠ .running := by
  have hitems : ∀ items : List Value, (Sequence.ofValues items).run s = some (.ok h, s') →
      s'.state h ≠ .running := by
    rintro items ⟨⟩
    simp [Store.state]
  cases v with
  | str t => exact hitems _ hrun
  | list items | tuple items => exact hitems _ hrun
  | lazy =>
      cases hrun
      exact hs h rfl
  | nothing | bool | int => cases hrun

theorem run_iterate_collect {v : Value} {s : Store} (hs : ∀ h, v = lazy h → s.state h ≠ .running) :
    (v.iterate >>= Sequence.collect).run s = (v.iterate >>= Sequence.drain).run s := by
  rw [Run.run_bind, Run.run_bind]
  cases hrun : v.iterate.run s with
  | none => rfl
  | some o =>
      obtain ⟨e | h, s'⟩ := o
      · rfl
      · exact Sequence.run_collect (state_of_iterate hs hrun)

theorem exists_run_materialize {v : Value} {s : Store} (hfinite : ∀ h, v = lazy h →
      s.state h ≠ .running ∧ (s.production h).Total ∧ (s.production h).length ≠ ⊤) :
    ∃ o, v.materialize.run s = some o := by
  cases v with
  | lazy h =>
      obtain ⟨hs, htotal, hlength⟩ := hfinite h rfl
      obtain ⟨values, s', hdrain⟩ := Store.drain_ends hs htotal hlength
      exact ⟨_, hdrain⟩
  | nothing | bool | int | str | list | tuple => exact ⟨_, rfl⟩

end Value

theorem Text.intercalate_empty_singletons (chars : List Char) :
    Text.intercalate .empty (chars.map .singleton) = ⟨chars⟩ := by
  induction chars with
  | nil => rfl
  | cons c rest ih =>
      cases rest with
      | nil => rfl
      | cons d rest =>
          rw [List.map_cons, intercalate_cons _ _ (by simp), ih]
          rfl

/-- The elements of a text, joined without a separator, are the text. -/
theorem joinItems_ofChars (t : Text) : joinItems .empty (Value.ofChars t) = .ok t := by
  have hchars : Value.ofChars t = (t.chars.map Text.singleton).map .str := by
    rw [List.map_map]
    rfl
  rw [hchars, joinItems_map_str, Text.intercalate_empty_singletons]

/-- In a store in which no step is in progress, all ways of consuming give the same. A value as a
whole and its sequence, drained or pulled until a pull gives nothing, have the same elements or the
same fault, and leave every sequence in the same state; for a sequence with a finite production
they come to an end. Whether a sequence is joined or unpacked by pulls or as a value makes no
difference, not even for the store; it is not refused, and no step is in progress afterwards. In
any store, a drain fails exactly if the step of its sequence is in progress when the drain begins,
and then it changes nothing. The elements of a text have one codepoint each, and joined without a
separator they are the text. -/
theorem consumers_agree {s : Store} (hs : s.Settled) :
    (∀ v : Value,
      Option.Rel SameOutcome (v.materialize.run s) ((v.iterate >>= Sequence.drain).run s) ∧
      (v.iterate >>= Sequence.collect).run s = (v.iterate >>= Sequence.drain).run s ∧
      ((∀ h, v = .lazy h → (s.production h).Total ∧ (s.production h).length ≠ ⊤) →
        ∃ o, v.materialize.run s = some o)) ∧
    (∀ h,
      (∀ sep, (Sequence.join sep h).run s = ((Value.lazy h).join sep).run s) ∧
      (∀ p : Pattern, (p.unpackSequence h).run s = (p.unpackValue (.lazy h)).run s) ∧
      ∀ r s', (Sequence.drain h).run s = some (r, s') → (∃ values, r = .ok values) ∧ s'.Settled) ∧
    (∀ (t : Store) h e t', (Sequence.drain h).run t = some (.error e, t') ↔
      t.state h = .running ∧ e = .generatorRunning ∧ t' = t) ∧
    ∀ t : Text, ∃ elements, (Value.str t).materialize.run s = some (.ok elements, s) ∧
      elements.length = t.length ∧ (∀ v ∈ elements, ∃ c, v = .str (.singleton c)) ∧
      joinItems .empty elements = .ok t := by
  refine ⟨fun v => ⟨?_, ?_, ?_⟩, fun h => ⟨?_, ?_, ?_⟩, ?_, ?_⟩
  · exact v.sameOutcome_materialize_iterate s
  · exact Value.run_iterate_collect fun h _ => hs h
  · intro hfinite
    exact Value.exists_run_materialize fun h hv => ⟨hs h, hfinite h hv⟩
  · exact fun sep => Sequence.run_collect_bind (hs h) _
  · exact fun p => Sequence.run_collect_bind (hs h) _
  · intro r s' hdrain
    obtain ⟨values, hr, -⟩ := Store.collect_of_drain (hs h) hdrain
    have hframe := Store.evolves_outcome.2.1 s h [] r s' hdrain
    exact ⟨⟨values, hr⟩, fun k hk => hs k ((hframe.running_iff k).1 hk)⟩
  · exact fun t h e t' => Store.drain_eq_error_iff
  · intro t
    refine ⟨Value.ofChars t, rfl, ?_, ?_, joinItems_ofChars t⟩
    · simp [Value.ofChars, Text.length]
    · intro v hv
      obtain ⟨c, -, rfl⟩ := List.mem_map.1 hv
      exact ⟨c, rfl⟩

/-- Two generators that pull each other: the second is refused by the first. -/
theorem consumers_agree_mutual :
    let s : Store := ⟨[⟨.waiting (.watcher "b" .next 1) [], 0⟩,
      ⟨.waiting (.watcher "a" .tryNext 1) [], 0⟩], [("a", ⟨0⟩), ("b", ⟨1⟩)]⟩
    s.Settled ∧ (s.production ⟨0⟩).Total ∧ (s.production ⟨0⟩).length ≠ ⊤ ∧
      (∃ o, (Value.lazy ⟨0⟩).materialize.run s = some o) ∧
      (Sequence.join .empty ⟨0⟩).run s = ((Value.lazy ⟨0⟩).join .empty).run s := by
  intro s
  have hs : s.Settled := by
    rintro ⟨_ | _ | i⟩ <;> simp [s, Store.state]
  have hproduction : (s.production ⟨0⟩ 0).isSome ∧ s.production ⟨0⟩ 0 ≠ some none ∧
      s.production ⟨0⟩ 1 = some none := by
    simp [s, Store.production, Store.state, Generator.result, Generator.after, Generator.watcher,
      Generator.Look.step, Step.run_ask, Store.pull, Store.enter, Store.resolve, Store.leave,
      Store.setState, Except.toOption]
  obtain ⟨hends, hvalue, hnone⟩ := hproduction
  have hlength : (s.production ⟨0⟩).length = (1 : ℕ) :=
    Production.length_eq hnone fun k hk => by rwa [Nat.lt_one_iff.1 hk]
  have htotal : (s.production ⟨0⟩).Total := by
    intro n hn
    rw [hlength, Nat.cast_le] at hn
    obtain rfl | rfl := Nat.le_one_iff_eq_zero_or_eq_one.1 hn
    · exact hends
    · rw [hnone]
      rfl
  have hfinite : (s.production ⟨0⟩).length ≠ ⊤ := by
    rw [hlength]
    exact ENat.natCast_ne_top 1
  have hall := consumers_agree hs
  refine ⟨hs, htotal, hfinite, (hall.1 (.lazy ⟨0⟩)).2.2 ?_, (hall.2.1 ⟨0⟩).1 .empty⟩
  rintro h ⟨⟩
  exact ⟨htotal, hfinite⟩

end Conformance
