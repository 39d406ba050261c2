import Conformance.Proofs.Call.Faults
import Conformance.Proofs.Sequence.Isolation

/-!
# What binding consumes

Binding is all or nothing for the parameters, but not for the sequences. Those that are spread
before the walk over the arguments ends are exhausted, whatever comes of the binding; all others
are left as they were, also if they are given in another way or inside of what is spread.
-/

namespace Conformance

variable {arguments earlier later : List (Argument Value)} {arg : Argument Value}
  {st st' : Store} {r : Except Fault (List Value)} {values : List Value} {h : Handle}

/-- The sequences that are spread pull from no others. -/
def QuietSpreads (st : Store) (arguments : List (Argument Value)) : Prop :=
  ∀ h, .spread (.lazy h) ∈ arguments → (st.state h).PullsOnly h

theorem QuietSpreads.mono {fewer : List (Argument Value)} (hquiet : QuietSpreads st arguments)
    (hfewer : fewer ⊆ arguments) : QuietSpreads st fewer :=
  fun h hh => hquiet h (hfewer hh)

/-- An argument uses a sequence only if it is the spread of this sequence. -/
theorem Argument.elements_usesOnly (hquiet : QuietSpreads st [arg])
    (hrun : arg.elements.run st = some (r, st')) :
    Store.UsesOnly (fun k => arg = .spread (.lazy k)) st st' := by
  cases arg with
  | positional | keyword =>
      cases hrun
      exact .refl _ _
  | spread v =>
      cases v with
      | nothing | bool | int | str | list | tuple =>
          cases hrun
          exact .refl _ _
      | lazy h =>
          have hdrain : st.drain h [] = some (r, st') := hrun
          apply (Store.drain_usesOnly (hquiet h List.mem_cons_self) hdrain).mono
          rintro k rfl
          rfl

theorem expansion_usesOnly (hquiet : QuietSpreads st arguments)
    (hrun : (expansion arguments).run st = some (r, st')) :
    Store.UsesOnly (fun k => .spread (.lazy k) ∈ arguments) st st' := by
  induction arguments generalizing st r with
  | nil =>
      rw [expansion_nil] at hrun
      cases hrun
      exact .refl _ _
  | cons arg rest ih =>
      have hfirst : ∀ {r st'}, arg.elements.run st = some (r, st') →
          Store.UsesOnly (fun k => .spread (.lazy k) ∈ arg :: rest) st st' := by
        intro r st' hown
        apply (Argument.elements_usesOnly (hquiet.mono (by simp)) hown).mono
        rintro k rfl
        exact List.mem_cons_self
      rw [expansion_cons, Run.bind_eq_some_iff] at hrun
      obtain ⟨own, st₁, hown, hrest⟩ | ⟨e, hown, -⟩ := hrun
      · obtain ⟨r₀, hothers, -⟩ := Run.map_eq_some_iff.1 hrest
        have hlater : QuietSpreads st₁ rest := fun k hk =>
          (hfirst hown).quiet k (hquiet k (List.mem_cons_of_mem _ hk))
        exact (hfirst hown).trans ((ih hlater hothers).mono fun k => List.mem_cons_of_mem _)
      · exact hfirst hown

theorem expansion_append_ok_iff :
    (expansion (earlier ++ later)).run st = some (.ok values, st') ↔
      ∃ before st₁ after, (expansion earlier).run st = some (.ok before, st₁) ∧
        (expansion later).run st₁ = some (.ok after, st') ∧ values = before ++ after := by
  have happend : expansion (earlier ++ later) =
      expansion earlier >>= fun before => (before ++ ·) <$> expansion later := by
    induction earlier with
    | nil => simp [expansion_nil]
    | cons arg rest ih => simp [expansion_cons, ih]
  rw [happend, Run.bind_eq_ok_iff]
  simp only [Run.map_eq_ok_iff, eq_comm (b := values)]
  grind

/-- The spread of the sequence `h` between other arguments, on the way from `st` to `st'`. It
contributes `own`, and takes the store from `s₁` to `s₂`. -/
structure SpreadRun (st : Store) (earlier : List (Argument Value)) (h : Handle)
    (later : List (Argument Value)) (st' : Store) (before own after : List Value)
    (s₁ s₂ : Store) : Prop where
  reached : (expansion earlier).run st = some (.ok before, s₁)
  /-- Until its first spread the sequence is as it was before the call. -/
  first : .spread (.lazy h) ∉ earlier → st.Keeps s₁ h
  /-- The spread takes all that the sequence holds then. -/
  exhausts : Store.Exhausts h s₁ own s₂
  finished : (expansion later).run s₂ = some (.ok after, st')
  /-- From then on nothing more happens to the sequence. -/
  last : s₂.Keeps st' h

theorem SpreadRun.exhausted {before own after : List Value} {s₁ s₂ : Store}
    (spread : SpreadRun st earlier h later st' before own after s₁ s₂) :
    st'.state h = .exhausted :=
  spread.last.state.trans spread.exhausts.exhausted

theorem exists_spreadRun (hquiet : QuietSpreads st (earlier ++ .spread (.lazy h) :: later))
    (hrun : (expansion (earlier ++ .spread (.lazy h) :: later)).run st =
      some (.ok values, st')) : ∃ before own after s₁ s₂, values = before ++ own ++ after ∧
        SpreadRun st earlier h later st' before own after s₁ s₂ := by
  obtain ⟨before, s₁, rest, hbefore, hrest, rfl⟩ := expansion_append_ok_iff.1 hrun
  obtain ⟨own, s₂, after, hown, hafter, rfl⟩ := expansion_cons_ok_iff.1 hrest
  have exhausts := Store.exhausts_of_drain (show s₁.drain h [] = some (.ok own, s₂) from hown)
  have hquiet₀ : QuietSpreads st earlier := hquiet.mono (List.subset_append_left ..)
  have hreach := expansion_usesOnly hquiet₀ hbefore
  have hquiet₁ : QuietSpreads s₁ (.spread (.lazy h) :: later) := fun k hk =>
    hreach.quiet k (hquiet k (List.mem_append_right _ hk))
  have hspread := Argument.elements_usesOnly (hquiet₁.mono (by simp)) hown
  have hquiet₂ : QuietSpreads s₂ later := fun k hk =>
    hspread.quiet k (hquiet₁ k (List.mem_cons_of_mem _ hk))
  have hfinish := expansion_usesOnly hquiet₂ hafter
  exact ⟨before, own, after, s₁, s₂, (List.append_assoc ..).symm, hbefore,
    fun hnot => hreach.keeps h (.inl hnot), exhausts, hafter,
    hfinish.keeps h (.inr exhausts.exhausted)⟩

/-- A sequence that was spread before has nothing left. -/
theorem SpreadRun.eq_nil {before own after : List Value} {s₁ s₂ : Store}
    (spread : SpreadRun st earlier h later st' before own after s₁ s₂)
    (hquiet : QuietSpreads st earlier) (hmem : .spread (.lazy h) ∈ earlier) : own = [] := by
  obtain ⟨front, back, rfl⟩ := List.append_of_mem hmem
  obtain ⟨_, _, _, _, _, -, earlierRun⟩ := exists_spreadRun hquiet spread.reached
  exact spread.exhausts.holds.unique (.of_exhausted earlierRun.exhausted)

theorem Argument.elements_end
    (hfinite : ∀ h, arg = .spread (.lazy h) → st.state h ≠ .running → (st.state h).IsFinite h) :
    ∃ o, arg.elements.run st = some o := by
  cases arg with
  | positional | keyword => exact ⟨_, rfl⟩
  | spread v =>
      cases v with
      | nothing | bool | int | str | list | tuple => exact ⟨_, rfl⟩
      | lazy h =>
          by_cases hs : st.state h = .running
          · exact ⟨_, Store.drain_of_error (Store.pull_running hs) []⟩
          · obtain ⟨values, holds⟩ := hfinite h rfl hs st rfl
            obtain ⟨st', hdrain⟩ := Store.exists_drain_iff.2 holds
            exact ⟨_, hdrain⟩

/-- Expansion ends if each sequence that is spread comes to an end. -/
theorem expansion_ends (hquiet : QuietSpreads st arguments)
    (hfinite : ∀ h, .spread (.lazy h) ∈ arguments → st.state h ≠ .running →
      (st.state h).IsFinite h) : ∃ o, (expansion arguments).run st = some o := by
  induction arguments generalizing st with
  | nil => exact ⟨_, by rw [expansion_nil]; rfl⟩
  | cons arg rest ih =>
      have hfirst : ∀ h, arg = .spread (.lazy h) → st.state h ≠ .running →
          (st.state h).IsFinite h := by
        rintro h rfl
        exact hfinite h List.mem_cons_self
      obtain ⟨⟨e | own, st₁⟩, hown⟩ := Argument.elements_end hfirst
      · exact ⟨(.error e, st₁), by
          rw [expansion_cons]; exact Run.bind_eq_some_iff.2 (.inr ⟨e, hown, rfl⟩)⟩
      · have huses := Argument.elements_usesOnly (hquiet.mono (by simp)) hown
        have hlater : ∀ k, .spread (.lazy k) ∈ rest → st₁.state k ≠ .running →
            (st₁.state k).IsFinite k := by
          intro k hk hs
          by_cases heq : arg = .spread (.lazy k)
          · subst heq
            rw [Store.state_of_drain (show st.drain k [] = some (.ok own, st₁) from hown)]
            exact State.isFinite_exhausted k
          · rw [(huses.keeps k (.inl heq)).state] at hs ⊢
            exact hfinite k (List.mem_cons_of_mem _ hk) hs
        obtain ⟨⟨r₀, st₂⟩, hrest⟩ :=
          ih (fun k hk => huses.quiet k (hquiet k (List.mem_cons_of_mem _ hk))) hlater
        refine ⟨(r₀.map (own ++ ·), st₂), ?_⟩
        rw [expansion_cons, Run.run_bind_of_ok hown]
        exact Run.map_eq_some_iff.2 ⟨r₀, hrest, rfl⟩

/-- Let a call have arguments whose sequences pull from no others when they are spread. If these
sequences come to an end, unless their step is in progress, then binding ends. However it ends,
there is a part of the arguments that the walk passed, up to the first that fails or to the last of
all; if all were passed, it ends as the distribution of their values does. Each sequence that is
spread in this part is exhausted. The values that its spread contributed are those that it held,
each pulled once and in order: it was as before the call until its first spread, has nothing left
for another one, and is not touched after it. Every other sequence is as it was, wherever else it
is in the call. -/
theorem bind_consumes_passed (s : Signature) (arguments : List (Argument Value)) (st : Store)
    (hquiet : QuietSpreads st arguments) :
    ((∀ h, .spread (.lazy h) ∈ arguments → st.state h ≠ .running → (st.state h).IsFinite h) →
      ∃ o, (s.bind arguments).run st = some o) ∧
    ∀ r st', (s.bind arguments).run st = some (r, st') →
      ∃ passed rest values, arguments = passed ++ rest ∧ NoneFails s.name st passed ∧
        (expansion passed).run st = some (.ok values, st') ∧
        (rest = [] ∧ r = s.distribute ⟨values, keywordsOf arguments⟩ ∨
          ∃ arg later e, rest = arg :: later ∧
            arg.Fails s.name st ((keywordsOf passed).map (·.1)) e ∧ r = .error e) ∧
        (∀ earlier h later, passed = earlier ++ .spread (.lazy h) :: later →
          st'.state h = .exhausted ∧ ∃ before own after s₁ s₂, values = before ++ own ++ after ∧
            SpreadRun st earlier h later st' before own after s₁ s₂ ∧
            (.spread (.lazy h) ∈ earlier → own = [])) ∧
        ∀ h, .spread (.lazy h) ∉ passed → st.Keeps st' h := by
  have hconsumes : ∀ {passed rest values st'}, arguments = passed ++ rest →
      (expansion passed).run st = some (.ok values, st') →
      (∀ earlier h later, passed = earlier ++ .spread (.lazy h) :: later →
        st'.state h = .exhausted ∧ ∃ before own after s₁ s₂, values = before ++ own ++ after ∧
          SpreadRun st earlier h later st' before own after s₁ s₂ ∧
          (.spread (.lazy h) ∈ earlier → own = [])) ∧
      ∀ h, .spread (.lazy h) ∉ passed → st.Keeps st' h := by
    rintro passed rest values st' rfl hvalues
    have hpassed : QuietSpreads st passed := hquiet.mono (List.subset_append_left ..)
    refine ⟨?_, fun h hh => (expansion_usesOnly hpassed hvalues).keeps h (.inl hh)⟩
    rintro earlier h later rfl
    obtain ⟨before, own, after, s₁, s₂, heq, spread⟩ := exists_spreadRun hpassed hvalues
    have hearlier := hpassed.mono (List.subset_append_left ..)
    exact ⟨spread.exhausted, before, own, after, s₁, s₂, heq, spread, spread.eq_nil hearlier⟩
  refine ⟨fun hfinite => Signature.bind_ends (expansion_ends hquiet hfinite), ?_⟩
  intro r st' hrun
  obtain ⟨supplied, hwalk, rfl⟩ := Signature.run_bind_iff.1 hrun
  cases hwalk with
  | @whole values _ passed expanded =>
      have hall := (List.append_nil arguments).symm
      exact ⟨arguments, [], values, hall, passed, expanded, .inl ⟨rfl, rfl⟩,
        hconsumes hall expanded⟩
  | @failed before arg after e values _ split passed expanded fails =>
      exact ⟨before, arg :: after, values, split, passed, expanded,
        .inr ⟨arg, after, e, rfl, fails, rfl⟩, hconsumes split expanded⟩

/-- Two sequences are spread, one of them twice, before an unknown keyword is refused. A third one,
given as a positional value and spread inside of a list, is as it was. -/
theorem bind_consumes_passed_refused :
    let s : Signature := ⟨"f", ["a"], some "rest", []⟩
    let st : Store := ⟨[⟨.eager [.int 1, .int 2] 0, 0⟩, ⟨.waiting (.ofValues [.int 3]) [], 0⟩,
      ⟨.waiting (.ofValues [.int 4]) [], 0⟩], []⟩
    let arguments : List (Argument Value) :=
      [.positional (.lazy ⟨2⟩), .spread (.lazy ⟨0⟩), .spread (.lazy ⟨1⟩), .keyword "x" .nothing,
        .spread (.lazy ⟨0⟩), .spread (.list [.lazy ⟨2⟩])]
    QuietSpreads st arguments ∧
    (∀ h, .spread (.lazy h) ∈ arguments → st.state h ≠ .running → (st.state h).IsFinite h) ∧
    ∃ st', (s.bind arguments).run st = some (.error (.unexpectedKeyword "f" "x"), st') ∧
      st'.state ⟨0⟩ = .exhausted ∧ st'.state ⟨1⟩ = .exhausted ∧ st.Keeps st' ⟨2⟩ := by
  intro s st arguments
  have hspread : ∀ h, .spread (.lazy h) ∈ arguments → h = ⟨0⟩ ∨ h = ⟨1⟩ := by
    intro h hh
    simpa [arguments, or_comm] using hh
  have hquiet : QuietSpreads st arguments := by
    intro h hh
    obtain rfl | rfl := hspread h hh
    · trivial
    · exact State.pullsOnly_ofValues ⟨1⟩ [.int 3] []
  have hfinite : ∀ h, .spread (.lazy h) ∈ arguments → st.state h ≠ .running →
      (st.state h).IsFinite h := by
    intro h hh _
    obtain rfl | rfl := hspread h hh
    · exact State.isFinite_eager ⟨0⟩ [.int 1, .int 2] 0
    · exact State.isFinite_ofValues ⟨1⟩ [.int 3] []
  have hnone : NoneFails "f" st arguments := by
    refine noneFails_iff.2 ⟨?_, by decide⟩
    intro v hv
    obtain rfl | rfl | rfl : v = .lazy ⟨0⟩ ∨ v = .lazy ⟨1⟩ ∨ v = .list [.lazy ⟨2⟩] := by
      simpa [arguments, or_left_comm] using hv
    · exact nofun
    · exact nofun
    · trivial
  obtain ⟨hends, hruns⟩ := bind_consumes_passed s arguments st hquiet
  obtain ⟨⟨r, st'⟩, hrun⟩ := hends hfinite
  obtain ⟨passed, rest, values, split, -, -, hend, hexhausted, hkeeps⟩ := hruns r st' hrun
  obtain ⟨rfl, rfl⟩ | ⟨arg, later, e, rfl, fails, -⟩ := hend
  · rw [List.append_nil] at split
    subst split
    have rejects : s.Rejects values [("x", .nothing)] (.unexpectedKeyword "f" "x") :=
      .keyword nofun (List.nil_append _).symm nofun (.unknown (by decide) (by decide))
    rw [show s.distribute ⟨values, keywordsOf arguments⟩ = _ from
      Signature.distribute_eq_error_iff.2 rejects] at hrun
    refine ⟨hquiet, hfinite, st', hrun, ?_, ?_, ?_⟩
    · exact (hexhausted [.positional (.lazy ⟨2⟩)] ⟨0⟩ _ rfl).1
    · exact (hexhausted [.positional (.lazy ⟨2⟩), .spread (.lazy ⟨0⟩)] ⟨1⟩ _ rfl).1
    · apply hkeeps
      intro hh
      simpa using hspread _ hh
  · exact absurd fails (hnone passed arg later e split)

end Conformance
