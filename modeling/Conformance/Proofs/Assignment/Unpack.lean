import Mathlib.Data.List.Basic
import Conformance.Assignment.Unpack

/-!
# How values are shared out among targets

Unpacking is compared with a relation that goes along the targets from left to right: a plain
target takes the next value, and a starred one any run of the values that follow. A pattern has
one star at most, so there is one way at most to share out given values, and unpacking finds it
whenever there are enough of them.
-/

namespace Conformance

/-- Bindings that share out values among targets, in target order. Nothing is left over, and
nothing is given twice. -/
inductive Shares : List Target → List Value → Bindings → Prop
  | nil : Shares [] [] []
  | plain {targets : List Target} {values : List Value} {bindings : Bindings} (name : String)
      (value : Value) (rest : Shares targets values bindings) :
      Shares (⟨name, false⟩ :: targets) (value :: values) ((name, value) :: bindings)
  | starred {targets : List Target} {values : List Value} {bindings : Bindings} (name : String)
      (run : List Value) (rest : Shares targets values bindings) :
      Shares (⟨name, true⟩ :: targets) (run ++ values) ((name, .list run) :: bindings)

/-- No target is starred. -/
def AllPlain (targets : List Target) : Prop := ∀ target ∈ targets, target.starred = false

theorem countP_starred_eq_zero_iff {targets : List Target} :
    targets.countP (·.starred) = 0 ↔ AllPlain targets := by
  simp [AllPlain]

namespace Shares

variable {targets targets' : List Target} {values values' : List Value}
  {bindings bindings' : Bindings}

/-- There is one binding for each target, under its name. -/
theorem names_eq (h : Shares targets values bindings) :
    bindings.map (·.1) = targets.map (·.name) := by
  induction h with
  | nil => rfl
  | plain name value rest ih => simp [ih]
  | starred name run rest ih => simp [ih]

theorem append (first : Shares targets values bindings) (second : Shares targets' values' bindings') :
    Shares (targets ++ targets') (values ++ values') (bindings ++ bindings') := by
  induction first with
  | nil => exact second
  | plain name value rest ih => exact .plain name value ih
  | starred name run rest ih =>
      rw [List.append_assoc]
      exact .starred name run ih

/-- A property of the values that a list has with its elements is kept by sharing them out. -/
theorem forall_value {P : Value → Prop} (h : Shares targets values bindings)
    (hlist : ∀ run : List Value, (∀ v ∈ run, P v) → P (.list run)) (hvalues : ∀ v ∈ values, P v) :
    ∀ binding ∈ bindings, P binding.2 := by
  induction h with
  | nil => exact nofun
  | plain name value rest ih =>
      obtain ⟨hvalue, hlater⟩ := List.forall_mem_cons.1 hvalues
      exact List.forall_mem_cons.2 ⟨hvalue, ih hlater⟩
  | starred name run rest ih =>
      obtain ⟨hrun, hlater⟩ := List.forall_mem_append.1 hvalues
      exact List.forall_mem_cons.2 ⟨hlist run hrun, ih hlater⟩

/-- Plain targets take one value each. -/
theorem zip_names (hplain : AllPlain targets) (hlength : values.length = targets.length) :
    Shares targets values ((targets.map (·.name)).zip values) := by
  induction targets generalizing values with
  | nil =>
      obtain rfl := List.eq_nil_of_length_eq_zero hlength
      exact .nil
  | cons target rest ih =>
      obtain ⟨hfirst, hrest⟩ := List.forall_mem_cons.1 hplain
      obtain ⟨value, others, rfl⟩ := List.exists_cons_of_length_eq_add_one hlength
      obtain ⟨name, _⟩ := target
      cases hfirst
      exact .plain name value (ih hrest (by simpa using hlength))

theorem length_eq_of_allPlain (h : Shares targets values bindings) (hplain : AllPlain targets) :
    values.length = targets.length := by
  induction h with
  | nil => rfl
  | plain name value rest ih => simp [ih fun target ht => hplain target (by simp [ht])]
  | starred name run rest ih => exact absurd (hplain _ (List.mem_cons_self ..)) (by simp)

/-- A pattern with one star at most leaves no choice. -/
theorem unique (h : Shares targets values bindings) (hstar : targets.countP (·.starred) ≤ 1)
    (h' : Shares targets values bindings') : bindings = bindings' := by
  induction h generalizing bindings' with
  | nil =>
      cases h'
      rfl
  | plain name value rest ih =>
      cases h' with
      | plain _ _ rest' => rw [ih (by simpa using hstar) rest']
  | @starred targets values bindings name run rest ih =>
      have hnone : targets.countP (·.starred) = 0 := by simpa using hstar
      have hplain := countP_starred_eq_zero_iff.1 hnone
      generalize hall : run ++ values = all at h'
      cases h' with
      | @starred _ values' _ _ run' rest' =>
          have hlength : values.length = values'.length := by
            rw [rest.length_eq_of_allPlain hplain, rest'.length_eq_of_allPlain hplain]
          obtain ⟨rfl, rfl⟩ := List.append_inj' hall hlength
          rw [ih (by omega) rest']

/-- Every target but the star costs a value. -/
theorem length_le (h : Shares targets values bindings) :
    targets.length ≤ values.length + targets.countP (·.starred) := by
  induction h with
  | nil => simp
  | plain name value rest ih =>
      simp only [List.length_cons, List.countP_cons]
      omega
  | starred name run rest ih =>
      simp only [List.length_cons, List.length_append, List.countP_cons, if_true]
      omega

/-- The star takes what the other targets leave. -/
theorem exists_run (h : Shares targets values bindings) (hstar : targets.countP (·.starred) ≤ 1)
    {target : Target} {binding : String × Value} (hmem : (target, binding) ∈ targets.zip bindings)
    (htarget : target.starred = true) :
    ∃ run, binding.2 = .list run ∧ values.length = run.length + (targets.length - 1) := by
  induction h with
  | nil => simp at hmem
  | @plain targets values bindings name value rest ih =>
      rw [List.zip_cons_cons, List.mem_cons] at hmem
      rcases hmem with heq | hmem
      · cases heq
        cases htarget
      · obtain ⟨run, hrun, hlength⟩ := ih (by simpa using hstar) hmem
        have hpos := List.length_pos_of_mem (List.of_mem_zip hmem).1
        refine ⟨run, hrun, ?_⟩
        simp only [List.length_cons]
        omega
  | @starred targets values bindings name run rest ih =>
      have hnone : targets.countP (·.starred) = 0 := by simpa using hstar
      have hplain := countP_starred_eq_zero_iff.1 hnone
      rw [List.zip_cons_cons, List.mem_cons] at hmem
      rcases hmem with heq | hmem
      · cases heq
        exact ⟨run, rfl, by simp [rest.length_eq_of_allPlain hplain]⟩
      · rw [hplain target (List.of_mem_zip hmem).1] at htarget
        cases htarget

end Shares

namespace Pattern

variable {p : Pattern} {values : List Value} {bindings : Bindings}

/-- A pattern is plain, or it has plain targets before and after one starred target. -/
theorem plain_or_starred (p : Pattern) :
    (AllPlain p.targets ∧ p.star? = none) ∨
    ∃ before name after, p.targets = before ++ ⟨name, true⟩ :: after ∧ AllPlain before ∧
      AllPlain after ∧ p.star? = some before.length := by
  cases hstar : p.star? with
  | none =>
      have hplain : AllPlain p.targets := by
        simpa [star?, AllPlain] using hstar
      exact .inl ⟨hplain, rfl⟩
  | some i =>
      obtain ⟨hi, hname, -⟩ := List.findIdx?_eq_some_iff_getElem.1 hstar
      have hsplit : p.targets = p.targets.take i ++ p.targets[i] :: p.targets.drop (i + 1) := by
        rw [← List.drop_eq_getElem_cons hi, List.take_append_drop]
      have hcount := p.one_star
      rw [hsplit, List.countP_append, List.countP_cons, if_pos hname] at hcount
      have hbefore : (p.targets.take i).countP (·.starred) = 0 := by omega
      have hafter : (p.targets.drop (i + 1)).countP (·.starred) = 0 := by omega
      have htarget : p.targets[i] = ⟨p.targets[i].name, true⟩ := by
        rw [← hname]
      rw [htarget] at hsplit
      exact .inr ⟨_, _, _, hsplit, countP_starred_eq_zero_iff.1 hbefore,
        countP_starred_eq_zero_iff.1 hafter, by simp [Nat.le_of_lt hi]⟩

/-- The numbers of values that a pattern accepts. -/
def Accepts (p : Pattern) (count : ℕ) : Prop :=
  if p.star?.isSome then p.required ≤ count else count = p.required

theorem unpack_of_accepts (h : p.Accepts values.length) :
    ∃ bindings, p.unpack values = .ok bindings ∧ Shares p.targets values bindings := by
  rcases p.plain_or_starred with ⟨hplain, hstar⟩ |
    ⟨before, name, after, hsplit, hbefore, hafter, hstar⟩
  · have hcount : values.length = p.required := by simpa [Accepts, hstar] using h
    have hlength : values.length = p.targets.length := by simpa [required, hstar] using hcount
    refine ⟨_, ?_, Shares.zip_names hplain hlength⟩
    simp only [unpack, hstar, if_pos hcount]
  · have hrequired : p.required = before.length + after.length := by
      simp [required, hstar, hsplit]
    have hcount : before.length + after.length ≤ values.length := by
      simpa [Accepts, hstar, hrequired] using h
    -- the values up to the last targets are those of the first targets and the run
    have hstop : values.length - (p.required - before.length) = values.length - after.length := by
      omega
    generalize hend : values.length - after.length = stop at hstop
    have hlead : (values.take before.length).length = before.length := by simp; omega
    have htail : (values.drop stop).length = after.length := by simp; omega
    have hvalues : values =
        values.take before.length ++ ((values.take stop).drop before.length ++ values.drop stop) := by
      have hfirst : values.take before.length = (values.take stop).take before.length := by
        rw [List.take_take, Nat.min_eq_left (by omega)]
      rw [hfirst, ← List.append_assoc, List.take_append_drop, List.take_append_drop]
    have hshares := (Shares.zip_names hbefore hlead).append
      (.starred name ((values.take stop).drop before.length) (Shares.zip_names hafter htail))
    rw [← hvalues, ← hsplit] at hshares
    refine ⟨_, ?_, hshares⟩
    simp only [unpack, hstar, hstop, if_neg (show ¬ values.length < p.required by omega)]
    rw [hsplit, List.map_append, List.map_cons, List.zip_append (by simpa using hlead.symm),
      List.zip_cons_cons]

theorem accepts_of_shares (h : Shares p.targets values bindings) : p.Accepts values.length := by
  rcases p.plain_or_starred with ⟨hplain, hstar⟩ | ⟨before, name, after, hsplit, -, -, hstar⟩
  · simpa [Accepts, required, hstar] using h.length_eq_of_allPlain hplain
  · have hle := h.length_le
    have hone := p.one_star
    simp only [Accepts, required, hstar, Option.isSome_some, if_true]
    omega

theorem unpack_of_not_accepts (h : ¬ p.Accepts values.length) :
    p.unpack values = .error (.unpackMismatch p.required values.length p.star?.isSome) := by
  unfold Accepts at h
  unfold unpack
  cases hstar : p.star? with
  | none =>
      simp only [hstar, Option.isSome_none, Bool.false_eq_true, if_false] at h
      simp only [if_neg h, Option.isSome_none]
  | some star =>
      simp only [hstar, Option.isSome_some, if_true] at h
      simp only [if_pos (Nat.lt_of_not_le h), Option.isSome_some]

theorem exists_unpack_iff :
    (∃ bindings, p.unpack values = .ok bindings) ↔ p.Accepts values.length := by
  constructor
  · rintro ⟨bindings, hok⟩
    by_contra h
    rw [unpack_of_not_accepts h] at hok
    cases hok
  · intro h
    obtain ⟨bindings, hok, -⟩ := unpack_of_accepts h
    exact ⟨bindings, hok⟩

/-- Unpacking shares out the values, in the only way there is. -/
theorem unpack_eq_ok_iff : p.unpack values = .ok bindings ↔ Shares p.targets values bindings := by
  constructor
  · intro hok
    obtain ⟨_, hunpack, hshares⟩ := unpack_of_accepts (exists_unpack_iff.1 ⟨bindings, hok⟩)
    rw [hunpack] at hok
    cases hok
    exact hshares
  · intro hshares
    obtain ⟨others, hunpack, hshares'⟩ := unpack_of_accepts (accepts_of_shares hshares)
    rw [hunpack, hshares.unique p.one_star hshares']

theorem targets_of_ofTargets {targets : List Target} (hp : ofTargets targets = .ok p) :
    p.targets = targets := by
  unfold ofTargets at hp
  split at hp
  · cases hp
    rfl
  · cases hp

theorem star?_isSome (p : Pattern) : p.star?.isSome = p.targets.any (·.starred) := by
  simp [star?]

/-- Unpacking uses nothing of a source but its values. -/
theorem run_unpack_of_source {source : Run (List Value)} {st st' : Store}
    (hsource : source.run st = some (.ok values, st')) :
    (source >>= fun values => liftExcept (p.unpack values) : Run Bindings).run st =
      some (p.unpack values, st') := by
  rw [Run.run_bind_of_ok hsource, Run.run_lift]

end Pattern

/-- A pattern is unpacked from any values, and from whatever gives these values. Without a star it
takes as many values as there are targets, with a star one fewer or more. It then shares out the
values among the targets, in the only way there is; the star takes what the others leave. A number
of values that does not fit is reported as it is. -/
theorem unpack_shares_out {targets : List Target} {p : Pattern}
    (hp : Pattern.ofTargets targets = .ok p) (values : List Value) :
    let starred := targets.any (·.starred)
    ((∃ bindings, p.unpack values = .ok bindings) ↔
      if starred then targets.length - 1 ≤ values.length else values.length = targets.length) ∧
    (∀ bindings, p.unpack values = .ok bindings ↔ Shares targets values bindings) ∧
    (∀ bindings, p.unpack values = .ok bindings →
      bindings.map (·.1) = targets.map (·.name) ∧
      ∀ target binding, (target, binding) ∈ targets.zip bindings → target.starred = true →
        ∃ run, binding.2 = .list run ∧ run.length = values.length - p.required) ∧
    (∀ e, p.unpack values = .error e →
      e = .unpackMismatch p.required values.length starred) ∧
    (∀ v st st', v.materialize.run st = some (.ok values, st') →
      (p.unpackValue v).run st = some (p.unpack values, st')) ∧
    ∀ h st st', (Sequence.collect h).run st = some (.ok values, st') →
      (p.unpackSequence h).run st = some (p.unpack values, st') := by
  intro starred
  obtain rfl := Pattern.targets_of_ofTargets hp
  have hstarred : p.star?.isSome = starred := p.star?_isSome
  have haccepts : p.Accepts values.length ↔ if starred then p.targets.length - 1 ≤ values.length
      else values.length = p.targets.length := by
    unfold Pattern.Accepts Pattern.required
    rw [hstarred]
    split <;> rfl
  refine ⟨Pattern.exists_unpack_iff.trans haccepts, fun _ => Pattern.unpack_eq_ok_iff, ?_, ?_,
    fun v st st' => Pattern.run_unpack_of_source, fun h st st' => Pattern.run_unpack_of_source⟩
  · intro bindings hok
    have hshares := Pattern.unpack_eq_ok_iff.1 hok
    refine ⟨hshares.names_eq, fun target binding hmem htarget => ?_⟩
    obtain ⟨run, hrun, hlength⟩ := hshares.exists_run p.one_star hmem htarget
    have hany : p.star?.isSome = true := by
      rw [hstarred]
      exact List.any_eq_true.2 ⟨target, (List.of_mem_zip hmem).1, htarget⟩
    refine ⟨run, hrun, ?_⟩
    rw [Pattern.required, if_pos hany]
    omega
  · intro e herror
    have hreject : ¬ p.Accepts values.length := by
      intro h
      obtain ⟨bindings, hok⟩ := Pattern.exists_unpack_iff.2 h
      rw [hok] at herror
      cases herror
    rw [Pattern.unpack_of_not_accepts hreject, hstarred] at herror
    cases herror
    rfl

/-- A star between two targets, one of which has its name. -/
theorem unpack_shares_out_middle :
    let targets : List Target := [⟨"a", false⟩, ⟨"b", true⟩, ⟨"b", false⟩]
    ∃ p, Pattern.ofTargets targets = .ok p ∧
      p.unpack [.int 1, .int 2, .int 3, .int 4] =
        .ok [("a", .int 1), ("b", .list [.int 2, .int 3]), ("b", .int 4)] := by
  intro targets
  have hp : Pattern.ofTargets targets = .ok ⟨targets, by decide⟩ := rfl
  refine ⟨_, hp, ((unpack_shares_out hp _).2.1 _).2 ?_⟩
  exact .plain "a" _ (.starred "b" [.int 2, .int 3] (.plain "b" _ .nil))

end Conformance
