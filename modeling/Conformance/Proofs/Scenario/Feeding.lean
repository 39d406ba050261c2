import Conformance.Proofs.Call.Feeding
import Conformance.Proofs.Scenario.Outcome

/-!
# Feeding values lazily

A scenario may feed values as a list or from a generator that gives them one by one. Its outcome
is the same: the generator is drained where the list is read, and what cannot be converted is
refused before either of them is made.
-/

namespace Conformance

/-- A store has the sequences of another one in their states, and perhaps more. -/
structure Store.Extends (s s' : Store) : Prop where
  length_le : s.cells.length ≤ s'.cells.length
  state_eq : ∀ k : Handle, k.index < s.cells.length → s'.state k = s.state k

namespace Store.Extends

variable {s s' s'' : Store}

theorem refl (s : Store) : s.Extends s := ⟨Nat.le_refl _, fun _ _ => rfl⟩

theorem trans (h : s.Extends s') (h' : s'.Extends s'') : s.Extends s'' where
  length_le := h.length_le.trans h'.length_le
  state_eq k hk := (h'.state_eq k (hk.trans_le h.length_le)).trans (h.state_eq k hk)

theorem allocate (s : Store) (state : State) : s.Extends (s.allocate state).2 where
  length_le := by simp [Store.allocate]
  state_eq k hk := by rw [state_allocate, if_neg (Nat.ne_of_lt hk)]

end Store.Extends

/-- The sequence that a value is, if it is one, is not among those of a store. -/
def Value.IsNew (s : Store) (v : Value) : Prop := ∀ h, v = .lazy h → s.cells.length ≤ h.index

theorem Value.isNew_of_isLazyFree {v : Value} (hfree : v.isLazyFree = true) (s : Store) :
    v.IsNew s := by
  rintro h rfl
  cases hfree

theorem Value.StandsFor.index_lt {s : Store} {h : Handle} {w : Value}
    (hstands : (lazy h).StandsFor s w) : h.index < s.cells.length := by
  cases hstands with
  | same hfree => cases hfree
  | generator hstate hfree => exact Store.index_lt_of_state (by simp [hstate])

theorem Argument.StandsFor.index_lt {s : Store} {a b : Argument Value} {h : Handle}
    (hstands : a.StandsFor s b) (ha : a.value = .lazy h) : h.index < s.cells.length := by
  cases hstands with
  | spread hvalue =>
      obtain rfl : _ = Value.lazy h := ha
      exact hvalue.index_lt
  | positional hfree | keyword name hfree =>
      obtain rfl : _ = Value.lazy h := ha
      cases hfree

namespace Scenario

/-! ## Parts of scenarios that agree -/

theorem ofRun_agree {α β : Type} {R : Store → α → β → Prop} {x : Run α} {y : Run β} {s t : Store}
    (h : Agree R x s y t) : Agree R (ofRun x) s (ofRun y) t := by
  obtain ⟨r, s', r', t', hx, hy, halike⟩ := h
  refine ⟨r.mapError .fault, s', r'.mapError .fault, t', congrArg (Option.bind · _) hx,
    congrArg (Option.bind · _) hy, ?_⟩
  cases halike with
  | ok related => exact .ok related
  | error e => exact .error _

/-- A conversion that succeeds gives a value without sequences. -/
theorem toValue_agree (item : Toml) (s t : Store) :
    Agree (fun s' v w => v = w ∧ s' = s ∧ v.isLazyFree = true)
      (ofConversion (toValue item)) s (ofConversion (toValue item)) t := by
  cases hvalue : toValue item with
  | error cause => exact Agree.throw _ _ s t
  | ok v => exact Agree.pure ⟨rfl, rfl, isLazyFree_of_toValue hvalue⟩

/-- What some TOML values become lazily or not stands for the list of their values. -/
theorem sequence_agree (items : List Toml) (lazy : Bool) (s t : Store) :
    Agree (fun s' v w => v.StandsFor s' w ∧ v.IsNew s ∧ s.Extends s')
      (sequence items lazy) s (sequence items false) t := by
  unfold sequence
  cases hvalues : toValues items with
  | error cause => exact Agree.throw _ _ s t
  | ok values =>
      have hlist : toValue (.array items) = .ok (.list values) := by
        rw [toValue, hvalues]
        rfl
      have hfree := isLazyFree_of_toValue hlist
      cases lazy with
      | false =>
          exact Agree.pure ⟨.same hfree, Value.isNew_of_isLazyFree hfree s, .refl s⟩
      | true =>
          refine ⟨_, (s.allocate (.waiting (.ofValues values) [])).2, _, t, rfl, rfl,
            .ok ⟨.generator ?_ hfree, ?_, .allocate s _⟩⟩
          · rw [Store.state_allocate]
            exact if_pos rfl
          · rintro h ⟨⟩
            exact Nat.le_refl _

theorem converted_agree {item : Toml} {f : Value → Argument Value}
    (hf : ∀ (s : Store) (v : Value), v.isLazyFree = true → (f v).StandsFor s (f v))
    (hvalue : ∀ v, (f v).value = v) (s t : Store) :
    Agree (fun s' a b => a.StandsFor s' b ∧ a.value.IsNew s ∧ s.Extends s')
      (do return f (← ofConversion (toValue item)) : Eval (Argument Value)) s
      (do return f (← ofConversion (toValue item)) : Eval (Argument Value)) t := by
  apply (toValue_agree item s t).bind
  rintro s' v _ t' - ⟨rfl, rfl, hfree⟩
  refine Agree.pure ⟨hf s' v hfree, ?_, .refl s'⟩
  rw [hvalue]
  exact Value.isNew_of_isLazyFree hfree s'

theorem argument_agree (arg : Arg) (s t : Store) :
    Agree (fun s' a b => a.StandsFor s' b ∧ a.value.IsNew s ∧ s.Extends s')
      (argument arg) s (argument arg.eager) t := by
  cases arg with
  | positional item =>
      exact converted_agree (fun _ _ => .positional) (fun _ => rfl) s t
  | spread item =>
      exact converted_agree (fun _ _ hfree => .spread (.same hfree)) (fun _ => rfl) s t
  | keyword name item =>
      exact converted_agree (fun _ _ => .keyword name) (fun _ => rfl) s t
  | spreadLazy items =>
      have harray : argument (.spread (.array items)) =
          (do return .spread (← sequence items false)) := by
        rw [argument, toValue, sequence]
        cases toValues items <;> rfl
      rw [Arg.eager, harray]
      apply (sequence_agree items true s t).bind
      rintro s' v w t' - ⟨hstands, hnew, hextends⟩
      exact Agree.pure ⟨.spread hstands, hnew, hextends⟩

/-- The generators among the arguments are made one after the other, so no two of them are the
same. -/
theorem arguments_agree (args : List Arg) (s t : Store) :
    Agree (fun s' as bs => StandFor s' as bs ∧ (∀ a ∈ as, a.value.IsNew s) ∧ s.Extends s')
      (args.mapM argument) s ((args.map Arg.eager).mapM argument) t := by
  induction args generalizing s t with
  | nil => exact Agree.pure ⟨.nil, nofun, .refl s⟩
  | cons arg rest ih =>
      rw [List.map_cons, List.mapM_cons, List.mapM_cons]
      apply (argument_agree arg s t).bind
      rintro s' a b t' - ⟨hhead, hnew, hextends⟩
      apply (ih s' t').bind
      rintro s'' as bs t'' - ⟨htail, hlater, hextends'⟩
      have hold : ∀ k, a.value = .lazy k → k.index < s'.cells.length := fun k => hhead.index_lt
      refine Agree.pure ⟨.cons (hhead.frame ?_) ?_ htail, ?_, hextends.trans hextends'⟩
      · exact fun k hk => hextends'.state_eq k (hold k hk)
      · intro k hk a' ha' hk'
        exact Nat.not_le_of_lt (hold k hk) (hlater a' ha' k hk')
      · refine List.forall_mem_cons.2 ⟨hnew, fun a' ha' k hk => ?_⟩
        exact hextends.length_le.trans (hlater a' ha' k hk)

theorem call_agree {as bs : List (Argument Value)} {s : Store} (h : StandFor s as bs)
    (forward : Bool) (signature : Signature) (t : Store) :
    let f : Function := .summing signature
    Agree (fun _ => Eq) ((if forward then forwarder f else f).call as) s
      ((if forward then forwarder f else f).call bs) t := by
  cases forward with
  | false => exact h.call_summing signature t
  | true =>
      have hnodup : (⟨"g", [], some "args", []⟩ : Signature).names.Nodup :=
        List.nodup_singleton "args"
      exact h.call_forwarding_summing hnodup rfl "args" signature t

/-! ## Whole scenarios -/

theorem Operation.outcome_agree (op : Operation) :
    Agree (fun _ => Eq) op.outcome .empty op.eager.outcome .empty := by
  cases op with
  | join sep items lazy =>
      apply (sequence_agree items lazy .empty .empty).bind
      rintro s' v w t' - ⟨hstands, -, -⟩
      have hjoin : Agree (fun _ => Eq) (v.join sep) s' (w.join sep) t' :=
        (hstands.agree_eq t').bind_eq fun values => Agree.lift_eq (joinItems sep values)
      exact (ofRun_agree hjoin).bind_eq fun _ _ _ => Agree.pure rfl
  | unpack targets values lazy =>
      apply (Agree.lift _ .empty .empty).bind
      rintro s pattern _ t - ⟨rfl, -⟩
      apply (sequence_agree values lazy s t).bind
      rintro s' v w t' - ⟨hstands, -, -⟩
      have hunpack : Agree (fun _ => Eq) (pattern.unpackValue v) s' (pattern.unpackValue w) t' :=
        (hstands.agree_eq t').bind_eq fun items => Agree.lift_eq (pattern.unpack items)
      exact (ofRun_agree hunpack).bind_eq fun _ _ _ => Agree.pure rfl
  | bind params args =>
      obtain ⟨o, s', hsignature, -⟩ := signature_ends params .empty Store.listed_empty
      apply (Agree.refl ⟨_, hsignature⟩).bind
      rintro s signature _ t - rfl
      apply (arguments_agree args s t).bind
      rintro s' as bs t' - ⟨hstand, -, -⟩
      exact (ofRun_agree (hstand.bind signature t')).bind_eq fun _ _ _ => Agree.pure rfl
  | call params args forward =>
      obtain ⟨o, s', hsignature, -⟩ := signature_ends params .empty Store.listed_empty
      apply (Agree.refl ⟨_, hsignature⟩).bind
      rintro s signature _ t - rfl
      apply (arguments_agree args s t).bind
      rintro s' as bs t' - ⟨hstand, -, -⟩
      have hcall := call_agree hstand forward signature t'
      exact (ofRun_agree hcall).bind_eq fun _ _ _ => Agree.pure rfl
  | _ =>
      obtain ⟨r, s', hrun, -⟩ := Operation.outcome_ends _ .empty Store.listed_empty
      exact Agree.refl ⟨_, hrun⟩

theorem evaluate_eq_of_agree {op op' : Operation}
    (h : Agree (fun _ => Eq) op.run .empty op'.run .empty) : evaluate op = evaluate op' := by
  obtain ⟨r, s', r', t', hop, hop', halike⟩ := h
  have heval : evaluate op = r := by simp only [evaluate, hop, Option.get_some]
  have heval' : evaluate op' = r' := by simp only [evaluate, hop', Option.get_some]
  rw [heval, heval', halike.eq]

/-- Feeding lists instead of generators does not change what a scenario gives. -/
theorem evaluate_eager (op : Operation) : evaluate op.eager = evaluate op := by
  symm
  apply evaluate_eq_of_agree
  apply op.outcome_agree.bind
  rintro s o _ t hrun rfl
  rw [((op.eager_ensures .empty _ t hrun).1 o rfl).1.toToml_eq]
  exact Agree.lift_eq (o.form.mapError EvalError.invalid) s t

/-- Two arguments feed the same values: they are the same, or one of them spreads a generator of
the values whose array the other one spreads. -/
inductive Arg.Refed : Arg → Arg → Prop
  | refl (arg : Arg) : Refed arg arg
  | eager (items : List Toml) : Refed (.spreadLazy items) (.spread (.array items))
  | lazy (items : List Toml) : Refed (.spread (.array items)) (.spreadLazy items)

/-- Two operations feed the same values in another way: the values that one of them joins or
unpacks come lazily if those of the other one do not, or any of their arguments are fed in
another way. -/
inductive Operation.Refed : Operation → Operation → Prop
  | join (sep : Text) (items : List Toml) (lazy : Bool) :
      Refed (.join sep items lazy) (.join sep items !lazy)
  | unpack (targets : String) (values : List Toml) (lazy : Bool) :
      Refed (.unpack targets values lazy) (.unpack targets values !lazy)
  | bind (params : Params) {args args' : List Arg} (hargs : List.Forall₂ Arg.Refed args args') :
      Refed (.bind params args) (.bind params args')
  | call (params : Params) {args args' : List Arg} (forward : Bool)
      (hargs : List.Forall₂ Arg.Refed args args') :
      Refed (.call params args forward) (.call params args' forward)

theorem Arg.Refed.eager_eq {arg arg' : Arg} (h : arg.Refed arg') : arg.eager = arg'.eager := by
  cases h <;> rfl

theorem Arg.Refed.map_eager_eq {args args' : List Arg} (h : List.Forall₂ Arg.Refed args args') :
    args.map Arg.eager = args'.map Arg.eager := by
  induction h with
  | nil => rfl
  | cons head tail ih => rw [List.map_cons, List.map_cons, head.eager_eq, ih]

/-- Operations that feed the same values give the same TOML value, fail with the same fault, or
are refused for the same cause. -/
theorem evaluate_refed {op op' : Operation} (h : op.Refed op') : evaluate op = evaluate op' := by
  have heager : op.eager = op'.eager := by
    cases h with
    | join sep items lazy => rfl
    | unpack targets values lazy => rfl
    | bind params hargs => rw [Operation.eager, Operation.eager, Arg.Refed.map_eager_eq hargs]
    | call params forward hargs =>
        rw [Operation.eager, Operation.eager, Arg.Refed.map_eager_eq hargs]
  calc evaluate op = evaluate op.eager := (evaluate_eager op).symm
    _ = evaluate op'.eager := by rw [heager]
    _ = evaluate op' := evaluate_eager op'

/-- Two spreads of a forwarded call, of which one becomes a list and the other one a generator,
around an argument that stays. -/
theorem evaluate_refed_forwarded :
    let params : Params := ⟨"f", ["a"], some "rest", [("scale", .integer 10)]⟩
    let op := Operation.call params
      [.spreadLazy [.integer 1, .integer 2], .positional (.integer 3), .spread (.array [])] true
    let op' := Operation.call params
      [.spread (.array [.integer 1, .integer 2]), .positional (.integer 3), .spreadLazy []] true
    op.Refed op' ∧ evaluate op = evaluate op' ∧ evaluate op = .ok (.integer 16) := by
  intro params op op'
  have hrefed : op.Refed op' := by
    apply Operation.Refed.call
    exact .cons (.eager _) (.cons (.refl _) (.cons (.lazy _) .nil))
  exact ⟨hrefed, evaluate_refed hrefed, (evaluate_eager op).symm.trans rfl⟩

end Scenario

end Conformance
