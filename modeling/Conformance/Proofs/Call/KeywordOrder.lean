import Conformance.Proofs.Call.Faults
import Conformance.Proofs.Call.Regrouping

/-!
# The order of keywords

Binding looks up keywords by their names. Where they stand between the other arguments and in which
order changes at most which of several faulty names is reported. A fixed parameter takes a
positional value or the same value as a keyword, wherever this stands.
-/

namespace Conformance

/-- Two lists of arguments that differ only in where the keywords stand. -/
structure Rearranged (left right : List (Argument Value)) : Prop where
  others : left.filter (·.keyword?.isNone) = right.filter (·.keyword?.isNone)
  keywords : (keywordsOf left).Perm (keywordsOf right)

/-- The same environment, or faults of the same category. -/
inductive AlikeUpToOffender : Except Fault Environment → Except Fault Environment → Prop
  | bound (env : Environment) : AlikeUpToOffender (.ok env) (.ok env)
  | failed {e e' : Fault} (category : e.category = e'.category) :
      AlikeUpToOffender (.error e) (.error e')

/-- Keywords contribute no positional values. -/
theorem expansion_filter (arguments : List (Argument Value)) :
    expansion (arguments.filter (·.keyword?.isNone)) = expansion arguments := by
  induction arguments with
  | nil => rfl
  | cons arg rest ih =>
      cases arg with
      | positional | spread => rw [List.filter_cons_of_pos rfl, expansion_cons, expansion_cons, ih]
      | keyword =>
          rw [List.filter_cons_of_neg Bool.false_ne_true, ih, expansion_cons]
          simp [Argument.elements]

theorem Rearranged.expansion_eq {left right : List (Argument Value)} (h : Rearranged left right) :
    expansion left = expansion right := by
  rw [← expansion_filter left, h.others, expansion_filter]

namespace Signature

variable {s : Signature} {values : List Value} {left right : Bindings}

theorem Fits.congr (h : s.Fits values left)
    (hnames : ∀ name, name ∈ left.map (·.1) ↔ name ∈ right.map (·.1)) : s.Fits values right where
  room := h.room
  known name hname := h.known name ((hnames name).2 hname)
  filled name hname := (hnames name).1 (h.filled name hname)

theorem layout_congr (h : ∀ name, left.get? name = right.get? name) :
    s.layout values left = s.layout values right := by
  simp only [layout, h]

theorem distribute_ok_of_perm (hs : s.names.Nodup) (hnodup : (left.map (·.1)).Nodup)
    (hperm : left.Perm right) {env : Environment} (h : s.distribute ⟨values, left⟩ = .ok env) :
    s.distribute ⟨values, right⟩ = .ok env := by
  obtain ⟨hfits, henv⟩ := (distribute_eq_ok_iff hs).1 h
  apply (distribute_eq_ok_iff hs).2
  refine ⟨hfits.congr fun name => (hperm.map (·.1)).mem_iff, ?_⟩
  rw [henv]
  exact layout_congr (Bindings.get?_of_perm hnodup hperm)

theorem Refuses.category_eq {n : ℕ} {name : String} {e : Fault} (h : s.Refuses n name e) :
    e.category = .name := by
  cases h <;> rfl

/-- The category of a rejection tells only whether there was room. -/
theorem Rejects.category_eq {e : Fault} (h : s.Rejects values left e) :
    (¬ s.HasRoom values.length → e.category = .arity) ∧
      (s.HasRoom values.length → e.category = .name) := by
  cases h with
  | surplus hroom => exact ⟨fun _ => rfl, fun h => absurd h hroom⟩
  | keyword hroom _ _ refused => exact ⟨fun h => absurd hroom h, fun _ => refused.category_eq⟩
  | missing hroom => exact ⟨fun h => absurd hroom h, fun _ => rfl⟩

/-- Distribution comes to the same, whatever the order of the keywords is. -/
theorem distribute_alike (hs : s.names.Nodup) (hnodup : (left.map (·.1)).Nodup)
    (hperm : left.Perm right) (values : List Value) :
    AlikeUpToOffender (s.distribute ⟨values, left⟩) (s.distribute ⟨values, right⟩) := by
  have hnodup' : (right.map (·.1)).Nodup := (hperm.map (·.1)).nodup hnodup
  cases hleft : s.distribute ⟨values, left⟩ with
  | ok env =>
      rw [distribute_ok_of_perm hs hnodup hperm hleft]
      exact .bound env
  | error e =>
      cases hright : s.distribute ⟨values, right⟩ with
      | ok env =>
          rw [distribute_ok_of_perm hs hnodup' hperm.symm hright] at hleft
          cases hleft
      | error e' =>
          obtain ⟨harity, hname⟩ := (distribute_eq_error_iff.1 hleft).category_eq
          obtain ⟨harity', hname'⟩ := (distribute_eq_error_iff.1 hright).category_eq
          by_cases hroom : s.HasRoom values.length
          · exact .failed ((hname hroom).trans (hname' hroom).symm)
          · exact .failed ((harity hroom).trans (harity' hroom).symm)

/-- Without a repeated keyword, binding distributes the expanded values. -/
theorem bind_of_nodup (s : Signature) {arguments : List (Argument Value)}
    (hnodup : ((keywordsOf arguments).map (·.1)).Nodup) :
    s.bind arguments = expansion arguments >>= fun values =>
      liftExcept (s.distribute ⟨values, keywordsOf arguments⟩) := by
  rw [bind, expand_of_fresh s.name hnodup fun _ _ => List.not_mem_nil, map_eq_pure_bind,
    bind_assoc]
  simp only [pure_bind, List.nil_append]

/-- A repeated keyword is refused, if every spread before it has elements. -/
theorem error_of_repeated {arguments : List (Argument Value)} {st st' : Store}
    {r : Except Fault Environment} (hspreads : ∀ v, .spread v ∈ arguments → v.IsIterable st)
    (hrepeated : ¬ ((keywordsOf arguments).map (·.1)).Nodup)
    (hrun : (s.bind arguments).run st = some (r, st')) :
    ∃ name, r = .error (.multipleValues s.name name) := by
  obtain ⟨supplied, hwalk, rfl⟩ := run_bind_iff.1 hrun
  cases hwalk with
  | whole passed => exact absurd (noneFails_iff.1 passed).2 hrepeated
  | failed split _ _ fails =>
      obtain ⟨name, -, rfl⟩ := fails.repeats_of_isIterable fun v harg =>
        hspreads v (by rw [split, harg]; exact List.mem_append_right _ List.mem_cons_self)
      exact ⟨name, rfl⟩

section Rearranged

variable {first second : List (Argument Value)} {st t t' : Store} (hs : s.names.Nodup)
  (h : Rearranged first second)

include hs h

theorem bind_ok_of_rearranged {env : Environment}
    (hfirst : (s.bind first).run st = some (.ok env, t)) :
    (s.bind second).run st = some (.ok env, t) := by
  obtain ⟨hnodup, values, hvalues, hfits, henv⟩ := (bind_eq_ok_iff hs).1 hfirst
  have hnames := h.keywords.map (·.1)
  rw [h.expansion_eq] at hvalues
  rw [layout_congr (Bindings.get?_of_perm hnodup h.keywords)] at henv
  apply (bind_eq_ok_iff hs).2
  exact ⟨hnames.nodup hnodup, values, hvalues, hfits.congr fun _ => hnames.mem_iff, henv⟩

theorem alike_of_nodup (hnodup : ((keywordsOf first).map (·.1)).Nodup)
    {r r' : Except Fault Environment} (hfirst : (s.bind first).run st = some (r, t))
    (hsecond : (s.bind second).run st = some (r', t')) : AlikeUpToOffender r r' := by
  have hnodup' := (h.keywords.map (·.1)).nodup hnodup
  rw [bind_of_nodup s hnodup, Run.bind_eq_some_iff] at hfirst
  rw [bind_of_nodup s hnodup', ← h.expansion_eq, Run.bind_eq_some_iff] at hsecond
  obtain ⟨values, t₁, hvalues, hdistribute⟩ | ⟨e, hfails, rfl⟩ := hfirst
  · obtain ⟨values', t₂, hvalues', hdistribute'⟩ | ⟨e, hfails, -⟩ := hsecond
    · cases hvalues.symm.trans hvalues'
      rw [Run.run_lift] at hdistribute hdistribute'
      cases hdistribute
      cases hdistribute'
      exact distribute_alike hs hnodup h.keywords values
    · cases hvalues.symm.trans hfails
  · obtain ⟨values', t₂, hvalues', -⟩ | ⟨e', hfails', rfl⟩ := hsecond
    · cases hfails.symm.trans hvalues'
    · cases hfails.symm.trans hfails'
      exact .failed rfl

theorem alike_of_isIterable (hspreads : ∀ v, .spread v ∈ first → v.IsIterable st)
    {r r' : Except Fault Environment} (hfirst : (s.bind first).run st = some (r, t))
    (hsecond : (s.bind second).run st = some (r', t')) : AlikeUpToOffender r r' := by
  by_cases hnodup : ((keywordsOf first).map (·.1)).Nodup
  · exact alike_of_nodup hs h hnodup hfirst hsecond
  · have hspreads' : ∀ v, .spread v ∈ second → v.IsIterable st := by
      intro v hv
      apply hspreads v
      have hmem : Argument.spread v ∈ second.filter (·.keyword?.isNone) :=
        List.mem_filter.2 ⟨hv, rfl⟩
      exact (List.mem_filter.1 (h.others ▸ hmem)).1
    have hrepeated : ¬ ((keywordsOf second).map (·.1)).Nodup :=
      fun hnodup' => hnodup ((h.keywords.map (·.1)).nodup_iff.2 hnodup')
    obtain ⟨name, rfl⟩ := error_of_repeated hspreads hnodup hfirst
    obtain ⟨name', rfl⟩ := error_of_repeated hspreads' hrepeated hsecond
    exact .failed rfl

end Rearranged

/-! ## Positional values as keywords -/

/-- The keywords that give the fixed parameters from the `n`-th on some values. -/
def naming (s : Signature) (n : ℕ) (values : List Value) : Bindings :=
  (s.fixed.drop n).zip values

theorem map_fst_naming {n : ℕ} (hle : n + values.length ≤ s.fixed.length) :
    (s.naming n values).map (·.1) = (s.fixed.drop n).take values.length := by
  apply List.ext_getElem
  · simp only [naming, List.length_map, List.length_zip, List.length_drop, List.length_take]
    omega
  · simp [naming]

theorem mem_naming {n i : ℕ} (hi : i < s.fixed.length) {v : Value} (hn : n ≤ i)
    (hv : values[i - n]? = some v) : (s.fixed[i], v) ∈ s.naming n values := by
  apply List.mem_of_getElem? (i := i - n)
  rw [naming, List.getElem?_zip_eq_some, List.getElem?_drop, Nat.add_sub_cancel' hn]
  exact ⟨List.getElem?_eq_getElem hi, hv⟩

section Naming

variable {front moved : List Value} (hle : (front ++ moved).length ≤ s.fixed.length)

include hle

/-- The moved values are for none of the parameters that are still open. -/
theorem not_mem_naming (hs : s.names.Nodup) {name : String}
    (hopen : name ∈ s.fixed.drop (front ++ moved).length ∨ name ∈ s.defaults.map (·.1)) :
    name ∉ (s.naming front.length moved).map (·.1) := by
  have hfilled := ((fits_keyword_iff hs _ name).2 hopen).1
  rw [List.length_append] at hle hfilled
  rw [List.take_add, List.mem_append, not_or] at hfilled
  rw [map_fst_naming hle]
  exact hfilled.2

variable (hfits : s.Fits (front ++ moved) left)

include hfits

theorem nodup_naming (hs : s.names.Nodup) (hnodup : (left.map (·.1)).Nodup) :
    ((left ++ s.naming front.length moved).map (·.1)).Nodup := by
  have hfixed : s.fixed.Nodup := by
    rw [names, List.append_assoc] at hs
    exact hs.of_append_left
  rw [List.map_append, List.nodup_append]
  refine ⟨hnodup, ?_, ?_⟩
  · rw [map_fst_naming (by rwa [List.length_append] at hle)]
    exact (hfixed.sublist (List.drop_sublist ..)).sublist (List.take_sublist ..)
  · rintro name hname other hother rfl
    exact not_mem_naming hle hs (hfits.known name hname) hother

theorem fits_naming : s.Fits front (left ++ s.naming front.length moved) := by
  rw [List.length_append] at hle
  have hmem : ∀ name, name ∈ (left ++ s.naming front.length moved).map (·.1) ↔
      name ∈ left.map (·.1) ∨ name ∈ (s.fixed.drop front.length).take moved.length := by
    intro name
    rw [List.map_append, List.mem_append, map_fst_naming hle]
  have hlater : s.fixed.drop (front ++ moved).length =
      (s.fixed.drop front.length).drop moved.length := by
    rw [List.length_append, List.drop_drop]
  constructor
  · intro _
    omega
  · intro name hname
    obtain hold | hmoved := (hmem name).1 hname
    · exact (hfits.known name hold).imp_left fun h => List.mem_of_mem_drop (hlater ▸ h)
    · exact .inl (List.mem_of_mem_take hmoved)
  · intro name hname
    rw [← List.take_append_drop moved.length (s.fixed.drop front.length), List.mem_append] at hname
    obtain hmoved | hopen := hname
    · exact (hmem name).2 (.inr hmoved)
    · exact (hmem name).2 (.inl (hfits.filled name (hlater ▸ hopen)))

omit hfits in
theorem get?_of_open (hs : s.names.Nodup) {name : String}
    (hopen : name ∈ s.fixed.drop (front ++ moved).length ∨ name ∈ s.defaults.map (·.1)) :
    (left ++ s.naming front.length moved).get? name = left.get? name := by
  have hnone := Bindings.get?_eq_none_iff.2 (not_mem_naming hle hs hopen)
  rw [Bindings.get?_append, hnone, Option.or_none]

/-- Each fixed parameter has the same value, by its position or by its name. -/
theorem fixed_value_naming (hs : s.names.Nodup) (hnodup : (left.map (·.1)).Nodup) {i : ℕ}
    (hi : i < s.fixed.length) :
    (if i < front.length then front[i]?
      else (left ++ s.naming front.length moved).get? s.fixed[i]) =
    if i < (front ++ moved).length then (front ++ moved)[i]? else left.get? s.fixed[i] := by
  by_cases hall : i < (front ++ moved).length
  · rw [if_pos hall]
    split
    case isTrue hfront => rw [List.getElem?_append_left hfront]
    case isFalse hfront =>
      have hn : front.length ≤ i := Nat.le_of_not_lt hfront
      have hvalue : moved[i - front.length]? = some (front ++ moved)[i] := by
        rw [← List.getElem?_append_right hn, List.getElem?_eq_getElem hall]
      rw [List.getElem?_eq_getElem hall]
      apply Bindings.get?_of_mem (nodup_naming hle hfits hs hnodup)
      exact List.mem_append_right _ (mem_naming hi hn hvalue)
  · obtain ⟨j, rfl⟩ := Nat.exists_eq_add_of_le (Nat.le_of_not_lt hall)
    have hfront : ¬ (front ++ moved).length + j < front.length := by
      rw [List.length_append]
      omega
    rw [if_neg hfront, if_neg hall]
    apply get?_of_open hle hs
    exact .inl (List.mem_drop_iff_getElem.2 ⟨j, by omega, rfl⟩)

theorem layout_naming (hs : s.names.Nodup) (hnodup : (left.map (·.1)).Nodup) :
    s.layout front (left ++ s.naming front.length moved) = s.layout (front ++ moved) left := by
  have hsurplus : front.drop s.fixed.length = (front ++ moved).drop s.fixed.length := by
    rw [List.drop_eq_nil_of_le hle, List.drop_eq_nil_of_le]
    rw [List.length_append] at hle
    omega
  unfold layout
  rw [hsurplus]
  refine congrArg₂ _ (congrArg₂ _ ?_ rfl) ?_
  · apply List.mapIdx_eq_mapIdx_iff.2
    intro i hi
    exact congrArg (Prod.mk s.fixed[i]) (fixed_value_naming hle hfits hs hnodup hi)
  · apply List.map_congr_left
    intro entry hentry
    have hget : (left ++ s.naming front.length moved).get? entry.1 = left.get? entry.1 :=
      get?_of_open hle hs (.inr (List.mem_map_of_mem hentry))
    exact congrArg (fun given => (entry.1, some (given.getD entry.2))) hget

end Naming

/-- Positional values may be given by name. -/
theorem bind_ok_of_naming (hs : s.names.Nodup) {first second : List (Argument Value)}
    {front moved : List Value} (hle : (front ++ moved).length ≤ s.fixed.length)
    (hfirst : first.filter (·.keyword?.isNone) = (front ++ moved).map .positional)
    (hsecond : second.filter (·.keyword?.isNone) = front.map .positional)
    (hperm : (keywordsOf second).Perm (keywordsOf first ++ s.naming front.length moved))
    {env : Environment} {st t : Store} (hrun : (s.bind first).run st = some (.ok env, t)) :
    (s.bind second).run st = some (.ok env, t) := by
  obtain ⟨hnodup, values, hvalues, hfits, henv⟩ := (bind_eq_ok_iff hs).1 hrun
  rw [← expansion_filter, hfirst, expansion_positionals] at hvalues
  cases hvalues
  have hnaming := nodup_naming hle hfits hs hnodup
  have hnames := hperm.map (·.1)
  apply (bind_eq_ok_iff hs).2
  refine ⟨hnames.nodup_iff.2 hnaming, front, ?_, ?_, ?_⟩
  · rw [← expansion_filter, hsecond, expansion_positionals]
  · exact (fits_naming hle hfits).congr fun _ => hnames.mem_iff.symm
  · rw [henv, ← layout_naming hle hfits hs hnodup]
    exact layout_congr (Bindings.get?_of_perm hnaming hperm.symm)

end Signature

/-- Binding to a declared signature does not depend on the order of the keywords. Let two lists of
arguments have the same positional arguments and spreads in the same order, and the same keywords
in any order and in any places. Each environment that one of them is bound to, the other is bound
to as well, with the same store. If both fail, the faults have the same category, provided that
every spread has elements and is not in progress, or that no keyword is repeated. If the expansion
of one ends, both bindings end. Moreover, positional values that are bound to fixed parameters may
be given as keywords for these parameters, from any of them on, in any order and in any places. -/
theorem bind_keywords_anywhere {name : String} {declarations : List (Declaration Value)}
    {s : Signature} (hs : Signature.declare name declarations = .ok s)
    (left right : List (Argument Value)) (st : Store) :
    (Rearranged left right →
      (∀ env t, (s.bind left).run st = some (.ok env, t) ↔
        (s.bind right).run st = some (.ok env, t)) ∧
      ((∀ v, .spread v ∈ left → v.IsIterable st) ∨ ((keywordsOf left).map (·.1)).Nodup →
        ∀ r t r' t', (s.bind left).run st = some (r, t) →
          (s.bind right).run st = some (r', t') → AlikeUpToOffender r r') ∧
      ((∃ o, (expansion left).run st = some o) →
        (∃ o, (s.bind left).run st = some o) ∧ ∃ o, (s.bind right).run st = some o)) ∧
    ∀ front moved, (front ++ moved).length ≤ s.fixed.length →
      left.filter (·.keyword?.isNone) = (front ++ moved).map .positional →
      right.filter (·.keyword?.isNone) = front.map .positional →
      (keywordsOf right).Perm
        (keywordsOf left ++ (s.fixed.drop front.length).zip moved) →
      ∀ env t, (s.bind left).run st = some (.ok env, t) →
        (s.bind right).run st = some (.ok env, t) := by
  have hnodup := Signature.nodup_of_declare hs
  constructor
  · intro h
    have h' : Rearranged right left := ⟨h.others.symm, h.keywords.symm⟩
    refine ⟨fun env t => ⟨?_, ?_⟩, ?_, ?_⟩
    · exact Signature.bind_ok_of_rearranged hnodup h
    · exact Signature.bind_ok_of_rearranged hnodup h'
    · rintro (hspreads | hkeywords) r t r' t' hleft hright
      · exact Signature.alike_of_isIterable hnodup h hspreads hleft hright
      · exact Signature.alike_of_nodup hnodup h hkeywords hleft hright
    · intro hends
      exact ⟨Signature.bind_ends hends, Signature.bind_ends (h.expansion_eq ▸ hends)⟩
  · intro front moved hle hleft hright hperm env t hrun
    exact Signature.bind_ok_of_naming hnodup hle hleft hright hperm hrun

/-- Two positional values around a keyword, and all three as keywords; and two faulty keywords, of
which the first in call order is reported. -/
theorem bind_keywords_anywhere_swapped :
    let s : Signature := ⟨"f", ["a", "b"], some "rest", [("c", .int 16)]⟩
    let left : List (Argument Value) :=
      [.positional (.int 1), .keyword "c" (.int 3), .positional (.int 2)]
    let right : List (Argument Value) :=
      [.keyword "b" (.int 2), .keyword "c" (.int 3), .keyword "a" (.int 1)]
    let first : List (Argument Value) :=
      [.keyword "x" .nothing, .positional (.int 1), .keyword "a" .nothing]
    let second : List (Argument Value) :=
      [.positional (.int 1), .keyword "a" .nothing, .keyword "x" .nothing]
    Signature.declare "f" [.fixed "a", .fixed "b", .variadic "rest", .keyword "c" (.int 16)] =
      .ok s ∧
    (∃ env, (s.bind left).run .empty = some (.ok env, .empty) ∧
      (s.bind right).run .empty = some (.ok env, .empty)) ∧
    ∃ e e', (s.bind first).run .empty = some (.error e, .empty) ∧
      (s.bind second).run .empty = some (.error e', .empty) ∧ e ≠ e' ∧
      e.category = e'.category := by
  intro s left right first second
  have hs : Signature.declare "f"
      [.fixed "a", .fixed "b", .variadic "rest", .keyword "c" (.int 16)] = .ok s := by rfl
  have hperm : (keywordsOf right).Perm (keywordsOf left ++ [("a", .int 1), ("b", .int 2)]) := by
    decide
  have hswapped : Rearranged first second := ⟨rfl, List.Perm.swap ..⟩
  refine ⟨hs, ⟨_, rfl, ?_⟩, _, _, rfl, rfl, by decide, ?_⟩
  · exact (bind_keywords_anywhere hs left right .empty).2 [] [.int 1, .int 2] (by decide) rfl rfl
      hperm _ _ rfl
  · have halike := ((bind_keywords_anywhere hs first second .empty).1 hswapped).2.1
      (.inr (by decide)) _ _ _ _ rfl rfl
    cases halike with
    | failed category => exact category

end Conformance
