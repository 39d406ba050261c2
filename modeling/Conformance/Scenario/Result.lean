import Conformance.Scenario.Convert
import Conformance.Sequence.Ending

/-!
# TOML values of results

Lists and tuples both become arrays, and so does a sequence, which is drained first. A sequence
may give sequences, or itself, so the conversion of a value need not come to an end. It does when
all sequences give the values of lists, because each drain leaves one sequence less to give any.
-/

namespace Conformance

namespace Scenario

/-- A computation of a scenario. -/
abbrev Eval := ExceptT EvalError (StateT Store Option)

/-- A computation on sequences, as a part of a scenario. -/
def ofRun {α : Type} (run : Run α) : Eval α := ExceptT.mk fun s => do
  let (result, s) ← run.run s
  return (result.mapError EvalError.fault, s)

/-- A result on values, as a part of a scenario. -/
def ofResult {α : Type} (result : Except Fault α) : Eval α :=
  liftExcept (result.mapError EvalError.fault)

/-- A conversion, as a part of a scenario. -/
def ofConversion {α : Type} (result : Except Nonsense α) : Eval α :=
  liftExcept (result.mapError EvalError.invalid)

theorem ofRun_ends {α : Type} {run : Run α} (hrun : Ends run) : Ends (ofRun run) := by
  intro s hs
  obtain ⟨result, s', h, hs'⟩ := hrun s hs
  exact ⟨result.mapError EvalError.fault, s', congrArg (Option.bind · _) h, hs'⟩

mutual

/-- The TOML value of a value, in which each sequence is converted as given. -/
def convert (ofSequence : Handle → Eval Toml) : Value → Eval Toml
  | .int n => return .integer n
  | .bool b => return .boolean b
  | .str t => return .string t.toString
  | .list items | .tuple items => return .array (← convertItems ofSequence items)
  | .lazy h => ofSequence h
  | .nothing => throw (.invalid .noToml)

/-- The TOML values of some values, in order. -/
def convertItems (ofSequence : Handle → Eval Toml) : List Value → Eval (List Toml)
  | [] => return []
  | v :: rest => return (← convert ofSequence v) :: (← convertItems ofSequence rest)

end

/-- The array of all values that a sequence still gives. -/
def convertDrained (ofSequence : Handle → Eval Toml) (h : Handle) : Eval Toml := do
  return .array (← convertItems ofSequence (← ofRun (Sequence.drain h)))

theorem run_convertDrained {h : Handle} {s s' : Store} {values : List Value}
    (hdrain : s.drain h [] = some (.ok values, s')) (ofSequence : Handle → Eval Toml) :
    (convertDrained ofSequence h).run s =
      (do return .array (← convertItems ofSequence values) : Eval Toml).run s' := by
  have hrun : (ofRun (Sequence.drain h)).run s = some (.ok values, s') :=
    congrArg (Option.bind · _) hdrain
  exact Run.run_bind_of_ok hrun _

/-- One computation comes to each end to which another one comes. -/
def Continues {α : Type} (x y : Eval α) : Prop := ∀ s o, x.run s = some o → y.run s = some o

theorem Continues.refl {α : Type} (x : Eval α) : Continues x x := fun _ _ h => h

theorem Continues.bind {α β : Type} {x y : Eval α} (h : Continues x y) {f g : α → Eval β}
    (hnext : ∀ a, Continues (f a) (g a)) : Continues (x >>= f) (y >>= g) := by
  intro s o hrun
  rw [Run.run_bind, Option.bind_eq_some_iff] at hrun ⊢
  obtain ⟨⟨e | a, s'⟩, hx, hrest⟩ := hrun
  · exact ⟨_, h _ _ hx, hrest⟩
  · exact ⟨_, h _ _ hx, hnext a _ _ hrest⟩

section Continues

variable {f g : Handle → Eval Toml}

mutual

theorem convert_continues (h : ∀ k, Continues (f k) (g k)) :
    (v : Value) → Continues (convert f v) (convert g v)
  | .int _ | .bool _ | .str _ | .nothing => .refl _
  | .lazy k => h k
  | .list items | .tuple items => (convertItems_continues h items).bind fun _ => .refl _

theorem convertItems_continues (h : ∀ k, Continues (f k) (g k)) :
    (items : List Value) → Continues (convertItems f items) (convertItems g items)
  | [] => .refl _
  | v :: rest => (convert_continues h v).bind fun _ =>
      (convertItems_continues h rest).bind fun _ => .refl _

end

theorem convertDrained_continues (h : ∀ k, Continues (f k) (g k)) (k : Handle) :
    Continues (convertDrained f k) (convertDrained g k) :=
  Continues.bind (.refl _) fun items => (convertItems_continues h items).bind fun _ => .refl _

end Continues

end Scenario

/-- The array of all values that a sequence still gives. Sequences among them are drained, too. -/
def Handle.toToml (h : Handle) : Scenario.Eval Toml :=
  Scenario.convertDrained (fun k => k |>.toToml) h
partial_fixpoint monotonicity by
  -- The recursion goes through the values that a drain gives, by structural recursion on them.
  intro f g hle h s
  have hcontinues : ∀ k, Scenario.Continues (f k) (g k) := by
    intro k s o hf
    have hk := hle k s
    change f k s = some o at hf
    change g k s = some o
    generalize f k s = x, g k s = y at *
    cases hk with
    | refl => exact hf
    | bot => cases hf
  have hs : ∀ o, Scenario.convertDrained f h s = some o → Scenario.convertDrained g h s = some o :=
    Scenario.convertDrained_continues hcontinues h s
  dsimp only
  generalize Scenario.convertDrained f h s = x, Scenario.convertDrained g h s = y at *
  cases x with
  | none => constructor
  | some o =>
    rw [hs o rfl]
    constructor

namespace Scenario

/-- The TOML value of a value. -/
def toToml (v : Value) : Eval Toml := convert Handle.toToml v

/-- A name with the TOML value of its value. -/
def bindingToToml (binding : String × Value) : Eval (String × Toml) := do
  return (binding.1, ← toToml binding.2)

/-- The table of some bindings, of which the last value of a name counts. -/
def bindingsToToml (bindings : Bindings) : Eval Toml := do
  return .table (Toml.Entries.ofList (← bindings.mapM bindingToToml))

/-! ## Conversions that come to an end -/

mutual

theorem convert_ends {I : Store → Prop} {ofSequence : Handle → Eval Toml}
    (h : ∀ k, EndsIn I (ofSequence k)) : (v : Value) → EndsIn I (convert ofSequence v)
  | .int _ | .bool _ | .str _ => .pure _
  | .nothing => .throw _
  | .lazy k => h k
  | .list items | .tuple items => (convertItems_ends h items).bind fun _ => .pure _

theorem convertItems_ends {I : Store → Prop} {ofSequence : Handle → Eval Toml}
    (h : ∀ k, EndsIn I (ofSequence k)) :
    (items : List Value) → EndsIn I (convertItems ofSequence items)
  | [] => .pure _
  | v :: rest => (convert_ends h v).bind fun _ => (convertItems_ends h rest).bind fun _ => .pure _

end

/-- All sequences are listed, and those that may still give values are among some handles. -/
structure OpenAmong (handles : List Handle) (s : Store) : Prop where
  listed : s.Listed
  mem : ∀ h, (s.state h).isOpen → h ∈ handles

/-- A drain leaves one sequence less that may give values. -/
theorem OpenAmong.drain {handles : List Handle} {s : Store} (hs : OpenAmong handles s)
    (h : Handle) : ∃ values s', s.drain h [] = some (.ok values, s') ∧
      OpenAmong (handles.erase h) s' := by
  obtain ⟨values, s', hdrain, hlisted, hend, hframe⟩ := hs.listed.drain h []
  refine ⟨values, s', hdrain, hlisted, fun k hk => ?_⟩
  have hne : k ≠ h := by
    rintro rfl
    rw [hend] at hk
    cases hk
  rw [hframe k hne] at hk
  exact (List.mem_erase_of_ne hne).2 (hs.mem k hk)

theorem handle_toToml_ends (handles : List Handle) (h : Handle) :
    EndsIn (OpenAmong handles) h.toToml := by
  intro s hs
  rw [Handle.toToml]
  -- A drain leaves fewer sequences open, and one that is not open gives no values.
  by_cases hopen : (s.state h).isOpen
  · obtain ⟨values, s₁, hdrain, hs₁⟩ := hs.drain h
    have hlt : (handles.erase h).length < handles.length := by
      rw [List.length_erase_of_mem (hs.mem h hopen)]
      exact Nat.sub_one_lt_of_lt (List.length_pos_of_mem (hs.mem h hopen))
    have hvalues := convertItems_ends (handle_toToml_ends (handles.erase h)) values
    obtain ⟨r, s₂, hrun, hs₂⟩ := (hvalues.bind fun items => .pure (Toml.array items)) s₁ hs₁
    refine ⟨r, s₂, ?_, hs₂.listed, fun k hk => List.mem_of_mem_erase (hs₂.mem k hk)⟩
    exact (run_convertDrained hdrain _).trans hrun
  · have hstate : s.state h = .exhausted := by
      have hlisted := hs.listed h
      cases hstate : s.state h with
      | exhausted => rfl
      | running => exact (hstate ▸ hlisted).elim
      | eager | waiting => simp [hstate, State.isOpen] at hopen
    have hdrain := Store.drain_of_none (Store.pull_exhausted hstate) []
    exact ⟨.ok (.array []), s, run_convertDrained hdrain _, hs⟩
termination_by handles.length

/-- The conversion of a value comes to an end when all sequences are listed. -/
theorem toToml_ends (v : Value) : Ends (toToml v) := by
  intro s hs
  have hamong : OpenAmong ((List.range s.cells.length).map Handle.mk) s := by
    refine ⟨hs, fun h hopen => List.mem_map.2 ⟨h.index, List.mem_range.2 ?_, rfl⟩⟩
    apply Store.index_lt_of_state
    intro hstate
    rw [hstate] at hopen
    cases hopen
  obtain ⟨r, s', hrun, hs'⟩ := convert_ends (handle_toToml_ends _) v s hamong
  exact ⟨r, s', hrun, hs'.listed⟩

theorem bindingToToml_ends (binding : String × Value) : Ends (bindingToToml binding) :=
  EndsIn.bind (toToml_ends binding.2) fun _ => EndsIn.pure _

theorem bindingsToToml_ends (bindings : Bindings) : Ends (bindingsToToml bindings) :=
  EndsIn.bind (EndsIn.mapM bindingToToml_ends bindings) fun _ => EndsIn.pure _

end Scenario

end Conformance
