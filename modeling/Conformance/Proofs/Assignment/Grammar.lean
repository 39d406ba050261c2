import Conformance.Proofs.Assignment.Spacing
import Conformance.Proofs.Traversal

/-!
# The grammar of written patterns

A written pattern is cut at its commas into slots; one blank last slot after others does not count.
A slot writes a target when it is the name between white space, after a star and more white space
if the target is starred. Reading a pattern succeeds exactly if each slot writes a target and one
star at most is among them, and it reads back whatever way a pattern is written in.
-/

namespace Conformance

/-- A slot spells a target: its name between white space, or a star, white space and the name. -/
inductive Target.Spelled : Target → List Char → Prop
  | plain (name : String) {s : List Char} (h : Pads name.toList s) : Spelled ⟨name, false⟩ s
  | starred (name : String) {gap s : List Char} (hgap : AllBlank gap)
      (h : Pads ('*' :: (gap ++ name.toList)) s) : Spelled ⟨name, true⟩ s

/-- A slot writes a target: it spells the target, and the name is an identifier. -/
structure Target.Written (t : Target) (s : List Char) : Prop where
  ident : isIdentifier t.name.toList = true
  spelled : t.Spelled s

/-- The pieces of a text between its commas. -/
structure CutAtCommas (text : List Char) (pieces : List (List Char)) : Prop where
  ne_nil : pieces ≠ []
  comma_free : ∀ piece ∈ pieces, ',' ∉ piece
  joined : text = [','].intercalate pieces

/-- The slots of a written pattern: the pieces between its commas, without a blank last one that
comes after others. -/
inductive HasSlots (text : List Char) : List (List Char) → Prop
  | all {init : List (List Char)} {last : List Char} (hcut : CutAtCommas text (init ++ [last]))
      (hlast : init ≠ [] → ¬ AllBlank last) : HasSlots text (init ++ [last])
  | dropLast {init : List (List Char)} {last : List Char}
      (hcut : CutAtCommas text (init ++ [last])) (hinit : init ≠ []) (hlast : AllBlank last) :
      HasSlots text init

theorem comma_free_of_mem_splitOn (text : List Char) :
    ∀ piece ∈ text.splitOn ',', ',' ∉ piece := by
  induction text with
  | nil => simp
  | cons c rest ih =>
      rw [List.splitOn_cons_eq_if_modifyHead]
      split
      case isTrue hc => exact List.forall_mem_cons.2 ⟨List.not_mem_nil, ih⟩
      case isFalse hc =>
        cases hpieces : rest.splitOn ',' with
        | nil => exact nofun
        | cons first others =>
            rw [hpieces] at ih
            obtain ⟨hfirst, hothers⟩ := List.forall_mem_cons.1 ih
            have hne : ',' ≠ c := fun heq => hc (beq_iff_eq.2 heq.symm)
            exact List.forall_mem_cons.2 ⟨List.not_mem_cons_of_ne_of_not_mem hne hfirst, hothers⟩

/-- The pieces between commas are those that splitting finds. -/
theorem cutAtCommas_iff {text : List Char} {pieces : List (List Char)} :
    CutAtCommas text pieces ↔ text.splitOn ',' = pieces := by
  constructor
  · rintro ⟨hne, hfree, rfl⟩
    exact List.splitOn_intercalate ',' hfree hne
  · rintro rfl
    exact ⟨List.splitOn_ne_nil ',' text, comma_free_of_mem_splitOn text,
      (List.intercalate_splitOn ',').symm⟩

theorem isEmpty_trim_iff {s : List Char} : (trim s).isEmpty = true ↔ AllBlank s := by
  rw [List.isEmpty_iff]
  constructor
  · intro hnil
    obtain ⟨before, after, hbefore, hafter, heq⟩ := pads_trim s
    rw [hnil, List.append_nil] at heq
    exact heq ▸ hbefore.append hafter
  · intro hs
    have hnil : AllBlank [] := nofun
    have htrim := trim_append hs [] hnil
    rwa [List.append_nil, List.append_nil] at htrim

theorem slots_of_cutAtCommas {text : List Char} {init : List (List Char)} {last : List Char}
    (hcut : CutAtCommas text (init ++ [last])) : Pattern.slots text =
      if init ≠ [] ∧ (trim last).isEmpty = true then init else init ++ [last] := by
  unfold Pattern.slots
  rw [← List.splitOn_eq_splitOnP, cutAtCommas_iff.1 hcut]
  simp [List.length_pos_iff]

/-- The slots of a text are those that reading a pattern finds. -/
theorem hasSlots_iff {text : List Char} {slots : List (List Char)} :
    HasSlots text slots ↔ Pattern.slots text = slots := by
  constructor
  · rintro (⟨hcut, hlast⟩ | ⟨hcut, hinit, hlast⟩)
    · rw [slots_of_cutAtCommas hcut, if_neg]
      exact fun ⟨hinit, hblank⟩ => hlast hinit (isEmpty_trim_iff.1 hblank)
    · rw [slots_of_cutAtCommas hcut, if_pos ⟨hinit, isEmpty_trim_iff.2 hlast⟩]
  · rintro rfl
    have hcut : CutAtCommas text _ := cutAtCommas_iff.2 rfl
    obtain hnil | ⟨init, last, hpieces⟩ := List.eq_nil_or_concat (text.splitOn ',')
    · exact absurd hnil hcut.ne_nil
    · rw [hpieces, List.concat_eq_append] at hcut
      rw [slots_of_cutAtCommas hcut]
      split
      case isTrue h => exact .dropLast hcut h.1 (isEmpty_trim_iff.1 h.2)
      case isFalse h => exact .all hcut fun hinit hblank => h ⟨hinit, isEmpty_trim_iff.2 hblank⟩

namespace Target

variable {t : Target} {s rest : List Char}

theorem Written.subset (h : t.Written s) {c : Char} (hc : c ∈ t.name.toList) : c ∈ s := by
  cases h.spelled with
  | plain name hpads => exact hpads.subset hc
  | starred name hgap hpads =>
      exact hpads.subset (List.mem_cons_of_mem _ (List.mem_append_right _ hc))

/-- A slot that writes a target has nothing but white space, a star and the name in it. -/
theorem Written.mem_cases (h : t.Written s) {c : Char} (hc : c ∈ s) :
    Unicode.isBlank c = true ∨ c = '*' ∨ c ∈ t.name.toList := by
  cases h.spelled with
  | plain name hpads => exact (hpads.isBlank_or_mem hc).imp_right .inr
  | starred name hgap hpads =>
      obtain hblank | hmem := hpads.isBlank_or_mem hc
      · exact .inl hblank
      · obtain hstar | hgap' | hname := (List.mem_cons.1 hmem).imp_right List.mem_append.1
        · exact .inr (.inl hstar)
        · exact .inl (hgap c hgap')
        · exact .inr (.inr hname)

theorem Written.comma_free (h : t.Written s) : ',' ∉ s := by
  intro hc
  obtain hblank | hstar | hname := h.mem_cases hc
  · exact absurd hblank (by decide)
  · exact absurd hstar (by decide)
  · exact not_mem_of_isIdentifier h.ident isForeign_comma hname

theorem Written.not_allBlank (h : t.Written s) : ¬ AllBlank s := by
  intro hblank
  obtain ⟨c, hc⟩ := List.exists_mem_of_ne_nil _ (ne_nil_of_isIdentifier h.ident)
  exact not_mem_of_isIdentifier h.ident (isForeign_of_isBlank (hblank c (h.subset hc))) hc

theorem parse_of_trim_eq_cons_star (hs : trim s = '*' :: rest) : parse s =
    if isIdentifier (trim rest) then .ok ⟨String.ofList (trim rest), true⟩
    else .error (.invalidTarget (String.ofList (trim s))) := by
  simp only [parse, hs]

theorem parse_of_trim_ne_cons_star (hs : ∀ rest, trim s ≠ '*' :: rest) : parse s =
    if isIdentifier (trim s) then .ok ⟨String.ofList (trim s), false⟩
    else .error (.invalidTarget (String.ofList (trim s))) := by
  unfold parse
  generalize trim s = text at hs ⊢
  cases text with
  | nil => rfl
  | cons first rest =>
      simp

/-- The text of a starred target begins with the star and ends with the name. -/
theorem isTight_cons_star {gap name : List Char} (hname : isIdentifier name = true) :
    IsTight ('*' :: (gap ++ name)) where
  head := by
    rintro c ⟨⟩
    decide
  last c hc := by
    rw [← List.cons_append,
      List.getLast?_append_of_ne_nil _ (ne_nil_of_isIdentifier hname)] at hc
    exact (isTight_of_isIdentifier hname).last c hc

theorem Written.parse_eq (h : t.Written s) : parse s = .ok t := by
  obtain ⟨hident, hspelled⟩ := h
  cases hspelled with
  | plain name hpads =>
      have htrim := trim_eq_iff.2 ⟨hpads, isTight_of_isIdentifier hident⟩
      rw [parse_of_trim_ne_cons_star, htrim, if_pos hident, String.ofList_toList]
      intro rest heq
      exact not_mem_of_isIdentifier hident isForeign_star (htrim ▸ heq ▸ List.mem_cons_self)
  | @starred name gap _ hgap hpads =>
      have htrim := trim_eq_iff.2 ⟨hpads, isTight_cons_star hident⟩
      have hname : trim (gap ++ name.toList) = name.toList :=
        trim_eq_iff.2 ⟨⟨gap, [], hgap, nofun, (List.append_nil _).symm⟩,
          isTight_of_isIdentifier hident⟩
      rw [parse_of_trim_eq_cons_star htrim, hname, if_pos hident, String.ofList_toList]

/-- What follows the star is the name between white space, so the slot spells a starred target. -/
theorem spelled_of_trim_eq_cons_star (hs : trim s = '*' :: rest) :
    Spelled ⟨String.ofList (trim rest), true⟩ s := by
  obtain ⟨before, after, hbefore, hafter, heq⟩ := pads_trim s
  obtain ⟨gap, tail, hgap, htail, hrest⟩ := pads_trim rest
  refine .starred _ hgap ⟨before, tail ++ after, hbefore, htail.append hafter, ?_⟩
  rw [hs, hrest] at heq
  rw [heq, String.toList_ofList]
  simp only [List.append_assoc, List.cons_append]

/-- Reading a slot gives a target that it writes, or fails with what trimming leaves of it. -/
theorem parse_cases (s : List Char) : (∃ t : Target, parse s = .ok t ∧ t.Written s) ∨
    parse s = .error (.invalidTarget (String.ofList (trim s))) := by
  by_cases hstar : ∃ rest, trim s = '*' :: rest
  · obtain ⟨rest, hrest⟩ := hstar
    rw [parse_of_trim_eq_cons_star hrest]
    by_cases hident : isIdentifier (trim rest) = true
    · rw [if_pos hident]
      exact .inl ⟨_, rfl, by rwa [String.toList_ofList], spelled_of_trim_eq_cons_star hrest⟩
    · exact .inr (if_neg hident)
  · rw [parse_of_trim_ne_cons_star fun rest heq => hstar ⟨rest, heq⟩]
    by_cases hident : isIdentifier (trim s) = true
    · rw [if_pos hident]
      refine .inl ⟨_, rfl, by rwa [String.toList_ofList], .plain _ ?_⟩
      rw [String.toList_ofList]
      exact pads_trim s
    · exact .inr (if_neg hident)

/-- Reading a slot gives the target that it writes. -/
theorem parse_eq_ok_iff : parse s = .ok t ↔ t.Written s := by
  constructor
  · intro hok
    obtain ⟨t', hok', hwritten⟩ | herror := parse_cases s
    · cases hok.symm.trans hok'
      exact hwritten
    · cases hok.symm.trans herror
  · exact Written.parse_eq

/-- Reading a slot that writes no target fails with what trimming leaves of it. -/
theorem parse_eq_error_iff {e : Fault} : parse s = .error e ↔
    (∀ t : Target, ¬ t.Written s) ∧ e = .invalidTarget (String.ofList (trim s)) := by
  constructor
  · intro herror
    obtain ⟨t, hok, -⟩ | hinvalid := parse_cases s
    · cases herror.symm.trans hok
    · cases herror.symm.trans hinvalid
      refine ⟨fun t hwritten => ?_, rfl⟩
      cases herror.symm.trans hwritten.parse_eq
  · rintro ⟨hnone, rfl⟩
    obtain ⟨t, -, hwritten⟩ | hinvalid := parse_cases s
    · exact absurd hwritten (hnone t)
    · exact hinvalid

end Target

namespace Pattern

variable {text : String} {slots : List (List Char)}

/-- Reading a pattern reads its slots from left to right, and then looks at the stars. -/
theorem parse_eq_bind (hslots : HasSlots text.toList slots) :
    parse text = slots.mapM Target.parse >>= ofTargets := by
  rw [parse, hasSlots_iff.1 hslots]

theorem ofTargets_eq_ok_iff {targets : List Target} {p : Pattern} :
    ofTargets targets = .ok p ↔ p.targets = targets := by
  unfold ofTargets
  split
  case isTrue h =>
    constructor
    · rintro ⟨⟩
      rfl
    · rintro rfl
      rfl
  case isFalse h =>
    constructor
    · exact nofun
    · rintro rfl
      exact absurd p.one_star h

theorem ofTargets_eq_error_iff {targets : List Target} {e : Fault} :
    ofTargets targets = .error e ↔ 1 < targets.countP (·.starred) ∧ e = .multipleStarred := by
  unfold ofTargets
  split
  case isTrue h => exact ⟨nofun, fun ⟨hlt, _⟩ => absurd hlt (Nat.not_lt.2 h)⟩
  case isFalse h =>
    rw [and_iff_right (Nat.lt_of_not_le h), Except.error.injEq, eq_comm]

/-- The slots write the targets, one by one. -/
theorem mapM_parse_eq_ok_iff {targets : List Target} :
    slots.mapM Target.parse = .ok targets ↔
      List.Forall₂ (fun slot t => t.Written slot) slots targets := by
  simp only [mapM_eq_ok_iff, Target.parse_eq_ok_iff]

theorem intercalate_concat {pieces : List (List Char)} (hne : pieces ≠ []) (last : List Char) :
    [','].intercalate (pieces ++ [last]) = [','].intercalate pieces ++ ',' :: last := by
  induction pieces with
  | nil => exact absurd rfl hne
  | cons piece rest ih =>
      by_cases hrest : rest = []
      · simp [hrest]
      · rw [List.cons_append, List.intercalate_cons_of_ne_nil (by simp),
          List.intercalate_cons_of_ne_nil hrest, ih hrest, List.append_assoc _ _ (',' :: last)]

/-- Slots that write targets, with or without a comma after the last of them, are the slots of the
text that they make. -/
theorem hasSlots_of_written {targets : List Target} (hne : targets ≠ [])
    (hwritten : List.Forall₂ (fun slot t => t.Written slot) slots targets) {tail : List Char}
    (htail : tail = [] ∨ ∃ blank, AllBlank blank ∧ tail = ',' :: blank) :
    HasSlots ([','].intercalate slots ++ tail) slots := by
  have hslots : slots ≠ [] := by
    rintro rfl
    cases hwritten
    exact hne rfl
  have hall : ∀ slot ∈ slots, ',' ∉ slot ∧ ¬ AllBlank slot :=
    forall_mem_of_forall₂ (P := fun slot => ',' ∉ slot ∧ ¬ AllBlank slot)
      (fun _ _ h => ⟨h.comma_free, h.not_allBlank⟩) hwritten.flip
  obtain rfl | ⟨blank, hblank, rfl⟩ := htail
  · obtain hnil | ⟨init, last, hconcat⟩ := List.eq_nil_or_concat slots
    · exact absurd hnil hslots
    · rw [List.concat_eq_append] at hconcat
      rw [List.append_nil, hconcat]
      refine .all ⟨by simp, fun slot hslot => ?_, rfl⟩ fun _ => ?_
      · exact (hall slot (hconcat ▸ hslot)).1
      · exact (hall last (by simp [hconcat])).2
  · refine .dropLast ⟨by simp, ?_, (intercalate_concat hslots blank).symm⟩ hslots hblank
    intro piece hpiece hcomma
    obtain hslot | hlast := List.mem_append.1 hpiece
    · exact (hall piece hslot).1 hcomma
    · cases List.mem_singleton.1 hlast
      exact absurd (hblank ',' hcomma) (by decide)

/-- Reading a text gives the targets that its slots write, if one star at most is among them. -/
theorem exists_parse_iff (hslots : HasSlots text.toList slots) {targets : List Target} :
    (∃ p, parse text = .ok p ∧ p.targets = targets) ↔
      List.Forall₂ (fun slot t => t.Written slot) slots targets ∧
        targets.countP (·.starred) ≤ 1 := by
  rw [parse_eq_bind hslots, ← mapM_parse_eq_ok_iff]
  cases slots.mapM Target.parse with
  | error e => simp [bind, Except.bind]
  | ok found =>
      change (∃ p, ofTargets found = .ok p ∧ p.targets = targets) ↔ _
      simp only [ofTargets_eq_ok_iff, Except.ok.injEq]
      constructor
      · rintro ⟨p, rfl, rfl⟩
        exact ⟨rfl, p.one_star⟩
      · rintro ⟨rfl, hone⟩
        exact ⟨⟨found, hone⟩, rfl, rfl⟩

theorem parse_eq_ok_of_written (hslots : HasSlots text.toList slots) {p : Pattern}
    (hwritten : List.Forall₂ (fun slot t => t.Written slot) slots p.targets) :
    parse text = .ok p := by
  rw [parse_eq_bind hslots, mapM_parse_eq_ok_iff.2 hwritten]
  exact ofTargets_eq_ok_iff.2 rfl

/-- Reading a text fails on the first slot that writes no target, and only without such a slot on
the stars. -/
theorem parse_eq_error_iff (hslots : HasSlots text.toList slots) {e : Fault} :
    parse text = .error e ↔
      (∃ before slot after, slots = before ++ slot :: after ∧
        (∀ s ∈ before, ∃ t : Target, t.Written s) ∧ (∀ t : Target, ¬ t.Written slot) ∧
        e = .invalidTarget (String.ofList (trim slot))) ∨
      ∃ targets : List Target, List.Forall₂ (fun slot t => t.Written slot) slots targets ∧
        1 < targets.countP (·.starred) ∧ e = .multipleStarred := by
  have hmalformed : slots.mapM Target.parse = .error e ↔ _ := mapM_eq_error_iff
  simp only [Target.parse_eq_ok_iff, Target.parse_eq_error_iff] at hmalformed
  rw [parse_eq_bind hslots, ← hmalformed]
  simp only [← mapM_parse_eq_ok_iff, ← ofTargets_eq_error_iff]
  cases slots.mapM Target.parse <;> simp [bind, Except.bind]

/-- Reading a pattern accepts exactly the grammar of written patterns. Each text has its slots.
They are read to targets exactly if they write these targets in order, and one at most is starred.
Otherwise the fault carries the first slot that writes no target, without white space at either
end, or tells of two stars if there is no such slot. A pattern of identifiers is read back from
however it is spelled, with or without a comma at the end. -/
theorem parse_reads_grammar :
    (∀ text : String, ∃ slots, HasSlots text.toList slots ∧
      (∀ slots', HasSlots text.toList slots' → slots' = slots) ∧
      (∀ targets : List Target, (∃ p, parse text = .ok p ∧ p.targets = targets) ↔
        List.Forall₂ (fun slot t => t.Written slot) slots targets ∧
          targets.countP (·.starred) ≤ 1) ∧
      ∀ e, parse text = .error e ↔
        (∃ before slot after shown, slots = before ++ slot :: after ∧
          (∀ s ∈ before, ∃ t : Target, t.Written s) ∧ (∀ t : Target, ¬ t.Written slot) ∧
          Pads shown slot ∧ IsTight shown ∧ e = .invalidTarget (String.ofList shown)) ∨
        ∃ targets : List Target, List.Forall₂ (fun slot t => t.Written slot) slots targets ∧
          1 < targets.countP (·.starred) ∧ e = .multipleStarred) ∧
    ∀ (p : Pattern) (slots : List (List Char)) (tail : List Char), p.targets ≠ [] →
      (∀ t ∈ p.targets, isIdentifier t.name.toList = true) →
      List.Forall₂ (fun slot t => t.Spelled slot) slots p.targets →
      (tail = [] ∨ ∃ blank, AllBlank blank ∧ tail = ',' :: blank) →
      parse (String.ofList ([','].intercalate slots ++ tail)) = .ok p := by
  constructor
  · intro text
    have hslots : HasSlots text.toList _ := hasSlots_iff.2 rfl
    refine ⟨_, hslots, fun slots' h => (hasSlots_iff.1 h).symm, fun targets =>
      exists_parse_iff hslots, fun e => ?_⟩
    rw [parse_eq_error_iff hslots]
    apply or_congr_left
    constructor
    · rintro ⟨before, slot, after, heq, hbefore, hslot, rfl⟩
      exact ⟨before, slot, after, _, heq, hbefore, hslot, pads_trim slot, isTight_trim slot, rfl⟩
    · rintro ⟨before, slot, after, shown, heq, hbefore, hslot, hpads, htight, rfl⟩
      exact ⟨before, slot, after, heq, hbefore, hslot, by rw [trim_eq_iff.2 ⟨hpads, htight⟩]⟩
  · intro p slots tail hne hident hspelled htail
    have hwritten : List.Forall₂ (fun slot t => t.Written slot) slots p.targets := by
      rw [List.forall₂_iff_get] at hspelled ⊢
      obtain ⟨hlength, hget⟩ := hspelled
      exact ⟨hlength, fun i h h' => ⟨hident _ (List.get_mem ..), hget i h h'⟩⟩
    apply parse_eq_ok_of_written _ hwritten
    rw [String.toList_ofList]
    exact hasSlots_of_written hne hwritten htail

/-- Two targets, the second starred, with white space at a name and at a star, before the comma
between them and after the one at the end. -/
theorem parse_reads_grammar_spaced :
    parse " a ,* rest, " = .ok ⟨[⟨"a", false⟩, ⟨"rest", true⟩], by decide⟩ := by
  have hblank : AllBlank [' '] := by decide
  refine parse_reads_grammar.2 ⟨[⟨"a", false⟩, ⟨"rest", true⟩], by decide⟩
    [[' ', 'a', ' '], ['*', ' ', 'r', 'e', 's', 't']] [',', ' '] (by decide) (by decide) ?_
    (.inr ⟨[' '], hblank, rfl⟩)
  apply List.Forall₂.cons (.plain "a" ⟨[' '], [' '], hblank, hblank, rfl⟩)
  exact .cons (.starred "rest" hblank ⟨[], [], nofun, nofun, rfl⟩) .nil

end Pattern

end Conformance
