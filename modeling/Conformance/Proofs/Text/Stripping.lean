import Mathlib.Data.List.DropRight
import Mathlib.Data.Set.Basic
import Conformance.Text.Strip

/-!
# Stripping texts

Stripping both ends measures the two runs on the whole text, while the one-sided forms compose one
after the other. They agree: a text that is not made of members only is a core, which begins and
ends outside the set, between two runs of members, and on such a text every form of stripping takes
off the runs at its ends. A text of members only is one run, and nothing is left of it.
-/

namespace Conformance

section Ends

variable {α : Type} {p : α → Bool} {l : List α} {a : α}

/-- What is left between the longest beginning and the longest ending begins outside of them. -/
theorem eq_false_of_mem_head? (ha : a ∈ ((l.dropWhile p).rdropWhile p).head?) : p a = false := by
  obtain ⟨rest, hcons⟩ := List.head?_eq_some_iff.1 ha
  obtain ⟨tail, htail⟩ := List.rdropWhile_prefix p (l.dropWhile p)
  rw [hcons] at htail
  have hhead := List.head?_dropWhile_not p l
  rwa [← htail] at hhead

theorem eq_false_of_mem_getLast? (ha : a ∈ (l.rdropWhile p).getLast?) : p a = false := by
  obtain ⟨hne, rfl⟩ := List.mem_getLast?_eq_getLast ha
  simpa using List.rdropWhile_last_not p _ hne

end Ends

namespace Text

/-- The codepoints that occur in a text. -/
def codepoints (t : Text) : Set Char := {c | c ∈ t.chars}

/-- The codepoints that stripping takes off: those of the given text, or white space. -/
def members : Option Text → Set Char
  | some u => u.codepoints
  | none => {c | Unicode.isBlank c = true}

/-- The longest beginning of a text that is made of members of a set. -/
structure IsLead (set : Set Char) (p t : Text) : Prop where
  begins : ∃ r, t = p ++ r
  subset : p.codepoints ⊆ set
  longest : ∀ q r, t = q ++ r → q.codepoints ⊆ set → q.length ≤ p.length

/-- The longest ending of a text that is made of members of a set. -/
structure IsTrail (set : Set Char) (q t : Text) : Prop where
  ends : ∃ r, t = r ++ q
  subset : q.codepoints ⊆ set
  longest : ∀ p r, t = r ++ p → p.codepoints ⊆ set → p.length ≤ q.length

/-- A text that is not empty and neither begins nor ends with a member of a set. -/
structure IsCore (set : Set Char) (t : Text) : Prop where
  head : ∃ c ∈ t.chars.head?, c ∉ set
  last : ∃ c ∈ t.chars.getLast?, c ∉ set

variable {set : Option Text} {t core p q r : Text}

theorem isMember_iff {c : Char} : isMember set c = true ↔ c ∈ members set := by
  cases set with
  | some u => exact List.contains_iff_mem
  | none => exact Iff.rfl

theorem isMember_eq_false_iff {c : Char} : isMember set c = false ↔ c ∉ members set := by
  rw [← isMember_iff, Bool.not_eq_true]

theorem codepoints_subset_members_iff :
    t.codepoints ⊆ members set ↔ ∀ c ∈ t.chars, isMember set c = true := by
  simp only [isMember_iff]
  rfl

/-! ## The two runs -/

theorem leadingRun_append (hp : p.codepoints ⊆ members set) (r : Text) :
    (p ++ r).leadingRun set = p.length + r.leadingRun set := by
  rw [leadingRun, chars_append,
    List.takeWhile_append_of_pos (codepoints_subset_members_iff.1 hp), List.length_append]
  rfl

theorem trailingRun_append (r : Text) (hq : q.codepoints ⊆ members set) :
    (r ++ q).trailingRun set = r.trailingRun set + q.length := by
  have hreverse : ∀ c ∈ q.chars.reverse, isMember set c = true := fun c hc =>
    codepoints_subset_members_iff.1 hq c (List.mem_reverse.1 hc)
  rw [trailingRun, chars_append, List.reverse_append, List.takeWhile_append_of_pos hreverse,
    List.length_append, List.length_reverse, Nat.add_comm]
  rfl

theorem leadingRun_of_subset (ht : t.codepoints ⊆ members set) : t.leadingRun set = t.length :=
  calc
    t.leadingRun set = (t ++ empty).leadingRun set := by rw [append_empty]
    _ = t.length + empty.leadingRun set := leadingRun_append ht empty

/-- What begins outside the set has no leading run, whatever follows. -/
theorem IsCore.leadingRun (h : IsCore (members set) core) (r : Text) :
    (core ++ r).leadingRun set = 0 := by
  obtain ⟨c, hhead, hc⟩ := h.head
  obtain ⟨rest, hcons⟩ := List.head?_eq_some_iff.1 hhead
  rw [Text.leadingRun, chars_append, hcons, List.cons_append, List.takeWhile_cons_of_neg]
  · rfl
  · rwa [isMember_iff]

/-- What ends outside the set has no trailing run, whatever comes before. -/
theorem IsCore.trailingRun (h : IsCore (members set) core) (r : Text) :
    (r ++ core).trailingRun set = 0 := by
  obtain ⟨c, hlast, hc⟩ := h.last
  obtain ⟨rest, hconcat⟩ := List.getLast?_eq_some_iff.1 hlast
  rw [Text.trailingRun, chars_append, List.reverse_append, hconcat, List.reverse_concat,
    List.cons_append, List.takeWhile_cons_of_neg]
  · rfl
  · rwa [isMember_iff]

/-! ## Texts of members only, and texts around a core -/

theorem stripLeft_append (hp : p.codepoints ⊆ members set) (hr : r.leadingRun set = 0) :
    (p ++ r).stripLeft set = r := by
  rw [stripLeft, leadingRun_append hp, hr, Nat.add_zero, chars_append, length, List.drop_left]

theorem stripRight_append (hr : r.trailingRun set = 0) (hq : q.codepoints ⊆ members set) :
    (r ++ q).stripRight set = r := by
  rw [stripRight, trailingRun_append r hq, hr, Nat.zero_add, length_append, Nat.add_sub_cancel,
    chars_append, length, List.take_left]

theorem stripLeft_of_subset (ht : t.codepoints ⊆ members set) : t.stripLeft set = empty := by
  rw [← stripLeft_append ht (r := empty) rfl, append_empty]

theorem stripRight_of_subset (ht : t.codepoints ⊆ members set) : t.stripRight set = empty := by
  rw [← empty_append t, stripRight_append (r := empty) rfl ht]

theorem strip_of_subset (ht : t.codepoints ⊆ members set) : t.strip set = empty :=
  if_pos (leadingRun_of_subset ht)

theorem IsCore.stripLeft_eq (hcore : IsCore (members set) core) (hp : p.codepoints ⊆ members set)
    (q : Text) : (p ++ core ++ q).stripLeft set = core ++ q := by
  rw [append_assoc, stripLeft_append hp (hcore.leadingRun q)]

theorem IsCore.stripRight_eq (hcore : IsCore (members set) core) (p : Text)
    (hq : q.codepoints ⊆ members set) : (p ++ core ++ q).stripRight set = p ++ core :=
  stripRight_append (hcore.trailingRun p) hq

/-- Measured on the whole text, the two runs are those at the ends of the core. -/
theorem IsCore.strip_eq (hcore : IsCore (members set) core) (hp : p.codepoints ⊆ members set)
    (hq : q.codepoints ⊆ members set) : (p ++ core ++ q).strip set = core := by
  have hlead : (p ++ core ++ q).leadingRun set = p.length := by
    rw [append_assoc, leadingRun_append hp, hcore.leadingRun, Nat.add_zero]
  have htrail : (p ++ core ++ q).trailingRun set = q.length := by
    rw [trailingRun_append _ hq, hcore.trailingRun, Nat.zero_add]
  have hne : p.length ≠ (p ++ core ++ q).length := by
    obtain ⟨c, hhead, -⟩ := hcore.head
    obtain ⟨rest, hcons⟩ := List.head?_eq_some_iff.1 hhead
    rw [length_append, length_append, length, length, length, hcons, List.length_cons]
    omega
  have htake : (p ++ core ++ q).chars.take (p ++ core).length = p.chars ++ core.chars := by
    rw [chars_append, length, List.take_left, chars_append]
  have hdrop : (p.chars ++ core.chars).drop p.length = core.chars := List.drop_left' rfl
  rw [strip, hlead, htrail, if_neg hne, length_append _ q, Nat.add_sub_cancel, htake, hdrop]

/-- What is left between the two longest runs, if they are not the whole text, is a core. -/
theorem isCore_between (hne : t.chars.dropWhile (isMember set) ≠ []) :
    IsCore (members set) ⟨(t.chars.dropWhile (isMember set)).rdropWhile (isMember set)⟩ := by
  have hcore : (t.chars.dropWhile (isMember set)).rdropWhile (isMember set) ≠ [] := by
    intro hnil
    have hfirst := List.head_dropWhile_not (isMember set) hne
    rw [List.rdropWhile_eq_nil_iff.1 hnil _ (List.head_mem hne)] at hfirst
    cases hfirst
  have hhead := List.head?_eq_some_head hcore
  have hlast := List.getLast?_eq_some_getLast hcore
  exact ⟨⟨_, hhead, isMember_eq_false_iff.1 (eq_false_of_mem_head? hhead)⟩,
    ⟨_, hlast, isMember_eq_false_iff.1 (eq_false_of_mem_getLast? hlast)⟩⟩

/-- A text is made of members only, or it is a core between two runs of members. -/
theorem subset_or_exists_core (set : Option Text) (t : Text) : t.codepoints ⊆ members set ∨
    ∃ p core q, t = p ++ core ++ q ∧ p.codepoints ⊆ members set ∧
      IsCore (members set) core ∧ q.codepoints ⊆ members set := by
  by_cases hnil : t.chars.dropWhile (isMember set) = []
  · exact .inl (codepoints_subset_members_iff.2 (List.dropWhile_eq_nil_iff.1 hnil))
  · refine .inr ⟨⟨t.chars.takeWhile (isMember set)⟩, _,
      ⟨(t.chars.dropWhile (isMember set)).rtakeWhile (isMember set)⟩, ?_, ?_,
      isCore_between hnil, ?_⟩
    · apply Text.ext
      rw [append_assoc, chars_append, chars_append, List.rdropWhile_append_rtakeWhile,
        List.takeWhile_append_dropWhile]
    · exact codepoints_subset_members_iff.2 fun c hc => List.mem_takeWhile_imp hc
    · exact codepoints_subset_members_iff.2 fun c hc => List.mem_rtakeWhile_imp hc

/-! ## What stripping takes off -/

theorem empty_subset (set : Set Char) : empty.codepoints ⊆ set := nofun

/-- A text is what stripping takes off its beginning, and what is left. -/
theorem exists_lead (set : Option Text) (t : Text) : ∃ p, t = p ++ t.stripLeft set ∧
    p.codepoints ⊆ members set ∧ (t.stripLeft set).leadingRun set = 0 := by
  rcases subset_or_exists_core set t with ht | ⟨p, core, q, rfl, hp, hcore, -⟩
  · rw [stripLeft_of_subset ht]
    exact ⟨t, (append_empty t).symm, ht, rfl⟩
  · rw [hcore.stripLeft_eq hp]
    exact ⟨p, append_assoc .., hp, hcore.leadingRun q⟩

/-- A text is what stripping leaves, and what it takes off the end. -/
theorem exists_trail (set : Option Text) (t : Text) : ∃ q, t = t.stripRight set ++ q ∧
    q.codepoints ⊆ members set ∧ (t.stripRight set).trailingRun set = 0 := by
  rcases subset_or_exists_core set t with ht | ⟨p, core, q, rfl, -, hcore, hq⟩
  · rw [stripRight_of_subset ht]
    exact ⟨t, (empty_append t).symm, ht, rfl⟩
  · rw [hcore.stripRight_eq p hq]
    exact ⟨q, rfl, hq, hcore.trailingRun p⟩

theorem isLead_of_append (hp : p.codepoints ⊆ members set) (hr : r.leadingRun set = 0) :
    IsLead (members set) p (p ++ r) where
  begins := ⟨r, rfl⟩
  subset := hp
  longest q r' heq hq := by
    have hrun := leadingRun_append hp r
    rw [heq, leadingRun_append hq, hr] at hrun
    omega

theorem isTrail_of_append (hr : r.trailingRun set = 0) (hq : q.codepoints ⊆ members set) :
    IsTrail (members set) q (r ++ q) where
  ends := ⟨r, rfl⟩
  subset := hq
  longest p r' heq hp := by
    have hrun := trailingRun_append r hq
    rw [heq, trailingRun_append _ hp, hr] at hrun
    omega

/-- Stripping both ends is stripping one after the other, in either order. -/
theorem strip_eq_stripLeft_stripRight (set : Option Text) (t : Text) :
    t.strip set = (t.stripRight set).stripLeft set ∧
      t.strip set = (t.stripLeft set).stripRight set := by
  rcases subset_or_exists_core set t with ht | ⟨p, core, q, rfl, hp, hcore, hq⟩
  · rw [strip_of_subset ht, stripLeft_of_subset ht, stripRight_of_subset ht]
    exact ⟨rfl, rfl⟩
  · rw [hcore.strip_eq hp hq, hcore.stripLeft_eq hp, hcore.stripRight_eq p hq]
    have hright := hcore.stripLeft_eq hp empty
    have hleft := hcore.stripRight_eq empty hq
    rw [append_empty, append_empty] at hright
    rw [empty_append] at hleft
    exact ⟨hright.symm, hleft.symm⟩

/-- What is left is a core, or nothing. -/
theorem strip_cases (set : Option Text) (t : Text) :
    (t.codepoints ⊆ members set ∧ t.strip set = empty) ∨
      (¬ t.codepoints ⊆ members set ∧ IsCore (members set) (t.strip set)) := by
  rcases subset_or_exists_core set t with ht | ⟨p, core, q, rfl, hp, hcore, hq⟩
  · exact .inl ⟨ht, strip_of_subset ht⟩
  · rw [hcore.strip_eq hp hq]
    refine .inr ⟨fun ht => ?_, hcore⟩
    obtain ⟨c, hhead, hc⟩ := hcore.head
    have hmem : c ∈ (p ++ core ++ q).chars := by
      rw [chars_append, chars_append]
      exact List.mem_append_left _ (List.mem_append_right _ (List.mem_of_mem_head? hhead))
    exact hc (ht hmem)

theorem IsCore.ne_empty {set : Set Char} (h : IsCore set core) : core ≠ empty := by
  rintro rfl
  obtain ⟨c, hhead, -⟩ := h.head
  cases hhead

theorem strip_eq_empty_iff : t.strip set = empty ↔ t.codepoints ⊆ members set := by
  rcases strip_cases set t with ⟨ht, hempty⟩ | ⟨ht, hcore⟩
  · exact iff_of_true hempty ht
  · exact iff_of_false hcore.ne_empty ht

theorem isCore_strip (h : t.strip set ≠ empty) : IsCore (members set) (t.strip set) := by
  rcases strip_cases set t with ⟨-, hempty⟩ | ⟨-, hcore⟩
  · exact absurd hempty h
  · exact hcore

theorem exists_runs (set : Option Text) (t : Text) : ∃ p q, t = p ++ t.strip set ++ q ∧
    p.codepoints ⊆ members set ∧ q.codepoints ⊆ members set := by
  rcases subset_or_exists_core set t with ht | ⟨p, core, q, rfl, hp, hcore, hq⟩
  · rw [strip_of_subset ht]
    exact ⟨t, empty, by rw [append_empty, append_empty], ht, empty_subset _⟩
  · rw [hcore.strip_eq hp hq]
    exact ⟨p, q, rfl, hp, hq⟩

theorem stripLeft_stripLeft (set : Option Text) (t : Text) :
    (t.stripLeft set).stripLeft set = t.stripLeft set := by
  obtain ⟨-, -, -, hrun⟩ := exists_lead set t
  have hself := stripLeft_append (empty_subset (members set)) hrun
  rwa [empty_append] at hself

theorem stripRight_stripRight (set : Option Text) (t : Text) :
    (t.stripRight set).stripRight set = t.stripRight set := by
  obtain ⟨-, -, -, hrun⟩ := exists_trail set t
  have hself := stripRight_append hrun (empty_subset (members set))
  rwa [append_empty] at hself

theorem strip_strip (set : Option Text) (t : Text) : (t.strip set).strip set = t.strip set := by
  rcases strip_cases set t with ⟨-, hempty⟩ | ⟨-, hcore⟩
  · rw [hempty, strip_of_subset (empty_subset _)]
  · have hself := hcore.strip_eq (empty_subset _) (empty_subset _)
    rwa [append_empty, empty_append] at hself

/-- Of the text that gives the set it matters only which codepoints occur in it. -/
theorem strip_congr {set' : Option Text} (h : members set' = members set) (t : Text) :
    t.stripLeft set' = t.stripLeft set ∧ t.stripRight set' = t.stripRight set ∧
      t.strip set' = t.strip set := by
  have hmember : isMember set' = isMember set := by
    funext c
    rw [Bool.eq_iff_iff, isMember_iff, isMember_iff, h]
  have hlead : t.leadingRun set' = t.leadingRun set := by rw [leadingRun, hmember, leadingRun]
  have htrail : t.trailingRun set' = t.trailingRun set := by
    rw [trailingRun, hmember, trailingRun]
  rw [stripLeft, stripRight, strip, hlead, htrail]
  exact ⟨rfl, rfl, rfl⟩

/-- Stripping the beginning takes off the longest beginning of members, and stripping the end the
longest ending. Stripping both is either one after the other; nothing is left exactly of a text of
members only, and else what is left neither begins nor ends with a member. What is taken off is
members only. A second time nothing is taken off, and of the text that gives the set it matters
only which codepoints occur in it. -/
theorem strip_takes_runs (t : Text) (set : Option Text) :
    (∃ p, IsLead (members set) p t ∧ t = p ++ t.stripLeft set) ∧
    (∃ q, IsTrail (members set) q t ∧ t = t.stripRight set ++ q) ∧
    t.strip set = (t.stripRight set).stripLeft set ∧
    t.strip set = (t.stripLeft set).stripRight set ∧
    (t.strip set = empty ↔ t.codepoints ⊆ members set) ∧
    (t.strip set ≠ empty → IsCore (members set) (t.strip set)) ∧
    (∃ p q, t = p ++ t.strip set ++ q ∧
      p.codepoints ⊆ members set ∧ q.codepoints ⊆ members set) ∧
    (t.stripLeft set).stripLeft set = t.stripLeft set ∧
    (t.stripRight set).stripRight set = t.stripRight set ∧
    (t.strip set).strip set = t.strip set ∧
    ∀ set', members set' = members set →
      t.stripLeft set' = t.stripLeft set ∧ t.stripRight set' = t.stripRight set ∧
        t.strip set' = t.strip set := by
  obtain ⟨p, hp, hsubset, hlead⟩ := exists_lead set t
  obtain ⟨q, hq, hsubset', htrail⟩ := exists_trail set t
  refine ⟨⟨p, ?_, hp⟩, ⟨q, ?_, hq⟩, (strip_eq_stripLeft_stripRight set t).1,
    (strip_eq_stripLeft_stripRight set t).2, strip_eq_empty_iff, isCore_strip,
    exists_runs set t, stripLeft_stripLeft set t, stripRight_stripRight set t, strip_strip set t,
    fun set' hset => strip_congr hset t⟩
  · have hlongest := isLead_of_append hsubset hlead
    rwa [← hp] at hlongest
  · have hlongest := isTrail_of_append htrail hsubset'
    rwa [← hq] at hlongest

/-- The runs stop at the same codepoints for two texts in which the same codepoints occur. -/
theorem strip_takes_runs_both :
    let t := ofString "2121x1y2112"
    let set := some (ofString "12")
    t.strip set ≠ empty ∧ IsCore (members set) (t.strip set) ∧
      members (some (ofString "2112")) = members set ∧
      t.strip (some (ofString "2112")) = t.strip set := by
  intro t set
  have hne : t.strip set ≠ empty := by decide
  have hset : members (some (ofString "2112")) = members set := by
    ext c
    simp [set, members, codepoints, ofString]
    tauto
  obtain ⟨-, -, -, -, -, hcore, -, -, -, -, hcongr⟩ := strip_takes_runs t set
  exact ⟨hne, hcore hne, hset, (hcongr _ hset).2.2⟩

end Text

end Conformance
