import Conformance.Proofs.Value.LazyFree

/-!
# Unique readability of values

The form of a value inside a container tells the value, whatever follows it: its first codepoint
tells the type, a literal ends at the first apostrophe that is not escaped, and a list or a tuple
ends where neither a comma and a space nor another element comes. Only sequences look alike.
-/

namespace Conformance

/-! ## What follows a value -/

/-- A codepoint that can follow a value inside a container. -/
def isDelimiter (c : Char) : Bool := c == ',' || c == ']' || c == ')'

/-- What can follow a value: nothing, or what begins with a delimiter. -/
def Delimited (rest : List Char) : Prop := ∀ c ∈ rest.head?, isDelimiter c = true

theorem delimited_nil : Delimited [] := nofun

/-- The end of a container, which comes after its last element. -/
inductive Closes : List Char → Prop
  | bracket (rest : List Char) : Closes (']' :: rest)
  | paren (rest : List Char) : Closes (')' :: rest)
  | commaParen (rest : List Char) : Closes (',' :: ')' :: rest)

theorem Closes.delimited {rest : List Char} (h : Closes rest) : Delimited rest := by
  cases h <;> rintro c ⟨⟩ <;> decide

/-- A word without delimiters is what comes before the first delimiter. -/
theorem takeWhile_append_of_delimited {word rest : List Char}
    (hword : ∀ c ∈ word, isDelimiter c = false) (hrest : Delimited rest) :
    (word ++ rest).takeWhile (!isDelimiter ·) = word := by
  rw [List.takeWhile_append_of_pos fun c hc => by rw [hword c hc, Bool.not_false]]
  cases rest with
  | nil => exact List.append_nil word
  | cons c rest => simp [hrest c rfl]

theorem append_inj_of_delimited {a b r s : List Char} (ha : ∀ c ∈ a, isDelimiter c = false)
    (hb : ∀ c ∈ b, isDelimiter c = false) (hr : Delimited r) (hs : Delimited s)
    (h : a ++ r = b ++ s) : a = b ∧ r = s := by
  obtain rfl : a = b := by
    calc a = (a ++ r).takeWhile (!isDelimiter ·) := (takeWhile_append_of_delimited ha hr).symm
      _ = (b ++ s).takeWhile (!isDelimiter ·) := by rw [h]
      _ = b := takeWhile_append_of_delimited hb hs
  exact ⟨rfl, List.append_cancel_left h⟩

/-! ## Literals -/

/-- The codepoint that stands for itself or is escaped by another one after a backslash. -/
def unescaped : Char → Char
  | 'n' => '\n'
  | 't' => '\t'
  | 'r' => '\r'
  | c => c

theorem literalChar_cases (c : Char) :
    (∃ e, literalChar c = ['\\', e] ∧ unescaped e = c) ∨
      literalChar c = [c] ∧ c ≠ '\\' ∧ c ≠ '\'' := by
  unfold literalChar
  split
  case h_6 hslash hquote _ _ _ => exact .inr ⟨rfl, hslash, hquote⟩
  all_goals exact .inl ⟨_, rfl, by decide⟩

theorem literalChar_append_inj {c d : Char} {r s : List Char}
    (h : literalChar c ++ r = literalChar d ++ s) : c = d ∧ r = s := by
  obtain ⟨e, hc, rfl⟩ | ⟨hc, hslash, -⟩ := literalChar_cases c <;>
    obtain ⟨e', hd, rfl⟩ | ⟨hd, hslash', -⟩ := literalChar_cases d <;>
    rw [hc, hd] at h
  · cases h
    exact ⟨rfl, rfl⟩
  · exact absurd (List.cons.inj h).1.symm hslash'
  · exact absurd (List.cons.inj h).1 hslash
  · exact List.cons.inj h

theorem literalChar_append_ne_quote (c : Char) (r s : List Char) :
    literalChar c ++ r ≠ '\'' :: s := by
  intro h
  obtain ⟨e, hc, -⟩ | ⟨hc, -, hquote⟩ := literalChar_cases c <;> rw [hc] at h
  · exact absurd (List.cons.inj h).1 (by decide)
  · exact hquote (List.cons.inj h).1

/-- The apostrophe that ends a literal is the first one that is not escaped. -/
theorem flatMap_literalChar_append_inj {t u r s : List Char}
    (h : t.flatMap literalChar ++ '\'' :: r = u.flatMap literalChar ++ '\'' :: s) :
    t = u ∧ r = s := by
  induction t generalizing u with
  | nil =>
      cases u with
      | nil => exact ⟨rfl, (List.cons.inj h).2⟩
      | cons d u =>
          rw [List.flatMap_cons, List.append_assoc] at h
          exact absurd h.symm (literalChar_append_ne_quote d _ r)
  | cons c t ih =>
      rw [List.flatMap_cons, List.append_assoc] at h
      cases u with
      | nil => exact absurd h (literalChar_append_ne_quote c _ s)
      | cons d u =>
          rw [List.flatMap_cons, List.append_assoc] at h
          obtain ⟨rfl, hrest⟩ := literalChar_append_inj h
          obtain ⟨rfl, hend⟩ := ih hrest
          exact ⟨rfl, hend⟩

namespace Value

/-! ## Integers -/

theorem toDigits_injective : Function.Injective (Nat.toDigits 10) := by
  apply Function.LeftInverse.injective (g := fun digits => Nat.ofDigitChars 10 digits 0)
  exact fun n => Nat.ofDigitChars_ten_toDigits

theorem mem_intChars {n : Int} {c : Char} (hc : c ∈ intChars n) : c = '-' ∨ c.isDigit = true := by
  have hdigits : ∀ {m : ℕ}, c ∈ Nat.toDigits 10 m → c.isDigit = true :=
    Nat.isDigit_of_mem_toDigits (by decide) (by decide)
  cases n with
  | ofNat m => exact .inr (hdigits hc)
  | negSucc m => exact (List.mem_cons.1 hc).imp_right hdigits

theorem intChars_injective : Function.Injective intChars := by
  have hsign : ∀ {m k : ℕ}, Nat.toDigits 10 m ≠ '-' :: Nat.toDigits 10 k := by
    intro m k h
    have hminus : '-' ∈ Nat.toDigits 10 m := h ▸ List.mem_cons_self
    exact absurd (Nat.isDigit_of_mem_toDigits (by decide) (by decide) hminus) (by decide)
  intro m n h
  cases m with
  | ofNat m =>
      cases n with
      | ofNat n => rw [toDigits_injective h]
      | negSucc n => exact absurd h hsign
  | negSucc m =>
      cases n with
      | ofNat n => exact absurd h.symm hsign
      | negSucc n =>
          have hdigits := toDigits_injective (List.cons.inj h).2
          rw [Nat.succ.inj hdigits]

/-- The type of the values whose forms begin with a codepoint. -/
def typeOfHead : Char → Option ValueType
  | 'N' => some .nothing
  | 'T' | 'F' => some .bool
  | '\'' => some .str
  | '[' => some .list
  | '(' => some .tuple
  | '<' => some .generator
  | c => if c == '-' || c.isDigit then some .int else none

theorem typeOfHead_of_digit {c : Char} (hc : c = '-' ∨ c.isDigit = true) :
    typeOfHead c = some .int := by
  unfold typeOfHead
  split
  case h_8 => exact if_pos (by simpa using hc)
  all_goals exact absurd hc (by decide)

theorem typeOfHead_of_delimiter {c : Char} (hc : isDelimiter c = true) : typeOfHead c = none := by
  simp only [isDelimiter, Bool.or_eq_true, beq_iff_eq] at hc
  obtain (rfl | rfl) | rfl := hc <;> rfl

/-! ## Forms that enclose others -/

theorem reprChars_str (t : Text) :
    reprChars (str t) = '\'' :: (t.chars.flatMap literalChar ++ ['\'']) := by
  rw [reprChars, Text.literal, List.cons_append]

theorem reprChars_list (items : List Value) :
    reprChars (list items) = '[' :: (itemsChars items ++ [']']) := by
  rw [reprChars, List.cons_append]

/-- The codepoints that end a tuple. -/
def tupleEnd (items : List Value) : List Char :=
  if items.length = 1 then [',', ')'] else [')']

theorem reprChars_tuple (items : List Value) :
    reprChars (tuple items) = '(' :: (itemsChars items ++ tupleEnd items) := by
  rw [reprChars, tupleEnd, List.cons_append, List.cons_append, List.append_assoc]
  split <;> rfl

theorem closes_tupleEnd_append (items : List Value) (rest : List Char) :
    Closes (tupleEnd items ++ rest) := by
  unfold tupleEnd
  split
  · exact .commaParen rest
  · exact .paren rest

/-- The codepoints of the elements after the first. -/
def moreChars : List Value → List Char
  | [] => []
  | v :: rest => ',' :: ' ' :: (reprChars v ++ moreChars rest)

/-- The equations of a form go on from the first two elements, but reading goes element by element,
so the commas are counted to the elements behind them. -/
theorem itemsChars_cons (v : Value) (items : List Value) :
    itemsChars (v :: items) = reprChars v ++ moreChars items := by
  induction items generalizing v with
  | nil => rw [itemsChars, moreChars, List.append_nil]
  | cons w rest ih => rw [itemsChars, ih, moreChars, List.append_assoc, List.cons_append,
      List.cons_append, List.nil_append]

theorem delimited_moreChars_append (items : List Value) {rest : List Char} (h : Closes rest) :
    Delimited (moreChars items ++ rest) := by
  cases items with
  | nil => exact h.delimited
  | cons v items =>
      rintro c ⟨⟩
      rfl

/-! ## The type of a form -/

/-- The first codepoint of the form of a value tells its type. -/
theorem exists_reprChars_eq_cons (v : Value) :
    ∃ c rest, reprChars v = c :: rest ∧ typeOfHead c = some v.type := by
  cases v with
  | int n =>
      obtain ⟨c, rest, hcons⟩ : ∃ c rest, intChars n = c :: rest := by
        cases n with
        | ofNat m => exact List.exists_cons_of_ne_nil Nat.toDigits_ne_nil
        | negSucc m => exact ⟨_, _, rfl⟩
      refine ⟨c, rest, by rw [reprChars, hcons], typeOfHead_of_digit (mem_intChars (n := n) ?_)⟩
      exact hcons ▸ List.mem_cons_self
  | bool b => cases b <;> exact ⟨_, _, rfl, rfl⟩
  | str t => exact ⟨_, _, reprChars_str t, rfl⟩
  | list items => exact ⟨_, _, reprChars_list items, rfl⟩
  | tuple items => exact ⟨_, _, reprChars_tuple items, rfl⟩
  | nothing | lazy => exact ⟨_, _, rfl, rfl⟩

theorem type_eq_of_append_eq {v w : Value} {r s : List Char}
    (h : reprChars v ++ r = reprChars w ++ s) : v.type = w.type := by
  obtain ⟨c, rest, hv, hc⟩ := v.exists_reprChars_eq_cons
  obtain ⟨d, rest', hw, hd⟩ := w.exists_reprChars_eq_cons
  rw [hv, hw] at h
  rw [(List.cons.inj h).1] at hc
  exact Option.some.inj (hc.symm.trans hd)

/-- No container ends where an element begins. -/
theorem reprChars_append_ne_of_closes (v : Value) (r : List Char) {s : List Char}
    (hs : Closes s) : reprChars v ++ r ≠ s := by
  rintro rfl
  obtain ⟨c, rest, hv, hc⟩ := v.exists_reprChars_eq_cons
  have hdelimiter : isDelimiter c = true := hs.delimited c (by rw [hv]; rfl)
  cases hc.symm.trans (typeOfHead_of_delimiter hdelimiter)

/-! ## Unique readability -/

/-- The form of a value tells it apart from all values without sequences, whatever follows it. -/
def Readable (v : Value) : Prop :=
  ∀ (w : Value) (r s : List Char), w.isLazyFree = true → Delimited r → Delimited s →
    reprChars v ++ r = reprChars w ++ s → v = w ∧ r = s

/-- A value of one word is readable if its word tells it apart from those of its type. -/
theorem readable_of_word {v : Value} (hv : ∀ c ∈ reprChars v, isDelimiter c = false)
    (hword : ∀ w : Value, v.type = w.type →
      (∀ c ∈ reprChars w, isDelimiter c = false) ∧ (reprChars v = reprChars w → v = w)) :
    v.Readable := by
  intro w r s _ hr hs h
  obtain ⟨hw, hinj⟩ := hword w (type_eq_of_append_eq h)
  obtain ⟨hsame, hrest⟩ := append_inj_of_delimited hv hw hr hs h
  exact ⟨hinj hsame, hrest⟩

theorem readable_nothing : nothing.Readable := by
  have hword : ∀ c ∈ reprChars nothing, isDelimiter c = false := by
    simp [reprChars, isDelimiter]
  apply readable_of_word hword
  intro w htype
  cases w with
  | nothing => exact ⟨hword, fun _ => rfl⟩
  | _ => cases htype

theorem reprChars_bool_injective : Function.Injective fun b : Bool => reprChars (bool b) := by
  rintro (_ | _) (_ | _) h
  · rfl
  · cases h
  · cases h
  · rfl

theorem readable_bool (b : Bool) : (bool b).Readable := by
  have hword : ∀ b : Bool, ∀ c ∈ reprChars (bool b), isDelimiter c = false := by
    rintro (_ | _) <;> simp [reprChars, isDelimiter]
  apply readable_of_word (hword b)
  intro w htype
  cases w with
  | bool b' => exact ⟨hword b', fun h => by rw [reprChars_bool_injective h]⟩
  | _ => cases htype

theorem readable_int (n : Int) : (int n).Readable := by
  have hword : ∀ n : Int, ∀ c ∈ reprChars (int n), isDelimiter c = false := by
    intro n c hc
    rw [Bool.eq_false_iff]
    intro hdelimiter
    have htype := typeOfHead_of_digit (mem_intChars hc)
    cases htype.symm.trans (typeOfHead_of_delimiter hdelimiter)
  apply readable_of_word (hword n)
  intro w htype
  cases w with
  | int n' => exact ⟨hword n', fun h => by rw [intChars_injective h]⟩
  | _ => cases htype

theorem readable_str (t : Text) : (str t).Readable := by
  intro w r s _ _ _ h
  have htype := type_eq_of_append_eq h
  cases w with
  | str u =>
      rw [reprChars_str, reprChars_str, List.cons_append, List.cons_append, List.append_assoc,
        List.append_assoc] at h
      obtain ⟨hchars, hrest⟩ := flatMap_literalChar_append_inj (List.cons.inj h).2
      exact ⟨congrArg str (Text.ext hchars), hrest⟩
  | _ => cases htype

theorem moreChars_append_inj {items : List Value} (hitems : ∀ v ∈ items, v.Readable)
    {items' : List Value} (hfree : ∀ v ∈ items', v.isLazyFree = true) {r s : List Char}
    (hr : Closes r) (hs : Closes s) (h : moreChars items ++ r = moreChars items' ++ s) :
    items = items' ∧ r = s := by
  induction items generalizing items' with
  | nil =>
      cases items' with
      | nil => exact ⟨rfl, h⟩
      | cons w rest =>
          -- the comma of an element has a space after it, the one that ends a tuple has not
          obtain rfl : r = _ := h
          cases hr
  | cons v items ih =>
      obtain ⟨hv, hlater⟩ := List.forall_mem_cons.1 hitems
      cases items' with
      | nil =>
          obtain rfl : _ = s := h
          cases hs
      | cons w items' =>
          obtain ⟨hw, hfree'⟩ := List.forall_mem_cons.1 hfree
          simp only [moreChars, List.cons_append, List.append_assoc, List.cons.injEq,
            true_and] at h
          obtain ⟨rfl, hmore⟩ := hv w _ _ hw (delimited_moreChars_append items hr)
            (delimited_moreChars_append items' hs) h
          obtain ⟨rfl, hend⟩ := ih hlater hfree' hmore
          exact ⟨rfl, hend⟩

/-- The elements of a container are told apart, and with them where the container ends. -/
theorem itemsChars_append_inj {items : List Value} (hitems : ∀ v ∈ items, v.Readable)
    {items' : List Value} (hfree : ∀ v ∈ items', v.isLazyFree = true) {r s : List Char}
    (hr : Closes r) (hs : Closes s) (h : itemsChars items ++ r = itemsChars items' ++ s) :
    items = items' ∧ r = s := by
  cases items with
  | nil =>
      cases items' with
      | nil => exact ⟨rfl, h⟩
      | cons w items' =>
          rw [itemsChars_cons, List.append_assoc] at h
          exact absurd h.symm (reprChars_append_ne_of_closes w _ hr)
  | cons v items =>
      rw [itemsChars_cons, List.append_assoc] at h
      cases items' with
      | nil => exact absurd h (reprChars_append_ne_of_closes v _ hs)
      | cons w items' =>
          obtain ⟨hv, hlater⟩ := List.forall_mem_cons.1 hitems
          obtain ⟨hw, hfree'⟩ := List.forall_mem_cons.1 hfree
          rw [itemsChars_cons, List.append_assoc] at h
          obtain ⟨rfl, hmore⟩ := hv w _ _ hw (delimited_moreChars_append items hr)
            (delimited_moreChars_append items' hs) h
          obtain ⟨rfl, hend⟩ := moreChars_append_inj hlater hfree' hr hs hmore
          exact ⟨rfl, hend⟩

theorem readable_list {items : List Value} (hitems : ∀ v ∈ items, v.Readable) :
    (list items).Readable := by
  intro w r s hw _ _ h
  have htype := type_eq_of_append_eq h
  cases w with
  | list items' =>
      rw [reprChars_list, reprChars_list, List.cons_append, List.cons_append, List.append_assoc,
        List.append_assoc] at h
      obtain ⟨rfl, hend⟩ := itemsChars_append_inj hitems ((isLazyFree_list items').1 hw)
        (.bracket r) (.bracket s) (List.cons.inj h).2
      exact ⟨rfl, (List.cons.inj hend).2⟩
  | _ => cases htype

theorem readable_tuple {items : List Value} (hitems : ∀ v ∈ items, v.Readable) :
    (tuple items).Readable := by
  intro w r s hw _ _ h
  have htype := type_eq_of_append_eq h
  cases w with
  | tuple items' =>
      rw [reprChars_tuple, reprChars_tuple, List.cons_append, List.cons_append,
        List.append_assoc, List.append_assoc] at h
      obtain ⟨rfl, hend⟩ := itemsChars_append_inj hitems ((isLazyFree_tuple items').1 hw)
        (closes_tupleEnd_append items r) (closes_tupleEnd_append items' s) (List.cons.inj h).2
      exact ⟨rfl, List.append_cancel_left hend⟩
  | _ => cases htype

/-- Every value without sequences is readable. -/
theorem readable_of_isLazyFree : (v : Value) → v.isLazyFree = true → v.Readable
  | nothing, _ => readable_nothing
  | bool b, _ => readable_bool b
  | int n, _ => readable_int n
  | str t, _ => readable_str t
  | list items, h => readable_list fun v hv =>
      readable_of_isLazyFree v ((isLazyFree_list items).1 h v hv)
  | tuple items, h => readable_tuple fun v hv =>
      readable_of_isLazyFree v ((isLazyFree_tuple items).1 h v hv)

/-- Values without sequences that are written alike inside a container are the same. -/
theorem eq_of_repr_eq {v w : Value} (hv : v.isLazyFree = true) (hw : w.isLazyFree = true)
    (h : v.repr = w.repr) : v = w := by
  have hchars : reprChars v ++ [] = reprChars w ++ [] := by
    rw [show reprChars v = reprChars w from congrArg Text.chars h]
  exact (readable_of_isLazyFree v hv w [] [] hw delimited_nil delimited_nil hchars).1

end Value

end Conformance
