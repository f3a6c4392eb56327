import BarReplay.Proofs.Rule.Operands

/-!
# Reading rules is reading the grammar

Every rule that is read has a derivation in the grammar, by the recursion of the reader
(`Derives.of_disjunction`). Every derivation is found by the reader, by induction on the
derivation (`Derives.found`): what the reader takes for a phrase it goes on to chain with what
follows, so the induction carries what the rest of the chain yields. A phrase is not found where a
point follows, because its last number would be read on; but no phrase of a rule stands before a
point.
-/

namespace BarReplay

namespace Rule

/-! ### What the reader does -/

/-- A phrase, and what the reader makes of the rest once it has that phrase: both have to
succeed. -/
theorem yields_chain_iff {p q : List Char → Prop} {s : List Char → List Char → Prop}
    {x : Except Stop (Expr Float × { r : List Char // p r })}
    {f : Expr Float → (r : List Char) → Except Stop (Expr Float × { r' : List Char // s r r' })}
    {y : Except Stop (Expr Float × { r : List Char // q r })} {e : Expr Float} {rest : List Char}
    (hx : ∀ stop, x = .error stop → y = .error stop)
    (hf : ∀ left r hr stop, x = .ok (left, ⟨r, hr⟩) → f left r = .error stop → y = .error stop)
    (hy : ∀ left r hr e r' hr', x = .ok (left, ⟨r, hr⟩) → f left r = .ok (e, ⟨r', hr'⟩) →
      Yields y e r') :
    Yields y e rest ↔ ∃ left r, Yields x left r ∧ Yields (f left r) e rest := by
  constructor
  · intro h
    rcases hfirst : x with stop | ⟨left, r, hr⟩
    · rw [hx stop hfirst] at h
      exact absurd h not_yields_error
    rcases hmore : f left r with stop | ⟨e', r', hr'⟩
    · rw [hf left r hr stop hfirst hmore] at h
      exact absurd h not_yields_error
    obtain ⟨hq, heq⟩ := hy left r hr e' r' hr' hfirst hmore
    rw [heq] at h
    obtain ⟨rfl, rfl⟩ := yields_ok_iff.1 h
    exact ⟨left, r, ⟨hr, rfl⟩, ⟨hr', hmore⟩⟩
  · rintro ⟨left, r, ⟨hr, hfirst⟩, ⟨hrest, hmore⟩⟩
    exact hy left r hr e rest hrest hfirst hmore

theorem yields_disjunction_iff {cs rest : List Char} {e : Expr Float} :
    Yields (disjunction cs) e rest ↔
      ∃ left r, Yields (conjunction cs) left r ∧ Yields (disjuncts left r) e rest := by
  rw [disjunction]
  apply yields_chain_iff
  · intro stop hx
    simp only [hx]
  · intro left r hr stop hx hf
    simp only [hx, hf]
  · intro left r hr e r' hr' hx hf
    simp only [hx, hf, yields_ok_iff, and_self]

theorem yields_disjuncts_iff {left : Expr Float} {cs rest : List Char} {e : Expr Float} :
    Yields (disjuncts left cs) e rest ↔
      (keyword? ['o', 'r'] cs = none ∧ e = left ∧ rest = cs) ∨
      ∃ cs' right cs'', keyword? ['o', 'r'] cs = some cs' ∧ Yields (conjunction cs') right cs'' ∧
        Yields (disjuncts (.or left right) cs'') e rest := by
  rw [disjuncts]
  split
  next hkey => simp [hkey]
  next cs' hkey =>
    simp only [hkey, reduceCtorEq, false_and, false_or, Option.some.injEq, exists_and_left,
      exists_eq_left']
    apply yields_chain_iff
    · intro stop hx
      simp only [hx]
    · intro right r hr stop hx hf
      simp only [hx, hf]
    · intro right r hr e r' hr' hx hf
      simp only [hx, hf, yields_ok_iff, and_self]

theorem yields_conjunction_iff {cs rest : List Char} {e : Expr Float} :
    Yields (conjunction cs) e rest ↔
      ∃ left r, Yields (factor cs) left r ∧ Yields (conjuncts left r) e rest := by
  rw [conjunction]
  apply yields_chain_iff
  · intro stop hx
    simp only [hx]
  · intro left r hr stop hx hf
    simp only [hx, hf]
  · intro left r hr e r' hr' hx hf
    simp only [hx, hf, yields_ok_iff, and_self]

theorem yields_conjuncts_iff {left : Expr Float} {cs rest : List Char} {e : Expr Float} :
    Yields (conjuncts left cs) e rest ↔
      (keyword? ['a', 'n', 'd'] cs = none ∧ e = left ∧ rest = cs) ∨
      ∃ cs' right cs'', keyword? ['a', 'n', 'd'] cs = some cs' ∧ Yields (factor cs') right cs'' ∧
        Yields (conjuncts (.and left right) cs'') e rest := by
  rw [conjuncts]
  split
  next hkey => simp [hkey]
  next cs' hkey =>
    simp only [hkey, reduceCtorEq, false_and, false_or, Option.some.injEq, exists_and_left,
      exists_eq_left']
    apply yields_chain_iff
    · intro stop hx
      simp only [hx]
    · intro right r hr stop hx hf
      simp only [hx, hf]
    · intro right r hr e r' hr' hx hf
      simp only [hx, hf, yields_ok_iff, and_self]

/-- A factor that starts with `not`. -/
theorem yields_factor_not_iff {cs r rest : List Char} {e : Expr Float}
    (hnot : keyword? ['n', 'o', 't'] cs = some r) :
    Yields (factor cs) e rest ↔ ∃ inner, Yields (factor r) inner rest ∧ e = .not inner := by
  rw [factor]
  split
  next r' hnot' =>
    obtain rfl : r = r' := Option.some.inj (hnot.symm.trans hnot')
    constructor
    · rintro ⟨hlength, h⟩
      split at h
      · cases h
      next inner r' hr hinner =>
        cases h
        exact ⟨inner, ⟨hr, hinner⟩, rfl⟩
    · rintro ⟨inner, ⟨hr, hinner⟩, rfl⟩
      simp only [hinner, yields_ok_iff, and_self]
  next hnone => rw [hnot] at hnone; cases hnone

/-- A factor that starts with a bracket. -/
theorem yields_factor_brackets_iff {cs r rest : List Char} {e : Expr Float}
    (hnot : keyword? ['n', 'o', 't'] cs = none) (hopen : Text.skipBlank cs = '(' :: r) :
    Yields (factor cs) e rest ↔
      ∃ r', Yields (disjunction r) e r' ∧ Text.skipBlank r' = ')' :: rest := by
  rw [factor]
  split
  next hsome => rw [hnot] at hsome; cases hsome
  split
  next s hopen' =>
    obtain rfl : r = s := (List.cons.inj (hopen.symm.trans hopen')).2
    constructor
    · rintro ⟨hlength, h⟩
      split at h
      · cases h
      next inner r' hr hinner =>
        split at h
        next r'' hclose =>
          cases h
          exact ⟨r', ⟨hr, hinner⟩, hclose⟩
        · cases h
    · rintro ⟨r', ⟨hr, hinner⟩, hclose⟩
      simp only [hinner]
      split
      next r'' hclose' =>
        rw [hclose] at hclose'
        cases hclose'
        exact yields_ok_iff.2 ⟨rfl, rfl⟩
      next hnone => exact absurd hclose (hnone rest)
  next hnone => exact absurd hopen (hnone r)

/-- A factor that starts with neither is a literal or a comparison. -/
theorem yields_factor_plain_iff {cs rest : List Char} {e : Expr Float}
    (hnot : keyword? ['n', 'o', 't'] cs = none) (hopen : (Text.skipBlank cs).head? ≠ some '(') :
    Yields (factor cs) e rest ↔
      (keyword? ['t', 'r', 'u', 'e'] cs = some rest ∧ e = .literal true) ∨
      keyword? ['t', 'r', 'u', 'e'] cs = none ∧
        ((keyword? ['f', 'a', 'l', 's', 'e'] cs = some rest ∧ e = .literal false) ∨
        keyword? ['f', 'a', 'l', 's', 'e'] cs = none ∧ Yields (comparison cs) e rest) := by
  rw [factor]
  split
  next hsome => rw [hnot] at hsome; cases hsome
  split
  next r hopen' => rw [hopen'] at hopen; exact absurd rfl hopen
  split
  next r htrue => simp [htrue, and_comm, eq_comm]
  next htrue =>
    split
    next r hfalse => simp [htrue, hfalse, and_comm, eq_comm]
    next hfalse => simp [htrue, hfalse]

/-! ### What is read is a rule

The recursion is that of the reader. A chain is given what has been derived of it so far, from the
place where it started.
-/

mutual

theorem Derives.of_disjunction {cs rest : List Char} {e : Expr Float}
    (h : Yields (disjunction cs) e rest) : Derives .disjunction cs e rest := by
  obtain ⟨left, cs', hleft, hmore⟩ := yields_disjunction_iff.1 h
  have hlength : cs'.length < cs.length := hleft.holds
  exact Derives.of_disjuncts (.single (Derives.of_conjunction hleft)) hmore
termination_by (cs.length, 3)

theorem Derives.of_disjuncts {ds cs rest : List Char} {left e : Expr Float}
    (hleft : Derives .disjunction ds left cs) (h : Yields (disjuncts left cs) e rest) :
    Derives .disjunction ds e rest := by
  obtain ⟨-, rfl, rfl⟩ | ⟨cs', right, cs'', hkey, hright, hmore⟩ := yields_disjuncts_iff.1 h
  · exact hleft
  · have hlength := keyword?_length_lt (by decide) hkey
    have hlength' : cs''.length < cs'.length := hright.holds
    have hword : Keyword "or" cs cs' := (keyword?_eq_some_iff (by decide)).1 hkey
    exact Derives.of_disjuncts (.or hleft hword (Derives.of_conjunction hright)) hmore
termination_by (cs.length, 0)

theorem Derives.of_conjunction {cs rest : List Char} {e : Expr Float}
    (h : Yields (conjunction cs) e rest) : Derives .conjunction cs e rest := by
  obtain ⟨left, cs', hleft, hmore⟩ := yields_conjunction_iff.1 h
  have hlength : cs'.length < cs.length := hleft.holds
  exact Derives.of_conjuncts (.lone (Derives.of_factor hleft)) hmore
termination_by (cs.length, 2)

theorem Derives.of_conjuncts {ds cs rest : List Char} {left e : Expr Float}
    (hleft : Derives .conjunction ds left cs) (h : Yields (conjuncts left cs) e rest) :
    Derives .conjunction ds e rest := by
  obtain ⟨-, rfl, rfl⟩ | ⟨cs', right, cs'', hkey, hright, hmore⟩ := yields_conjuncts_iff.1 h
  · exact hleft
  · have hlength := keyword?_length_lt (by decide) hkey
    have hlength' : cs''.length < cs'.length := hright.holds
    have hword : Keyword "and" cs cs' := (keyword?_eq_some_iff (by decide)).1 hkey
    exact Derives.of_conjuncts (.and hleft hword (Derives.of_factor hright)) hmore
termination_by (cs.length, 0)

theorem Derives.of_factor {cs rest : List Char} {e : Expr Float} (h : Yields (factor cs) e rest) :
    Derives .factor cs e rest := by
  cases hnot : keyword? ['n', 'o', 't'] cs with
  | some cs' =>
    have hlength := keyword?_length_lt (by decide) hnot
    obtain ⟨inner, hinner, rfl⟩ := (yields_factor_not_iff hnot).1 h
    exact .not ((keyword?_eq_some_iff (by decide)).1 hnot) (Derives.of_factor hinner)
  | none =>
    by_cases hopen : (Text.skipBlank cs).head? = some '('
    · obtain ⟨cs', hopen⟩ := List.head?_eq_some_iff.1 hopen
      obtain ⟨cs'', hinner, hclose⟩ := (yields_factor_brackets_iff hnot hopen).1 h
      have hlength : cs'.length < cs.length := by
        have hle := Text.skipBlank_length_le cs
        rw [hopen] at hle
        exact hle
      exact .brackets ((spaced_symbol_iff startsPrintable_opening).2 hopen)
        (Derives.of_disjunction hinner) ((spaced_symbol_iff startsPrintable_closing).2 hclose)
    · obtain ⟨hkey, rfl⟩ | ⟨-, ⟨hkey, rfl⟩ | ⟨-, h⟩⟩ := (yields_factor_plain_iff hnot hopen).1 h
      · exact .true ((keyword?_eq_some_iff (by decide)).1 hkey)
      · exact .false ((keyword?_eq_some_iff (by decide)).1 hkey)
      · exact .of_comparison h
termination_by (cs.length, 1)

end

/-! ### A rule is read -/

/-- The reader finds the phrase at the head of the text. A chain goes on after it with whatever the
reader makes of the rest. -/
def Found : Phrase → List Char → Expr Float → List Char → Prop
  | .factor, cs, e, rest => rest.head? ≠ some '.' → Yields (factor cs) e rest
  | .conjunction, cs, e, rest => rest.head? ≠ some '.' → ∀ e' rest',
    Yields (conjuncts e rest) e' rest' → Yields (conjunction cs) e' rest'
  | .disjunction, cs, e, rest => rest.head? ≠ some '.' → keyword? ['a', 'n', 'd'] rest = none →
    ∀ e' rest', Yields (disjuncts e rest) e' rest' → Yields (disjunction cs) e' rest'

/-- A conjunction after which there is no `and` is all of its chain. -/
theorem Found.conjunction_end {cs rest : List Char} {e : Expr Float}
    (h : Found .conjunction cs e rest) (hpoint : rest.head? ≠ some '.')
    (hand : keyword? ['a', 'n', 'd'] rest = none) : Yields (conjunction cs) e rest :=
  h hpoint e rest (yields_conjuncts_iff.2 (.inl ⟨hand, rfl, rfl⟩))

/-- A disjunction after which nothing goes on is all of its chain. -/
theorem Found.disjunction_end {cs rest : List Char} {e : Expr Float}
    (h : Found .disjunction cs e rest) (hrest : Closes rest) : Yields (disjunction cs) e rest :=
  h hrest.head? (hrest.keyword? (by decide)) e rest
    (yields_disjuncts_iff.2 (.inl ⟨hrest.keyword? (by decide), rfl, rfl⟩))

/-- There is no keyword where another one stands. -/
theorem keyword?_eq_none_of_keyword {word : List Char} {other : String} {cs rest : List Char}
    (h : Keyword other cs rest) (hword : IsSmall word) (hother : IsSmall other.toList)
    (hne : word ≠ other.toList) : keyword? word cs = none :=
  keyword?_eq_none_of_word hword hother.starts hne h

/-- A text with a keyword at its head starts with a letter after its blanks. -/
theorem head?_ne_of_keyword {word : String} {cs rest : List Char} {c : Char}
    (h : Keyword word cs rest) (hword : IsSmall word.toList) (hc : c.isAlpha = false) :
    (Text.skipBlank cs).head? ≠ some c := by
  obtain ⟨d, text, hskip, hd⟩ := starts_of_word hword.starts h
  rw [hskip]
  rintro ⟨⟩
  rw [hc] at hd
  cases hd

theorem found_or {cs cs' cs'' rest : List Char} {left right : Expr Float}
    (hfirst : Found .disjunction cs left cs') (word : Keyword "or" cs' cs'')
    (hsecond : Found .conjunction cs'' right rest) :
    Found .disjunction cs (.or left right) rest := by
  intro hpoint hand e' rest' hmore
  have hkey : keyword? ['o', 'r'] cs' = some cs'' := (keyword?_eq_some_iff (by decide)).2 word
  -- the chain after `left` takes one step and goes on with the pair, as the goal's chain does
  have hright := hsecond.conjunction_end hpoint hand
  have hnext : Yields (disjuncts left cs') e' rest' :=
    yields_disjuncts_iff.2 (.inr ⟨cs'', right, rest, hkey, hright, hmore⟩)
  have hpoint' := head?_ne_of_skipBlank (by decide)
    (head?_ne_of_keyword (c := '.') word (by decide) (by decide))
  have hand' : keyword? ['a', 'n', 'd'] cs' = none :=
    keyword?_eq_none_of_keyword word (by decide) (by decide) (by decide)
  exact hfirst hpoint' hand' e' rest' hnext

theorem found_single {cs rest : List Char} {e : Expr Float} (honly : Found .conjunction cs e rest) :
    Found .disjunction cs e rest := by
  intro hpoint hand e' rest' hmore
  exact yields_disjunction_iff.2 ⟨e, rest, honly.conjunction_end hpoint hand, hmore⟩

theorem found_and {cs cs' cs'' rest : List Char} {left right : Expr Float}
    (hfirst : Found .conjunction cs left cs') (word : Keyword "and" cs' cs'')
    (hsecond : Found .factor cs'' right rest) :
    Found .conjunction cs (.and left right) rest := by
  intro hpoint e' rest' hmore
  have hkey : keyword? ['a', 'n', 'd'] cs' = some cs'' :=
    (keyword?_eq_some_iff (by decide)).2 word
  have hnext : Yields (conjuncts left cs') e' rest' :=
    yields_conjuncts_iff.2 (.inr ⟨cs'', right, rest, hkey, hsecond hpoint, hmore⟩)
  have hpoint' := head?_ne_of_skipBlank (by decide)
    (head?_ne_of_keyword (c := '.') word (by decide) (by decide))
  exact hfirst hpoint' e' rest' hnext

theorem found_lone {cs rest : List Char} {e : Expr Float} (honly : Found .factor cs e rest) :
    Found .conjunction cs e rest := by
  intro hpoint e' rest' hmore
  exact yields_conjunction_iff.2 ⟨e, rest, honly hpoint, hmore⟩

theorem found_brackets {cs cs' cs'' rest : List Char} {e : Expr Float}
    (opening : Spaced (Symbol ['(']) cs cs') (hinner : Found .disjunction cs' e cs'')
    (closing : Spaced (Symbol [')']) cs'' rest) : Found .factor cs e rest := by
  intro _
  have hopen := (spaced_symbol_iff startsPrintable_opening).1 opening
  have hclose := (spaced_symbol_iff startsPrintable_closing).1 closing
  have hnot : keyword? ['n', 'o', 't'] cs = none := by
    apply keyword?_eq_none_of_head (by decide)
    rw [hopen]
    rintro c ⟨⟩
    rfl
  -- the chain in the brackets ends at the bracket, which is no keyword and no point
  have hcloses : Closes cs'' := by
    rw [Closes, hclose]
    rintro c ⟨⟩
    decide
  have hyields := hinner.disjunction_end hcloses
  exact (yields_factor_brackets_iff hnot hopen).2 ⟨cs'', hyields, hclose⟩

theorem found_compare {cs cs' cs'' rest : List Char} {left right : Operand Float}
    {sign : Comparison} (first : Side left cs cs')
    (between : Spaced (Symbol sign.sign.toList) cs' cs'') (second : Side right cs'' rest)
    (reads : ¬ (IsConstant left ∧ IsConstant right)) :
    Found .factor cs (.compare left sign right) rest := by
  intro hpoint
  have hyields := yields_comparison first between second reads hpoint
  have hopen := first.head?_ne (c := '(') (by decide) (by decide)
  have hnot : keyword? ['n', 'o', 't'] cs = none := first.keyword? (by decide) (by decide)
  have htrue : keyword? ['t', 'r', 'u', 'e'] cs = none := first.keyword? (by decide) (by decide)
  have hfalse : keyword? ['f', 'a', 'l', 's', 'e'] cs = none :=
    first.keyword? (by decide) (by decide)
  exact (yields_factor_plain_iff hnot hopen).2 (.inr ⟨htrue, .inr ⟨hfalse, hyields⟩⟩)

theorem found_not {cs cs' rest : List Char} {e : Expr Float} (word : Keyword "not" cs cs')
    (hinner : Found .factor cs' e rest) : Found .factor cs (.not e) rest := by
  intro hpoint
  have hkey : keyword? ['n', 'o', 't'] cs = some cs' := (keyword?_eq_some_iff (by decide)).2 word
  exact (yields_factor_not_iff hkey).2 ⟨e, hinner hpoint, rfl⟩

theorem found_true {cs rest : List Char} (word : Keyword "true" cs rest) :
    Found .factor cs (.literal true) rest := by
  intro _
  have hkey : keyword? ['t', 'r', 'u', 'e'] cs = some rest :=
    (keyword?_eq_some_iff (by decide)).2 word
  have hopen := head?_ne_of_keyword (c := '(') word (by decide) (by decide)
  have hnot : keyword? ['n', 'o', 't'] cs = none :=
    keyword?_eq_none_of_keyword word (by decide) (by decide) (by decide)
  exact (yields_factor_plain_iff hnot hopen).2 (.inl ⟨hkey, rfl⟩)

theorem found_false {cs rest : List Char} (word : Keyword "false" cs rest) :
    Found .factor cs (.literal false) rest := by
  intro _
  have hkey : keyword? ['f', 'a', 'l', 's', 'e'] cs = some rest :=
    (keyword?_eq_some_iff (by decide)).2 word
  have hopen := head?_ne_of_keyword (c := '(') word (by decide) (by decide)
  have hnot : keyword? ['n', 'o', 't'] cs = none :=
    keyword?_eq_none_of_keyword word (by decide) (by decide) (by decide)
  have htrue : keyword? ['t', 'r', 'u', 'e'] cs = none :=
    keyword?_eq_none_of_keyword word (by decide) (by decide) (by decide)
  exact (yields_factor_plain_iff hnot hopen).2 (.inr ⟨htrue, .inl ⟨hkey, rfl⟩⟩)

/-- Whatever the grammar derives the reader finds. -/
theorem Derives.found {phrase : Phrase} {cs rest : List Char} {e : Expr Float}
    (h : Derives phrase cs e rest) : Found phrase cs e rest := by
  induction h with
  | or _ word _ hfirst hsecond => exact found_or hfirst word hsecond
  | single _ honly => exact found_single honly
  | and _ word _ hfirst hsecond => exact found_and hfirst word hsecond
  | lone _ honly => exact found_lone honly
  | not word _ hinner => exact found_not word hinner
  | brackets opening _ closing hinner => exact found_brackets opening hinner closing
  | true word => exact found_true word
  | false word => exact found_false word
  | compare first between second reads => exact found_compare first between second reads

/-! ### Whole texts -/

/-- Blanks before a token do not matter. -/
theorem Spaced.congr {Token : List Char → List Char → Prop} {cs cs' rest : List Char}
    (h : Spaced Token cs rest) (hsolid : Solid Token)
    (hcs : Text.skipBlank cs' = Text.skipBlank cs) : Spaced Token cs' rest := by
  rw [spaced_iff hsolid] at h ⊢
  rwa [hcs]

theorem Side.congr {cs cs' rest : List Char} {o : Operand Float} (h : Side o cs rest)
    (hcs : Text.skipBlank cs' = Text.skipBlank cs) : Side o cs' rest := by
  cases h with
  | field word => exact .field (word.congr (solid_word (startsLower_name _)) hcs)
  | constant number => exact .constant (number.congr solid_number hcs)

/-- Blanks before a phrase do not matter. -/
theorem Derives.congr {phrase : Phrase} {cs cs' rest : List Char} {e : Expr Float}
    (h : Derives phrase cs e rest) (hcs : Text.skipBlank cs' = Text.skipBlank cs) :
    Derives phrase cs' e rest := by
  have hword {word : String} {cs cs' rest : List Char} (h : Keyword word cs rest)
      (hsmall : IsSmall word.toList) (hcs : Text.skipBlank cs' = Text.skipBlank cs) :
      Keyword word cs' rest := Spaced.congr h (solid_word hsmall.starts) hcs
  induction h with
  | or _ word second hfirst _ => exact .or (hfirst hcs) word second
  | single _ honly => exact .single (honly hcs)
  | and _ word second hfirst _ => exact .and (hfirst hcs) word second
  | lone _ honly => exact .lone (honly hcs)
  | not word inner _ => exact .not (hword word (by decide) hcs) inner
  | brackets opening inner closing _ =>
    exact .brackets (opening.congr (solid_symbol startsPrintable_opening) hcs) inner closing
  | true word => exact .true (hword word (by decide) hcs)
  | false word => exact .false (hword word (by decide) hcs)
  | compare first between second reads => exact .compare (first.congr hcs) between second reads

/-- No phrase is nothing but blanks. -/
theorem Derives.skipBlank_ne_nil {phrase : Phrase} {cs rest : List Char} {e : Expr Float}
    (h : Derives phrase cs e rest) : Text.skipBlank cs ≠ [] := by
  have hword {word : String} {cs rest : List Char} (h : Keyword word cs rest)
      (hsmall : IsSmall word.toList) : Text.skipBlank cs ≠ [] := by
    obtain ⟨c, text, hskip, -⟩ := starts_of_word hsmall.starts h
    simp [hskip]
  induction h with
  | or _ _ _ hfirst _ => exact hfirst
  | single _ honly => exact honly
  | and _ _ _ hfirst _ => exact hfirst
  | lone _ honly => exact honly
  | not word _ _ => exact hword word (by decide)
  | brackets opening _ _ _ => simp [(spaced_symbol_iff startsPrintable_opening).1 opening]
  | true word => exact hword word (by decide)
  | false word => exact hword word (by decide)
  | compare first _ _ _ =>
    obtain ⟨c, text, hskip, -⟩ := first.starts
    simp [hskip]

theorem closes_of_allBlank {cs : List Char} (h : AllBlank cs) : Closes cs := by
  rw [Closes, skipBlank_eq_nil_iff.2 h]
  rintro c ⟨⟩

/-- A text is read as a tree exactly if the grammar derives the tree from it. -/
theorem parseChars_eq_ok_iff {cs : List Char} {e : Expr Float} :
    parseChars cs = .ok e ↔ IsRule cs e := by
  unfold parseChars
  constructor
  · intro h
    split at h
    · cases h
    next hne =>
      split at h
      · cases h
      next e' rest hrest hread =>
        split at h
        next hblank =>
          cases h
          have hderives := Derives.of_disjunction ⟨hrest, hread⟩
          exact ⟨rest, skipBlank_eq_nil_iff.1 hblank, hderives.congr (skipBlank_skipBlank cs).symm⟩
        · cases h
  · rintro ⟨rest, hblank, hderives⟩
    have hderives' := hderives.congr (skipBlank_skipBlank cs)
    obtain ⟨hlength, hread⟩ := hderives'.found.disjunction_end (closes_of_allBlank hblank)
    split
    next hnil => exact absurd hnil hderives.skipBlank_ne_nil
    next => simp only [hread, skipBlank_eq_nil_iff.2 hblank]

/-- A text is read as at most one tree. -/
theorem IsRule.eq {cs : List Char} {e e' : Expr Float} (h : IsRule cs e) (h' : IsRule cs e') :
    e = e' := by
  rw [← parseChars_eq_ok_iff] at h h'
  rw [h] at h'
  cases h'
  rfl

end Rule

open Rule

theorem parse_eq_ok_iff {text : String} {e : Expr Float} :
    Expr.parse text = .ok e ↔ IsRule text.toList e := by
  rw [← parseChars_eq_ok_iff, Expr.parse]
  cases parseChars text.toList with
  | error stop => simp [Except.mapError]
  | ok e' => simp [Except.mapError]

/-- **The reader accepts the grammar and nothing else.** A text is read as a tree exactly if it is a
rule with that tree, no text is a rule with two trees, and a text that is no rule is refused. -/
theorem Expr.parse_accepts_grammar (text : String) :
    (∀ e, Expr.parse text = .ok e ↔ IsRule text.toList e) ∧
      { e | IsRule text.toList e }.Subsingleton ∧
      ((∃ error, Expr.parse text = .error error) ↔ ∀ e, ¬ IsRule text.toList e) := by
  refine ⟨fun e ↦ parse_eq_ok_iff, fun e h e' h' ↦ IsRule.eq h h', ?_⟩
  constructor
  · rintro ⟨error, herror⟩ e hrule
    rw [parse_eq_ok_iff.2 hrule] at herror
    cases herror
  · intro hnone
    cases hparse : Expr.parse text with
    | error error => exact ⟨error, rfl⟩
    | ok e => exact absurd (parse_eq_ok_iff.1 hparse) (hnone e)

/-- A negated comparison, with a keyword in capitals. -/
theorem sample_parse_accepts_grammar : Expr.parse "NOT rsi < 30" =
    .ok (.not (.compare (.field .rsi) .lt (.constant 30.0))) := by
  have hnot : Keyword "not" "NOT rsi < 30".toList " rsi < 30".toList :=
    (keyword?_eq_some_iff (by decide)).1 (by decide)
  have hfield : Side (.field .rsi) " rsi < 30".toList " < 30".toList :=
    .field ((keyword?_eq_some_iff (by decide)).1 (by decide))
  have hsign : Spaced (Symbol Comparison.lt.sign.toList) " < 30".toList " 30".toList :=
    (spaced_symbol_iff (startsPrintable_sign .lt)).2 (by decide)
  have hnumeral : Decimal.NumeralText ⟨['3', '0'], [], 0⟩ (['3', '0'] ++ [] ++ []) :=
    .mk (List.all_eq_true.1 (by decide)) .absent (.inl (List.cons_ne_nil _ _)) .absent
  have hnearest := Decimal.Numeral.isNearest_toFloat ⟨['3', '0'], [], 0⟩
  have hnumber : Side (.constant 30.0) " 30".toList [] :=
    .constant (@Spaced.mk _ [' '] _ _ (List.forall_mem_singleton.2 rfl)
      (.unsigned hnumeral rfl hnearest))
  have hcompare : Derives .factor " rsi < 30".toList
      (.compare (.field .rsi) .lt (.constant 30.0)) [] :=
    .compare hfield hsign hnumber (by rintro ⟨⟨x, hx⟩, -⟩; cases hx)
  exact ((Expr.parse_accepts_grammar "NOT rsi < 30").1 _).2
    ⟨[], List.forall_mem_nil _, .single (.lone (.not hnot hcompare))⟩

end BarReplay
