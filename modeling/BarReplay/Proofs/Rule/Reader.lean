import BarReplay.Proofs.Rule.Tokens

/-!
# The reader without its promises

Each part of the reader promises that its rest is shorter than its text, so that the recursion ends.
To follow what is read, and where reading stops, the promise is in the way. Here each part is
described without it (`bare`): what it takes first, what it does with the rest, and where it stops.
-/

namespace BarReplay

namespace Rule

section Bare

variable {β γ : Type} {p q : List Char → Prop}

/-- What a scanner takes and leaves, or where it stops. -/
def bare (x : Except Stop (β × { r : List Char // p r })) : Except Stop (β × List Char) :=
  x.map fun taken ↦ (taken.1, taken.2.1)

@[simp]
theorem bare_error {stop : Stop} :
    bare (.error stop : Except Stop (β × { r : List Char // p r })) = .error stop :=
  rfl

@[simp]
theorem bare_ok {b : β} {r : { r : List Char // p r }} : bare (.ok (b, r)) = .ok (b, r.1) :=
  rfl

theorem bare_eq_ok_iff {x : Except Stop (β × { r : List Char // p r })} {b : β}
    {rest : List Char} : bare x = .ok (b, rest) ↔ Yields x b rest := by
  constructor
  · rcases x with stop | ⟨b', r⟩
    · intro h
      cases h
    · intro h
      obtain ⟨rfl, rfl⟩ := Prod.mk.inj (Except.ok.inj h)
      exact ⟨r.2, rfl⟩
  · rintro ⟨_, rfl⟩
    rfl

end Bare

/-! ### Leaves -/

theorem bare_comparisonSign (cs : List Char) : bare (comparisonSign cs) =
    match sign? (Text.skipBlank cs) with
    | some (sign, rest) => .ok (sign, rest)
    | none => .error ⟨.missingSign (glimpse (Text.skipBlank cs)), Text.skipBlank cs⟩ := by
  simp only [comparisonSign]
  split
  next hsign => simp only [hsign, bare_ok]
  next hsign => simp only [hsign, bare_error]

theorem bare_number (cs : List Char) : bare (number cs) =
    match Decimal.Numeral.scan? (minus cs).2 with
    | none => .error ⟨.missingDigits, cs⟩
    | some (n, rest) =>
      if Text.startsWord rest then
        .error ⟨.invalidNumber (cs.take (cs.length - rest.length) ++ Text.headWord rest), cs⟩
      else .ok (if (minus cs).1 then -n.toFloat else n.toFloat, rest) := by
  rw [number]
  split
  next hscan => simp only [hscan, bare_error]
  next hscan =>
    simp only [hscan]
    split_ifs <;> rfl

theorem bare_fieldWord (c : Char) (cs : List Char) : bare (fieldWord c cs) =
    match Field.named? (c :: Text.headWord cs) with
    | some field => .ok (field, Text.afterWord cs)
    | none => .error ⟨.unknownField (c :: Text.headWord cs), c :: cs⟩ := by
  simp only [fieldWord]
  rcases Field.named? (c :: Text.headWord cs) with - | field <;> rfl

theorem bare_operand (cs : List Char) : bare (operand cs) =
    match Text.skipBlank cs with
    | [] => .error ⟨.missingOperand none, []⟩
    | c :: rest =>
      if startsNumber c then
        (bare (number (c :: rest))).map fun taken ↦ (.constant taken.1, taken.2)
      else if startsField c then
        (bare (fieldWord c rest)).map fun taken ↦ (.field taken.1, taken.2)
      else .error ⟨.missingOperand (glimpse (c :: rest)), c :: rest⟩ := by
  rw [operand]
  split
  next hskip => simp only [hskip, bare_error]
  next c rest hskip =>
    simp only [hskip]
    split_ifs
    · rcases number (c :: rest) with stop | ⟨x, r⟩ <;> rfl
    · rcases fieldWord c rest with stop | ⟨f, r⟩ <;> rfl
    · rfl

theorem bare_comparison (cs : List Char) : bare (comparison cs) = (do
    let (left, rest) ← bare (operand cs)
    let (sign, rest) ← bare (comparisonSign rest)
    let (right, rest) ← bare (operand rest)
    match left, right with
    | .constant _, .constant _ => .error ⟨.constantComparison, Text.skipBlank cs⟩
    | _, _ => .ok (.compare left sign right, rest)) := by
  rw [comparison]
  rcases operand cs with stop | ⟨left, r⟩
  · rfl
  show bare (comparisonSign r.1 >>= _) = bare (comparisonSign r.1) >>= _
  rcases comparisonSign r.1 with stop | ⟨sign, r'⟩
  · rfl
  show bare (operand r'.1 >>= _) = bare (operand r'.1) >>= _
  rcases operand r'.1 with stop | ⟨right, r''⟩
  · rfl
  cases left <;> cases right <;> rfl

/-! ### Phrases -/

theorem bare_disjunction (cs : List Char) : bare (disjunction cs) = (do
    let (left, rest) ← bare (conjunction cs)
    bare (disjuncts left rest)) := by
  rw [disjunction]
  rcases conjunction cs with stop | ⟨left, rest, hrest⟩
  · rfl
  show _ = bare (disjuncts left rest)
  rcases hmore : disjuncts left rest with stop | ⟨e, r, hr⟩ <;> simp only [hmore] <;> rfl

theorem bare_disjuncts (left : Expr Float) (cs : List Char) : bare (disjuncts left cs) =
    match keyword? ['o', 'r'] cs with
    | none => .ok (left, cs)
    | some rest => (do
      let (right, rest) ← bare (conjunction rest)
      bare (disjuncts (.or left right) rest)) := by
  rw [disjuncts]
  split
  next hkey => simp only [hkey, bare_ok]
  next rest hkey =>
    simp only [hkey]
    rcases conjunction rest with stop | ⟨right, rest', hrest'⟩
    · rfl
    show _ = bare (disjuncts (.or left right) rest')
    rcases hmore : disjuncts (.or left right) rest' with stop | ⟨e, r, hr⟩ <;>
      simp only [hmore] <;> rfl

theorem bare_conjunction (cs : List Char) : bare (conjunction cs) = (do
    let (left, rest) ← bare (factor cs)
    bare (conjuncts left rest)) := by
  rw [conjunction]
  rcases factor cs with stop | ⟨left, rest, hrest⟩
  · rfl
  show _ = bare (conjuncts left rest)
  rcases hmore : conjuncts left rest with stop | ⟨e, r, hr⟩ <;> simp only [hmore] <;> rfl

theorem bare_conjuncts (left : Expr Float) (cs : List Char) : bare (conjuncts left cs) =
    match keyword? ['a', 'n', 'd'] cs with
    | none => .ok (left, cs)
    | some rest => (do
      let (right, rest) ← bare (factor rest)
      bare (conjuncts (.and left right) rest)) := by
  rw [conjuncts]
  split
  next hkey => simp only [hkey, bare_ok]
  next rest hkey =>
    simp only [hkey]
    rcases factor rest with stop | ⟨right, rest', hrest'⟩
    · rfl
    show _ = bare (conjuncts (.and left right) rest')
    rcases hmore : conjuncts (.and left right) rest' with stop | ⟨e, r, hr⟩ <;>
      simp only [hmore] <;> rfl

/-- What closes a bracket. -/
def closing (cs : List Char) : Except Stop (Unit × List Char) :=
  match Text.skipBlank cs with
  | ')' :: rest => .ok ((), rest)
  | found => .error ⟨.unclosed found.head?, found⟩

theorem bare_factor (cs : List Char) : bare (factor cs) =
    match keyword? ['n', 'o', 't'] cs with
    | some rest => (bare (factor rest)).map fun taken ↦ (.not taken.1, taken.2)
    | none =>
      match Text.skipBlank cs with
      | '(' :: rest => (do
        let (inner, rest) ← bare (disjunction rest)
        let (_, rest) ← closing rest
        .ok (inner, rest))
      | _ =>
        match keyword? ['t', 'r', 'u', 'e'] cs with
        | some rest => .ok (.literal true, rest)
        | none =>
          match keyword? ['f', 'a', 'l', 's', 'e'] cs with
          | some rest => .ok (.literal false, rest)
          | none => bare (comparison cs) := by
  rw [factor]
  split
  next rest hnot =>
    simp only [hnot]
    rcases factor rest with stop | ⟨inner, r⟩ <;> rfl
  next hnot =>
    simp only [hnot]
    split
    next rest hopen =>
      simp only [hopen]
      rcases disjunction rest with stop | ⟨inner, rest', hrest'⟩
      · rfl
      show _ = closing rest' >>= fun taken ↦ .ok (inner, taken.2)
      simp only [closing]
      split
      next r hclose =>
        simp only [hclose]
        rfl
      next hclose =>
        split
        next r hclose' => exact absurd hclose' (hclose r)
        next => rfl
    next hopen =>
      split
      next htrue => simp only [htrue, bare_ok]
      next htrue =>
        split
        next hfalse => simp only [htrue, hfalse, bare_ok]
        next hfalse => simp only [htrue, hfalse]

theorem parseChars_eq (cs : List Char) : parseChars cs =
    match Text.skipBlank cs with
    | [] => .error ⟨.emptyRule, cs⟩
    | text => (do
      let (e, rest) ← bare (disjunction text)
      match Text.skipBlank rest with
      | [] => .ok e
      | left => .error ⟨.trailing (glimpse left), left⟩) := by
  rw [parseChars]
  rcases Text.skipBlank cs with - | ⟨c, text⟩
  · rfl
  · dsimp only
    rcases disjunction (c :: text) with stop | ⟨e, r⟩ <;> rfl

end Rule

end BarReplay
