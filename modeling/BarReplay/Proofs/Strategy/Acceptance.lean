import BarReplay.Strategy.Draft

/-!
# What it takes to be accepted

A draft is accepted if every one of its numbers is in range and every one of its texts is a rule.
`Draft.check_eq_ok_iff` says this for all parts at once, in terms of the strategy that comes of it.
A strategy that was accepted has rates that make sense (`Strategy.Accepted.costs`), so a run can
find fault with a rate only if the rate is that of its terms.
-/

namespace BarReplay

/-- A computation goes on with the result of another exactly if that one has a result. -/
theorem except_bind_eq_ok_iff {ε β γ : Type} {x : Except ε β} {f : β → Except ε γ} {c : γ} :
    x >>= f = .ok c ↔ ∃ b, x = .ok b ∧ f b = .ok c := by
  cases x with
  | error e => simp [bind, Except.bind]
  | ok b => simp [bind, Except.bind]

/-- A computation fails if its first step fails, or if the rest fails with the result of that. -/
theorem except_bind_eq_error_iff {ε β γ : Type} {x : Except ε β} {f : β → Except ε γ} {e : ε} :
    x >>= f = .error e ↔ x = .error e ∨ ∃ b, x = .ok b ∧ f b = .error e := by
  cases x with
  | error e' => simp [bind, Except.bind]
  | ok b => simp [bind, Except.bind]

/-- Another wording of the errors changes no result. -/
theorem except_mapError_eq_ok_iff {ε ε' β : Type} {f : ε → ε'} {x : Except ε β} {b : β} :
    x.mapError f = .ok b ↔ x = .ok b := by
  cases x with
  | error e => exact ⟨nofun, nofun⟩
  | ok c =>
    show (.ok c : Except ε' β) = .ok b ↔ (.ok c : Except ε β) = .ok b
    rw [Except.ok.injEq, Except.ok.injEq]

theorem except_mapError_eq_error_iff {ε ε' β : Type} {f : ε → ε'} {x : Except ε β} {e : ε'} :
    x.mapError f = .error e ↔ ∃ e', x = .error e' ∧ f e' = e := by
  cases x with
  | error e' =>
    show (.error (f e') : Except ε' β) = .error e ↔ _
    simp
  | ok b =>
    show (.ok b : Except ε' β) = .error e ↔ _
    simp

theorem except_map_eq_ok_iff {ε β γ : Type} {f : β → γ} {x : Except ε β} {c : γ} :
    x.map f = .ok c ↔ ∃ b, x = .ok b ∧ f b = c := by
  cases x with
  | error e => simp [Except.map]
  | ok b => simp [Except.map]

theorem except_map_eq_error_iff {ε β γ : Type} {f : β → γ} {x : Except ε β} {e : ε} :
    x.map f = .error e ↔ x = .error e := by
  cases x with
  | error e' => simp [Except.map]
  | ok b => simp [Except.map]

theorem Rule.source_of_parse {text : String} {r : Rule Float} (h : Rule.parse text = .ok r) :
    r.source = text := by
  obtain ⟨e, -, rfl⟩ := except_map_eq_ok_iff.1 h
  rfl

namespace Draft

theorem shareOfAccount_eq_ok_iff {key : String} {x y : Float} :
    shareOfAccount key x = .ok y ↔ isShareOfAccount x = true ∧ x = y := by
  unfold shareOfAccount
  split <;> simp [*]

theorem nonNegative_eq_ok_iff {key : String} {x y : Float} :
    nonNegative key x = .ok y ↔ isNonNegative x = true ∧ x = y := by
  unfold nonNegative
  split <;> simp [*]

/-- A threshold has to be in range unless it is zero, and zero is dropped. -/
theorem threshold_eq_ok_iff {key : String} {x y : Option Float} :
    threshold key x = .ok y ↔
      (∀ a ∈ x, (a == 0) = false → isNonNegative a = true) ∧ x.filter (fun a ↦ !(a == 0)) = y := by
  cases x with
  | none => simp [threshold]
  | some a =>
    rw [threshold]
    cases hzero : a == 0 with
    | true => simp [Option.filter, hzero]
    | false =>
      cases hrange : isNonNegative a <;>
        simp [Option.filter, hzero, hrange, nonNegative, Except.map]

/-- The rules of a list are what its texts are, text by text, whatever the list and the index are
that an error would name. -/
theorem rulesFrom_eq_ok_iff {list : RuleList} {index : Nat} {texts : List String}
    {rs : List (Rule Float)} :
    rulesFrom list index texts = .ok rs ↔ texts.map Rule.parse = rs.map .ok := by
  induction texts generalizing index rs with
  | nil => cases rs <;> simp [rulesFrom]
  | cons text texts ih =>
    simp only [rulesFrom, except_bind_eq_ok_iff, except_mapError_eq_ok_iff, ih]
    cases rs with
    | nil => simp [pure, Except.pure]
    | cons r rs => simp [pure, Except.pure]

/-- A draft makes a strategy exactly if all its numbers are in range and all its texts are rules. -/
theorem check_eq_ok_iff {d : Draft} {s : Strategy Float} :
    d.check = .ok s ↔
      isShareOfAccount d.share = true ∧
        threshold "stop_loss" d.stopLoss = .ok s.stopLoss ∧
        threshold "take_profit" d.takeProfit = .ok s.takeProfit ∧
        isNonNegative d.commission = true ∧ isNonNegative d.slippage = true ∧
        rules .entry d.entryRules = .ok s.entryRules ∧
        rules .exit d.exitRules = .ok s.exitRules ∧
        s.name = d.name ∧ s.description = d.description ∧ s.fraction = d.share ∧
        s.costs = ⟨d.commission, d.slippage⟩ := by
  unfold check
  simp only [except_bind_eq_ok_iff, shareOfAccount_eq_ok_iff, nonNegative_eq_ok_iff]
  constructor
  · rintro ⟨fraction, ⟨hshare, rfl⟩, stopLoss, hstop, takeProfit, htake, commission, ⟨hc, rfl⟩,
      slippage, ⟨hs, rfl⟩, entryRules, hentry, exitRules, hexit, hs'⟩
    obtain rfl := Except.ok.inj hs'
    exact ⟨hshare, hstop, htake, hc, hs, hentry, hexit, rfl, rfl, rfl, rfl⟩
  · obtain ⟨name, description, entryRules, exitRules, stopLoss, takeProfit, fraction, costs⟩ := s
    rintro ⟨hshare, hstop, htake, hc, hs, hentry, hexit, rfl, rfl, rfl, rfl⟩
    exact ⟨_, ⟨hshare, rfl⟩, _, hstop, _, htake, _, ⟨hc, rfl⟩, _, ⟨hs, rfl⟩, _, hentry, _, hexit,
      rfl⟩

/-! ### What a draft is refused for -/

theorem rulesFrom_eq_error {list : RuleList} {index : Nat} {texts : List String} {e : Error}
    (h : rulesFrom list index texts = .error e) : ∃ i text error, e = .rule list i text error := by
  induction texts generalizing index with
  | nil => cases h
  | cons text rest ih =>
    simp only [rulesFrom, except_bind_eq_error_iff, except_mapError_eq_error_iff] at h
    obtain ⟨error, -, rfl⟩ | ⟨r, -, hrest | ⟨rs, -, hpure⟩⟩ := h
    · exact ⟨index, text, error, rfl⟩
    · exact ih hrest
    · cases hpure

theorem nonNegative_eq_error {key : String} {x : Float} {e : Error}
    (h : nonNegative key x = .error e) : ∃ fault, e = .value "strategy" key fault := by
  rw [nonNegative] at h
  split at h
  · cases h
  · exact ⟨_, (Except.error.inj h).symm⟩

theorem shareOfAccount_eq_error {key : String} {x : Float} {e : Error}
    (h : shareOfAccount key x = .error e) : ∃ fault, e = .value "strategy" key fault := by
  rw [shareOfAccount] at h
  split at h
  · cases h
  · exact ⟨_, (Except.error.inj h).symm⟩

theorem threshold_eq_error {key : String} {x : Option Float} {e : Error}
    (h : threshold key x = .error e) : ∃ fault, e = .value "strategy" key fault := by
  rcases x with - | a
  · cases h
  · rw [threshold] at h
    split at h
    · cases h
    · exact nonNegative_eq_error (except_map_eq_error_iff.1 h)

/-- A draft is refused for one of its numbers or for one of its rules. -/
theorem check_eq_error {d : Draft} {e : Error} (h : d.check = .error e) :
    (∃ key fault, e = .value "strategy" key fault) ∨
      ∃ list i text error, e = .rule list i text error := by
  simp only [check, except_bind_eq_error_iff] at h
  rcases h with h | ⟨_, -, h | ⟨_, -, h | ⟨_, -, h | ⟨_, -, h | ⟨_, -, h | ⟨_, -, h |
    ⟨_, -, h⟩⟩⟩⟩⟩⟩⟩
  · exact .inl ⟨_, shareOfAccount_eq_error h⟩
  · exact .inl ⟨_, threshold_eq_error h⟩
  · exact .inl ⟨_, threshold_eq_error h⟩
  · exact .inl ⟨_, nonNegative_eq_error h⟩
  · exact .inl ⟨_, nonNegative_eq_error h⟩
  · exact .inr ⟨_, rulesFrom_eq_error h⟩
  · exact .inr ⟨_, rulesFrom_eq_error h⟩
  · cases h

end Draft

/-- The strategy was made of a draft. -/
def Strategy.Accepted (s : Strategy Float) : Prop :=
  ∃ d : Draft, d.check = .ok s

/-- The rates of an accepted strategy are finite and zero or more. -/
theorem Strategy.Accepted.costs {s : Strategy Float} (h : s.Accepted) :
    isNonNegative s.costs.commission = true ∧ isNonNegative s.costs.slippage = true := by
  obtain ⟨d, hd⟩ := h
  obtain ⟨-, -, -, hcommission, hslippage, -, -, -, -, -, hcosts⟩ := Draft.check_eq_ok_iff.1 hd
  rw [hcosts]
  exact ⟨hcommission, hslippage⟩

end BarReplay
