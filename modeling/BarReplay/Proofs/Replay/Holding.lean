import BarReplay.Proofs.Replay.History

/-!
# The life of a position

A position is opened on one bar, held unchanged over the bars that follow, and closed on one of them
as a trade, unless the bars end first. `Strategy.OpensAt` and `Strategy.ClosesAt` say when this
happens in terms of the account and the ledger alone, and `opensAt_iff` and `closesAt_iff` say what
it takes.

A held position is traced back to the bar that opened it (`opensAt_of_held`), and an opened one is
followed to the end of the run (`held_or_roundTrip`). Together they account for every trade:
`mem_ledgerAt_iff_roundTrip` says that the ledger holds the round trips and nothing else, and
`opensAt_iff_reported` that no position that was opened is lost.
-/

namespace BarReplay

variable {α : Type} [Arithmetic α]

/-! ### What is bought -/

/-- What the purchase of a position on a bar settles about it. -/
structure Position.BoughtOn (p : Position α) (costs : Costs α) (index : Nat) (bar : Bar α) :
    Prop where
  date : p.entryDate = bar.date
  index : p.entryIndex = index
  price : p.entryPrice = costs.buyPrice bar.close
  shares : 1 ≤ p.shares
  cost : p.costBasis = costs.debit (p.size * p.entryPrice)

/-- Something is bought exactly when there is something to commit. -/
theorem Position.exists_buy?_iff {costs : Costs α} {fraction : α} {index : Nat} {bar : Bar α}
    {cash : α} :
    (∃ p, Position.buy? costs fraction index bar cash = some p) ↔ 0 < cash * fraction := by
  by_cases h : 0 < cash * fraction <;> simp [Position.buy?, h]

theorem Position.boughtOn_of_buy? {costs : Costs α} {fraction : α} {index : Nat} {bar : Bar α}
    {cash : α} {p : Position α} (h : Position.buy? costs fraction index bar cash = some p) :
    p.BoughtOn costs index bar := by
  have hpos : 0 < cash * fraction := Position.exists_buy?_iff.1 ⟨p, h⟩
  simp only [Position.buy?, hpos, if_true, Option.some.injEq] at h
  subst h
  exact ⟨rfl, rfl, rfl, Nat.le_max_left _ _, rfl⟩

namespace Strategy

variable (s : Strategy α) (terms : Terms α) (bars : List (Bar α))

/-- Bar `i` opens the position `p`: the account holds none when the bar is reached, and `p` when the
next is. -/
def OpensAt (i : Nat) (p : Position α) : Prop :=
  (s.standingAt terms bars i).position = none ∧ (s.standingAt terms bars (i + 1)).position = some p

/-- Bar `i` closes a position as the trade `t`. -/
def ClosesAt (i : Nat) (t : Trade α) : Prop :=
  s.ledgerAt terms bars (i + 1) = s.ledgerAt terms bars i ++ [t]

/-- The trade `t` is the whole life of the position `p`. -/
structure RoundTrip (p : Position α) (t : Trade α) : Prop where
  opened : s.OpensAt terms bars t.entryIndex p
  held : ∀ i, t.entryIndex < i → i ≤ t.exitIndex → (s.standingAt terms bars i).position = some p
  closed : s.ClosesAt terms bars t.exitIndex t

variable {s terms bars}

/-! ### What it takes to open and to close -/

/-- A position is opened on a bar of the run, and not on the first. -/
theorem OpensAt.exists_bar {i : Nat} {p : Position α} (h : s.OpensAt terms bars i p) :
    1 ≤ i ∧ ∃ bar, bars[i]? = some bar := by
  rcases s.bar_or_rest terms bars i with hbar | ⟨hrest, -⟩
  · exact hbar
  · obtain ⟨hnone, hsome⟩ := h
    rw [hrest, hnone] at hsome
    cases hsome

/-- A trade is closed on a bar of the run, and not on the first. -/
theorem ClosesAt.exists_bar {i : Nat} {t : Trade α} (h : s.ClosesAt terms bars i t) :
    1 ≤ i ∧ ∃ bar, bars[i]? = some bar := by
  rcases s.bar_or_rest terms bars i with hbar | ⟨-, hrest⟩
  · exact hbar
  · rw [ClosesAt, hrest] at h
    simp at h

section Bar

variable {i : Nat} {bar : Bar α} (hi : 1 ≤ i) (hbar : bars[i]? = some bar)

include hi hbar

/-- A position is opened exactly when there was none, the strategy enters, and the position can be
bought with the cash. -/
theorem opensAt_iff {p : Position α} :
    s.OpensAt terms bars i p ↔ (s.standingAt terms bars i).position = none ∧
      s.enters bar.reading = true ∧
      Position.buy? (terms.rates s) s.fraction i bar (s.standingAt terms bars i).cash = some p := by
  obtain ⟨before, after, closed, hbefore, hafter, -, hmove⟩ := s.move_at terms hi hbar
  rw [OpensAt, hbefore, hafter]
  cases hmove with
  | wait cash pass => simpa using fun hsignal ↦ by simp [pass hsignal]
  | buy cash q signal bought => simp [signal, bought]
  | hold cash q keep => simp
  | sell cash q reason signal => simp

/-- A position is closed exactly when there was one and there is a reason to leave it. -/
theorem closesAt_iff {t : Trade α} :
    s.ClosesAt terms bars i t ↔ ∃ p, (s.standingAt terms bars i).position = some p ∧
      ∃ reason, s.exit? p bar = some reason ∧ t = p.sell (terms.rates s) i bar reason := by
  obtain ⟨before, after, closed, hbefore, hafter, hledger, hmove⟩ := s.move_at terms hi hbar
  rw [ClosesAt, hbefore, hledger]
  cases hmove with
  | wait cash pass => simp
  | buy cash q signal bought => simp
  | hold cash q keep => simp [keep]
  | sell cash q reason signal => simp [signal, eq_comm]

/-- What the purchase leaves of the account. -/
theorem standingAt_succ_of_opensAt {p : Position α} (h : s.OpensAt terms bars i p) :
    s.standingAt terms bars (i + 1) =
        ⟨(s.standingAt terms bars i).cash - p.costBasis, some p⟩ ∧
      s.ledgerAt terms bars (i + 1) = s.ledgerAt terms bars i := by
  obtain ⟨before, after, closed, hbefore, hafter, hledger, hmove⟩ := s.move_at terms hi hbar
  rw [OpensAt, hbefore, hafter] at h
  rw [hbefore, hafter, hledger]
  cases hmove with
  | buy cash q signal bought =>
    obtain rfl : q = p := Option.some.inj h.2
    simp
  | wait cash pass => cases h.2
  | hold cash q keep => cases h.1
  | sell cash q reason signal => cases h.1

/-- What the sale leaves of the account. -/
theorem standingAt_succ_of_closesAt {p : Position α} {t : Trade α}
    (hp : (s.standingAt terms bars i).position = some p) (h : s.ClosesAt terms bars i t) :
    s.standingAt terms bars (i + 1) =
      ⟨(s.standingAt terms bars i).cash + (p.costBasis + t.profit), none⟩ := by
  obtain ⟨before, after, closed, hbefore, hafter, hledger, hmove⟩ := s.move_at terms hi hbar
  rw [ClosesAt, hledger, List.append_cancel_left_eq] at h
  rw [hbefore] at hp
  rw [hbefore, hafter]
  cases hmove with
  | sell cash q reason signal =>
    obtain rfl : q = p := Option.some.inj hp
    obtain rfl : q.sell (terms.rates s) i bar reason = t := by simpa using h
    rfl
  | wait cash pass => cases hp
  | buy cash q signal bought => cases hp
  | hold cash q keep => cases h

/-- A bar on which nothing is opened or closed leaves the account and the ledger as they were. -/
theorem standingAt_succ_of_rest (hopen : ∀ p, ¬ s.OpensAt terms bars i p)
    (hclose : ∀ t, ¬ s.ClosesAt terms bars i t) :
    s.standingAt terms bars (i + 1) = s.standingAt terms bars i ∧
      s.ledgerAt terms bars (i + 1) = s.ledgerAt terms bars i := by
  obtain ⟨before, after, closed, hbefore, hafter, hledger, hmove⟩ := s.move_at terms hi hbar
  simp only [OpensAt, ClosesAt, hbefore, hafter, hledger] at hopen hclose ⊢
  cases hmove with
  | wait cash pass => simp
  | buy cash q signal bought => exact absurd ⟨rfl, rfl⟩ (hopen q)
  | hold cash q keep => simp
  | sell cash q reason signal => exact absurd rfl (hclose _)

end Bar

/-! ### Back to the bar that opened it -/

/-- An opened position was bought on the bar. -/
theorem OpensAt.boughtOn {i : Nat} {p : Position α} (h : s.OpensAt terms bars i p) :
    ∃ bar, bars[i]? = some bar ∧ p.BoughtOn (terms.rates s) i bar := by
  obtain ⟨hi, bar, hbar⟩ := h.exists_bar
  obtain ⟨-, -, hbuy⟩ := (opensAt_iff hi hbar).1 h
  exact ⟨bar, hbar, Position.boughtOn_of_buy? hbuy⟩

/-- The position that is bought on a bar names the bar. -/
theorem entryIndex_of_opensAt {i : Nat} {p : Position α} (h : s.OpensAt terms bars i p) :
    p.entryIndex = i := by
  obtain ⟨bar, -, hbought⟩ := h.boughtOn
  exact hbought.index

/-- The trade that is closed on a bar names the bar. -/
theorem exitIndex_of_closesAt {i : Nat} {t : Trade α} (h : s.ClosesAt terms bars i t) :
    t.exitIndex = i := by
  obtain ⟨hi, bar, hbar⟩ := h.exists_bar
  obtain ⟨p, -, reason, -, rfl⟩ := (closesAt_iff hi hbar).1 h
  rfl

/-- A position held after a bar was held before it, or the bar opened it. -/
theorem held_or_opensAt {k : Nat} {p : Position α}
    (h : (s.standingAt terms bars (k + 1)).position = some p) :
    (s.standingAt terms bars k).position = some p ∨ s.OpensAt terms bars k p := by
  rcases s.bar_or_rest terms bars k with ⟨hk, bar, hbar⟩ | ⟨hrest, -⟩
  · obtain ⟨before, after, closed, hbefore, hafter, -, hmove⟩ := s.move_at terms hk hbar
    rw [hafter] at h
    rw [OpensAt, hbefore, hafter]
    cases hmove with
    | wait cash pass => cases h
    | buy cash q signal bought => exact .inr ⟨rfl, h⟩
    | hold cash q keep => exact .inl h
    | sell cash q reason signal => cases h
  · exact .inl (hrest ▸ h)

/-- **A position that is held was opened on the bar it names, and has been held ever since.** -/
theorem opensAt_of_held {k : Nat} {p : Position α}
    (h : (s.standingAt terms bars k).position = some p) :
    p.entryIndex < k ∧ s.OpensAt terms bars p.entryIndex p ∧
      ∀ i, p.entryIndex < i → i ≤ k → (s.standingAt terms bars i).position = some p := by
  -- back from bar to bar: before the last one it was held, or that is where it was opened
  induction k with
  | zero => cases h
  | succ k ih =>
    rcases held_or_opensAt h with hheld | hopen
    · obtain ⟨hlt, hopen, hsince⟩ := ih hheld
      refine ⟨by omega, hopen, fun i hlo hhi ↦ ?_⟩
      rcases Nat.le_or_eq_of_le_succ hhi with hik | rfl
      · exact hsince i hlo hik
      · exact h
    · have hentry : p.entryIndex = k := entryIndex_of_opensAt hopen
      refine ⟨by omega, hentry ▸ hopen, fun i hlo hhi ↦ ?_⟩
      obtain rfl : i = k + 1 := by omega
      exact h

/-- The sale of a held position completes its round trip. -/
theorem roundTrip_of_closesAt {i : Nat} {p : Position α} {t : Trade α}
    (hp : (s.standingAt terms bars i).position = some p) (h : s.ClosesAt terms bars i t) :
    s.RoundTrip terms bars p t := by
  obtain ⟨hi, bar, hbar⟩ := h.exists_bar
  obtain ⟨q, hq, reason, -, ht⟩ := (closesAt_iff hi hbar).1 h
  obtain rfl : p = q := Option.some.inj (hp.symm.trans hq)
  have hentry : t.entryIndex = p.entryIndex := by rw [ht]; rfl
  obtain rfl := exitIndex_of_closesAt h
  obtain ⟨-, hopen, hsince⟩ := opensAt_of_held hp
  exact ⟨hentry ▸ hopen, hentry ▸ hsince, h⟩

namespace RoundTrip

variable {p : Position α} {t : Trade α} (h : s.RoundTrip terms bars p t)

include h

theorem entryIndex_eq : t.entryIndex = p.entryIndex :=
  (entryIndex_of_opensAt h.opened).symm

/-- What was bought is sold, on a later bar. -/
theorem sold : ∃ bar, bars[t.exitIndex]? = some bar ∧
    t.entryIndex < t.exitIndex ∧ t = p.sell (terms.rates s) t.exitIndex bar t.reason := by
  obtain ⟨hi, bar, hbar⟩ := h.closed.exists_bar
  obtain ⟨q, hq, reason, -, ht⟩ := (closesAt_iff hi hbar).1 h.closed
  obtain ⟨hlt, -, hsince⟩ := opensAt_of_held hq
  have hentry : t.entryIndex = q.entryIndex := by rw [ht]; rfl
  -- `q` is what was sold, and it has been held since the bar that opened `p`
  have hpq : p = q := by
    have hnext := hsince (t.entryIndex + 1) (by omega) (by omega)
    exact Option.some.inj (h.opened.2.symm.trans hnext)
  refine ⟨bar, hbar, by omega, ?_⟩
  rw [hpq, show t.reason = reason by rw [ht]; rfl]
  exact ht

/-- Nothing is held after the sale. -/
theorem flat_after : (s.standingAt terms bars (t.exitIndex + 1)).position = none := by
  obtain ⟨hi, bar, hbar⟩ := h.closed.exists_bar
  obtain ⟨-, -, hlt, -⟩ := h.sold
  rw [standingAt_succ_of_closesAt hi hbar (h.held _ hlt (Nat.le_refl _)) h.closed]

end RoundTrip

/-! ### The ledger -/

variable (s terms bars) in
/-- A bar leaves the ledger as it was, or closes a trade. -/
theorem ledgerAt_succ_eq_or_closesAt (k : Nat) :
    s.ledgerAt terms bars (k + 1) = s.ledgerAt terms bars k ∨ ∃ t, s.ClosesAt terms bars k t := by
  rcases s.bar_or_rest terms bars k with ⟨hk, bar, hbar⟩ | ⟨-, hrest⟩
  · obtain ⟨-, -, closed, -, -, hledger, -⟩ := s.move_at terms hk hbar
    rcases closed with - | t
    · exact .inl (by simpa using hledger)
    · exact .inr ⟨t, hledger⟩
  · exact .inl hrest

/-- The ledger lists what the bars passed have closed. -/
theorem mem_ledgerAt_iff {k : Nat} {t : Trade α} :
    t ∈ s.ledgerAt terms bars k ↔ ∃ i, i < k ∧ s.ClosesAt terms bars i t := by
  induction k with
  | zero => simp [ledgerAt]
  | succ k ih =>
    have hpast : (∃ i, i < k + 1 ∧ s.ClosesAt terms bars i t) ↔
        (∃ i, i < k ∧ s.ClosesAt terms bars i t) ∨ s.ClosesAt terms bars k t := by
      simp only [Nat.lt_succ_iff_lt_or_eq, or_and_right, exists_or, exists_eq_left]
    rw [hpast, ← ih]
    rcases s.ledgerAt_succ_eq_or_closesAt terms bars k with hrest | ⟨u, hclose⟩
    · simp [ClosesAt, hrest]
    · rw [ClosesAt, hclose]
      simp [eq_comm]

/-- **The ledger lists the round trips and nothing else.** -/
theorem mem_ledgerAt_iff_roundTrip {k : Nat} {t : Trade α} :
    t ∈ s.ledgerAt terms bars k ↔ t.exitIndex < k ∧ ∃ p, s.RoundTrip terms bars p t := by
  rw [mem_ledgerAt_iff]
  constructor
  · rintro ⟨i, hik, hclose⟩
    obtain ⟨hi, bar, hbar⟩ := hclose.exists_bar
    obtain ⟨p, hp, -⟩ := (closesAt_iff hi hbar).1 hclose
    exact ⟨exitIndex_of_closesAt hclose ▸ hik, p, roundTrip_of_closesAt hp hclose⟩
  · rintro ⟨hlt, p, htrip⟩
    exact ⟨t.exitIndex, hlt, htrip.closed⟩

/-- The ledger of an earlier time is the part of a later ledger that was closed by then. -/
theorem ledgerAt_eq_filter {k m : Nat} (hkm : k ≤ m) :
    s.ledgerAt terms bars k = (s.ledgerAt terms bars m).filter fun t ↦ t.exitIndex < k := by
  induction m, hkm using Nat.le_induction with
  | base =>
    refine (List.filter_eq_self.2 fun t ht ↦ ?_).symm
    simpa using (mem_ledgerAt_iff_roundTrip.1 ht).1
  | succ m hkm ih =>
    rcases s.ledgerAt_succ_eq_or_closesAt terms bars m with hrest | ⟨t, hclose⟩
    · rw [hrest, ih]
    · -- what bar `m` closes was not closed before bar `k`
      have hexit : ¬ t.exitIndex < k := by
        rw [exitIndex_of_closesAt hclose]
        omega
      rw [hclose, List.filter_append, ← ih]
      simp [hexit]

/-- What the ledger lists was closed before a held position was opened. -/
theorem exitIndex_lt_of_held {k : Nat} {p : Position α} {t : Trade α}
    (hp : (s.standingAt terms bars k).position = some p) (ht : t ∈ s.ledgerAt terms bars k) :
    t.exitIndex < p.entryIndex := by
  obtain ⟨hk, q, htrip⟩ := mem_ledgerAt_iff_roundTrip.1 ht
  obtain ⟨-, hopen, hsince⟩ := opensAt_of_held hp
  obtain ⟨-, -, hlt, -⟩ := htrip.sold
  -- on the bar of the sale `q` is held, and nothing after it
  have hheld : (s.standingAt terms bars t.exitIndex).position = some q :=
    htrip.held t.exitIndex hlt (Nat.le_refl _)
  have hflat : (s.standingAt terms bars (t.exitIndex + 1)).position = none := htrip.flat_after
  rcases Nat.lt_trichotomy t.exitIndex p.entryIndex with hbefore | heq | hafter
  · exact hbefore
  · rw [heq, hopen.1] at hheld
    cases hheld
  · rw [hsince (t.exitIndex + 1) (by omega) hk] at hflat
    cases hflat

/-- **Trades do not overlap.** Each is closed before the next is opened, on an earlier bar. -/
theorem ledgerAt_pairwise (k : Nat) :
    (s.ledgerAt terms bars k).Pairwise fun t u ↦ t.exitIndex < u.entryIndex := by
  induction k with
  | zero => simp [ledgerAt]
  | succ k ih =>
    rcases s.ledgerAt_succ_eq_or_closesAt terms bars k with hrest | ⟨u, hclose⟩
    · rwa [hrest]
    · obtain ⟨hk, bar, hbar⟩ := hclose.exists_bar
      obtain ⟨p, hp, reason, -, rfl⟩ := (closesAt_iff hk hbar).1 hclose
      rw [hclose, List.pairwise_append]
      refine ⟨ih, List.pairwise_singleton _ _, fun t ht u hu ↦ ?_⟩
      rw [List.mem_singleton.1 hu]
      exact exitIndex_lt_of_held hp ht

/-! ### On to the end of the run -/

/-- A position held before a bar is held after it, or the bar closes it. -/
theorem held_or_closesAt {k : Nat} {p : Position α}
    (h : (s.standingAt terms bars k).position = some p) :
    (s.standingAt terms bars (k + 1)).position = some p ∨ ∃ t, s.ClosesAt terms bars k t := by
  rcases s.bar_or_rest terms bars k with ⟨hk, bar, hbar⟩ | ⟨hrest, -⟩
  · obtain ⟨before, after, closed, hbefore, hafter, hledger, hmove⟩ := s.move_at terms hk hbar
    rw [hbefore] at h
    rw [hafter]
    cases hmove with
    | wait cash pass => cases h
    | buy cash q signal bought => cases h
    | hold cash q keep => exact .inl h
    | sell cash q reason signal => exact .inr ⟨_, hledger⟩
  · exact .inl (hrest ▸ h)

/-- **A position that is held is still held at any later time, or its round trip is over.** -/
theorem held_or_roundTrip {i k : Nat} {p : Position α} (hik : i ≤ k)
    (h : (s.standingAt terms bars i).position = some p) :
    (s.standingAt terms bars k).position = some p ∨
      ∃ t, s.RoundTrip terms bars p t ∧ i ≤ t.exitIndex ∧ t.exitIndex < k := by
  induction k, hik using Nat.le_induction with
  | base => exact .inl h
  | succ k hik ih =>
    rcases ih with hheld | ⟨t, htrip, hlo, hhi⟩
    · rcases held_or_closesAt hheld with hheld' | ⟨t, hclose⟩
      · exact .inl hheld'
      · have hexit := exitIndex_of_closesAt hclose
        exact .inr ⟨t, roundTrip_of_closesAt hheld hclose, by omega, by omega⟩
    · exact .inr ⟨t, htrip, hlo, by omega⟩

/-- **No position that was opened is lost.** The positions opened are the one reported and those of
the round trips in the ledger. -/
theorem opensAt_iff_reported {i : Nat} {p : Position α} :
    s.OpensAt terms bars i p ↔ p.entryIndex = i ∧
      ((s.standingAt terms bars bars.length).position = some p ∨
        ∃ t ∈ s.ledgerAt terms bars bars.length, s.RoundTrip terms bars p t) := by
  constructor
  · intro hopen
    refine ⟨entryIndex_of_opensAt hopen, ?_⟩
    obtain ⟨hi, bar, hbar⟩ := hopen.exists_bar
    have hlt : i < bars.length := (List.getElem?_eq_some_iff.1 hbar).1
    rcases held_or_roundTrip (show i + 1 ≤ bars.length from hlt) hopen.2 with
      hheld | ⟨t, htrip, -, hlt⟩
    · exact .inl hheld
    · exact .inr ⟨t, mem_ledgerAt_iff_roundTrip.2 ⟨hlt, p, htrip⟩, htrip⟩
  · rintro ⟨rfl, hheld | ⟨t, -, htrip⟩⟩
    · exact (opensAt_of_held hheld).2.1
    · exact entryIndex_of_opensAt htrip.opened ▸ htrip.opened

end Strategy

end BarReplay
