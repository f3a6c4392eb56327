import BarReplay.Proofs.Replay.History

/-!
# Runs bar by bar

`Strategy.replay` looks through all bars before it trades on any of them. The run that goes bar by
bar checks each bar in its turn, between trades, and reads the flag that cancels it before every
bar; what it has gathered when it stops early is lost. The two agree (`replayByBar_eq_replay`), and
a flag that is raised on the way stops a run at that bar unless it fails before
(`replayByBar_of_raised`).

Both rest on one fact about the loop, `pass_eq`: where it stops is decided by the bars and the flag
alone (`firstStop?`), and if it does not stop it has gathered the days of the run. So what is traded
on the way has no part in whether the run goes on.
-/

namespace BarReplay

variable {α : Type} [Arithmetic α]

/-! ### Where a run stops -/

/-- Where a run stops on the bars from `index` on, if it does: at the first bar before which the
flag is up, or which is at fault. -/
def firstStop? (cancelled : Nat → Bool) (index : Nat) (previous : Option Date) :
    List (Bar α) → Option (RunError α)
  | [] => none
  | bar :: rest =>
    if cancelled index then some (.cancelled index)
    else
      match bar.fault? previous with
      | some fault => some (.bar index bar.date fault)
      | none => firstStop? cancelled (index + 1) (some bar.date) rest

/-- The first thing that stops a run. Before the first bar the flag is not read. -/
def stop? (cancelled : Nat → Bool) : List (Bar α) → Option (RunError α)
  | [] => some .noBars
  | first :: rest =>
    match first.fault? none with
    | some fault => some (.bar 0 first.date fault)
    | none => firstStop? cancelled 1 (some first.date) rest

/-- While the flag stays down, a run stops at the first bar at fault. -/
theorem firstStop?_of_down {cancelled : Nat → Bool} {index : Nat} {bars : List (Bar α)}
    (hdown : ∀ i, index ≤ i → i < index + bars.length → cancelled i = false)
    (previous : Option Date) :
    firstStop? cancelled index previous bars = firstFault? index previous bars := by
  induction bars generalizing index previous with
  | nil => rfl
  | cons bar rest ih =>
    have hhere : cancelled index = false := hdown index (Nat.le_refl _) (by simp)
    have hlater : ∀ i, index + 1 ≤ i → i < index + 1 + rest.length → cancelled i = false :=
      fun i hlo hhi ↦ hdown i (by omega) (by rw [List.length_cons]; omega)
    rw [firstStop?, firstFault?, hhere, ih hlater]
    rfl

/-- A flag that goes up before bar `k` stops a run there, unless a bar before that one is at
fault. -/
theorem firstStop?_of_raised {cancelled : Nat → Bool} {index k : Nat} {bars : List (Bar α)}
    (hle : index ≤ k) (hlt : k < index + bars.length)
    (hdown : ∀ i, index ≤ i → i < k → cancelled i = false) (hup : cancelled k = true)
    (previous : Option Date) :
    firstStop? cancelled index previous bars =
      (firstFault? index previous (bars.take (k - index))).or (some (.cancelled k)) := by
  induction bars generalizing index previous with
  | nil =>
    rw [List.length_nil] at hlt
    omega
  | cons bar rest ih =>
    rw [firstStop?]
    rcases Nat.eq_or_lt_of_le hle with rfl | hlt'
    · rw [hup, Nat.sub_self]
      rfl
    · have htake : (bar :: rest).take (k - index) = bar :: rest.take (k - (index + 1)) := by
        rw [show k - index = k - (index + 1) + 1 by omega, List.take_succ_cons]
      rw [List.length_cons] at hlt
      rw [hdown index (Nat.le_refl _) hlt', htake, firstFault?,
        ih hlt' (by omega) fun i hlo ↦ hdown i (by omega)]
      rcases bar.fault? previous with - | fault <;> rfl

/-! ### The loop -/

namespace Progress

/-- What is gathered over some days. -/
theorem foldl_add (p : Progress α) (days : List (Day α)) :
    days.foldl add p =
      { standing := standingAfter p.standing days
        trades := p.trades ++ days.filterMap Day.closed
        equity := p.equity ++ days.map Day.equity } := by
  induction days generalizing p with
  | nil => simp
  | cons day days ih =>
    rw [List.foldl_cons, ih, standingAfter_cons]
    rcases hclosed : day.closed with - | trade <;> simp [add, hclosed]

end Progress

namespace Strategy

variable (s : Strategy α)

/-- **The loop stops where the bars or the flag make it, and gathers the days of the run if they do
not.** -/
theorem pass_eq (costs : Costs α) (cancelled : Nat → Bool) (index : Nat) (previous : Bar α)
    (p : Progress α) (bars : List (Bar α)) :
    s.pass costs cancelled index previous p bars =
      match firstStop? cancelled index (some previous.date) bars with
      | some e => .error e
      | none => .ok ((s.daysFrom costs index p.standing bars).foldl Progress.add p) := by
  induction bars generalizing index previous p with
  | nil => rfl
  | cons bar rest ih =>
    rw [pass, firstStop?]
    rcases cancelled index with - | -
    · rcases bar.fault? (some previous.date) with - | fault
      · -- one day is added, and the loop goes on from the standing after it
        exact ih (index + 1) bar _
      · rfl
    · rfl

/-- What is gathered over all bars is what the days of the run add to the start. -/
theorem passAll_eq (costs : Costs α) (cancelled : Nat → Bool) (capital : α)
    (bars : List (Bar α)) :
    s.passAll costs cancelled capital bars =
      match stop? cancelled bars with
      | some e => .error e
      | none => .ok ((s.days costs capital bars).tail.foldl Progress.add (.start capital)) := by
  rcases bars with - | ⟨first, rest⟩
  · rfl
  · rw [passAll, stop?]
    rcases first.fault? none with - | fault
    · exact s.pass_eq costs cancelled 1 first (.start capital) rest
    · rfl

/-- The report on what is gathered is the report on the days of the run. -/
theorem report_foldl_add (costs : Costs α) (capital : α) (first : Bar α) (rest : List (Bar α)) :
    ((s.days costs capital (first :: rest)).tail.foldl Progress.add (.start capital)).report
        (first :: rest).length =
      Outcome.ofDays (s.days costs capital (first :: rest)) := by
  have hlength : (s.days costs capital (first :: rest)).length = (first :: rest).length := by
    simp [days]
  have hposition :
      (standingAfter ⟨capital, none⟩ (s.days costs capital (first :: rest)).tail).position =
        (Outcome.ofDays (s.days costs capital (first :: rest))).position := by
    rw [Outcome.position_ofDays capital, days, standingAfter_cons, List.tail_cons]
  rw [Progress.foldl_add, ← hlength]
  -- the first day closes nothing and is worth the capital
  exact congrArg (Outcome.mk _ _ _) hposition

variable {s} {terms : Terms α} {bars : List (Bar α)}

/-- A run under sound terms goes on until something stops it. -/
theorem replayByBar_of_sound (h : terms.Sound s) (cancelled : Nat → Bool) :
    s.replayByBar terms bars cancelled =
      match stop? cancelled bars with
      | some e => .error e
      | none => .ok (Outcome.ofDays (s.history terms bars)) := by
  unfold replayByBar
  rw [Terms.settle_of_sound h]
  show (s.passAll (terms.rates s) cancelled terms.capital bars >>= fun p ↦
    pure (p.report bars.length)) = _
  rw [passAll_eq]
  rcases bars with - | ⟨first, rest⟩
  · rfl
  · rcases stop? cancelled (first :: rest) with - | e
    · exact congrArg Except.ok (s.report_foldl_add _ _ _ _)
    · rfl

/-- A run fails if its terms cannot be settled, whatever becomes of the flag. -/
theorem replayByBar_of_settle_error {e : RunError α} (h : terms.settle s = .error e)
    (cancelled : Nat → Bool) : s.replayByBar terms bars cancelled = .error e := by
  unfold replayByBar
  rw [h]
  rfl

/-! ### The two runs agree -/

/-- With a flag that never changes, the bars are looked through as they are beforehand. -/
theorem stop?_const (cancelled : Bool) (bars : List (Bar α)) :
    stop? (fun _ ↦ cancelled) bars = barsError? cancelled bars := by
  rcases bars with - | ⟨first, rest⟩
  · rfl
  · rcases cancelled with - | -
    · rw [barsError?_of_ne_nil (by simp), firstFault?, stop?]
      rcases first.fault? none with - | fault
      · exact firstStop?_of_down (fun _ _ _ ↦ rfl) _
      · rfl
    · rcases hfault : first.fault? none with - | fault <;>
        rcases rest with - | ⟨second, rest⟩ <;>
        simp [stop?, firstStop?, barsError?, firstFault?, hfault]

/-- **A run that goes bar by bar is the run that looks through its bars first.** -/
theorem replayByBar_eq_replay (s : Strategy α) (terms : Terms α) (bars : List (Bar α))
    (cancelled : Bool) :
    s.replayByBar terms bars (fun _ ↦ cancelled) = s.replay terms bars cancelled := by
  by_cases hsound : terms.Sound s
  · rw [replayByBar_of_sound hsound, stop?_const]
    exact (replay_of_sound hsound cancelled).symm
  · obtain ⟨which, value, hsettle⟩ := Terms.settle_of_not_sound hsound
    rw [replayByBar_of_settle_error hsettle, replay_of_settle_error hsettle]

/-- **A flag that is raised on the way stops the run at the bar before which it is first up**,
unless the bars before that one make it fail; either way nothing is reported. -/
theorem replayByBar_of_raised {cancelled : Nat → Bool} {k : Nat} (hpos : 1 ≤ k)
    (hlt : k < bars.length) (hdown : ∀ i, 1 ≤ i → i < k → cancelled i = false)
    (hup : cancelled k = true) :
    s.replayByBar terms bars cancelled =
      s.run terms (bars.take k) >>= fun _ ↦ .error (.cancelled k) := by
  by_cases hsound : terms.Sound s
  swap
  · obtain ⟨which, value, hsettle⟩ := Terms.settle_of_not_sound hsound
    rw [replayByBar_of_settle_error hsettle, run, replay_of_settle_error hsettle]
    rfl
  obtain ⟨k, rfl⟩ := Nat.exists_eq_add_of_le' hpos
  rcases bars with - | ⟨first, rest⟩
  · cases hlt
  rw [List.length_cons] at hlt
  rw [replayByBar_of_sound hsound, run_of_sound hsound, List.take_succ_cons,
    barsError?_of_ne_nil (by simp), firstFault?, stop?]
  rcases first.fault? none with - | fault
  · dsimp only
    rw [firstStop?_of_raised hpos (by omega) hdown hup, Nat.add_sub_cancel]
    rcases firstFault? 1 (some first.date) (rest.take k) with - | e <;> rfl
  · rfl

end Strategy

end BarReplay
