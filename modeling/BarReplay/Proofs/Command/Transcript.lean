import BarReplay.Command.Transcript

/-!
# What a job leaves behind

A job only ever adds to its transcript: what it says, prints and writes comes after what was there,
and does not depend on it. `Job.Leaves` says of a job what it ends with and what it adds. It is
settled step by step: the additions of two jobs in a row are joined (`Leaves.bind`), and a job that
fails keeps what it has added so far (`Leaves.bind_error`).

`Job.Meets` is the same with a condition in place of the one result, and is what a proof about a
whole command goes through: it takes the job from its first step on, and the condition collects what
the steps have added.
-/

namespace BarReplay.Command

namespace Transcript

/-- One transcript after the other, channel by channel. -/
instance : Append Transcript :=
  ⟨fun t u ↦ ⟨t.said ++ u.said, t.printed ++ u.printed, t.written ++ u.written⟩⟩

theorem append_def (t u : Transcript) :
    t ++ u = ⟨t.said ++ u.said, t.printed ++ u.printed, t.written ++ u.written⟩ :=
  rfl

@[simp]
theorem append_empty (t : Transcript) : t ++ ({} : Transcript) = t := by
  rw [append_def, String.append_empty, String.append_empty, List.append_nil]

@[simp]
theorem empty_append (t : Transcript) : ({} : Transcript) ++ t = t := by
  rw [append_def, String.empty_append, String.empty_append, List.nil_append]

theorem said_append_said (a b : String) :
    ({ said := a } : Transcript) ++ ({ said := b } : Transcript) = { said := a ++ b } := by
  rw [append_def, String.append_empty, List.append_nil]

theorem written_append_written (a b : List (String × String)) :
    ({ written := a } : Transcript) ++ ({ written := b } : Transcript) = { written := a ++ b } := by
  rw [append_def, String.append_empty]

theorem append_assoc (t u v : Transcript) : t ++ u ++ v = t ++ (u ++ v) := by
  simp only [append_def, String.append_assoc, List.append_assoc]

end Transcript

namespace Job

variable {β γ : Type} {disk : Disk}

/-- The job ends with the result and adds to the transcript, whatever the transcript is. -/
def Leaves (job : Job β) (result : Except Error β) (added : Transcript) : Prop :=
  ∀ t : Transcript, job.run t = (result, t ++ added)

theorem leaves_pure (b : β) : Leaves (pure b) (.ok b) {} := by
  intro t
  rw [Transcript.append_empty]
  rfl

theorem leaves_throw (e : Error) : Leaves (throw e : Job β) (.error e) {} := by
  intro t
  rw [Transcript.append_empty]
  rfl

/-- A job goes on with what came of the job before it. -/
theorem Leaves.bind {x : Job β} {f : β → Job γ} {b : β} {result : Except Error γ}
    {added more : Transcript} (hx : x.Leaves (.ok b) added) (hf : (f b).Leaves result more) :
    (x >>= f).Leaves result (added ++ more) := by
  intro t
  have hgoes : (x >>= f).run t = (f b).run (t ++ added) := by
    show ExceptT.bindCont f (x.run t).1 (x.run t).2 = _
    rw [hx t]
    rfl
  rw [hgoes, hf (t ++ added), Transcript.append_assoc]

/-- What goes on without a word adds nothing. -/
theorem Leaves.bind_silent {x : Job β} {f : β → Job γ} {b : β} {result : Except Error γ}
    {added : Transcript} (hx : x.Leaves (.ok b) added) (hf : (f b).Leaves result {}) :
    (x >>= f).Leaves result added := by
  have h := hx.bind hf
  rwa [Transcript.append_empty] at h

/-- A job that fails is not gone on with. -/
theorem Leaves.bind_error {x : Job β} {f : β → Job γ} {e : Error} {added : Transcript}
    (hx : x.Leaves (.error e) added) : (x >>= f).Leaves (.error e) added := by
  intro t
  show ExceptT.bindCont f (x.run t).1 (x.run t).2 = _
  rw [hx t]
  rfl

theorem leaves_say (line : String) : (say line).Leaves (.ok ()) { said := line ++ "\n" } := by
  intro t
  rw [Transcript.append_def, String.append_empty, List.append_nil, ← String.append_assoc]
  rfl

theorem leaves_write {path text : String} (h : disk.refusal? path = none) :
    (write disk path text).Leaves (.ok ()) { written := [(path, text)] } := by
  intro t
  rw [write, h, Transcript.append_def, String.append_empty, String.append_empty]
  rfl

/-- A result that is there is gone on with. -/
theorem need_ok_bind {b : β} {f : β → Job γ} : need (.ok b) >>= f = f b :=
  rfl

/-- Results that are needed one after the other. -/
theorem need_bind {x : Except Error β} {g : β → Except Error γ} {δ : Type} {f : γ → Job δ} :
    need (x >>= g) >>= f = need x >>= fun b ↦ need (g b) >>= f := by
  rcases x with e | b <;> rfl

theorem leaves_need (result : Except Error β) : (need result).Leaves result {} := by
  cases result with
  | ok b => exact leaves_pure b
  | error e => exact leaves_throw e

/-- Lines as they stand on the channel on which they are said. -/
def spoken : List String → String
  | [] => ""
  | line :: rest => line ++ "\n" ++ spoken rest

/-- What is said, line by line. -/
theorem leaves_forM_lines (lines : List String) :
    (lines.forM say).Leaves (.ok ()) { said := spoken lines } := by
  induction lines with
  | nil => exact leaves_pure ()
  | cons line rest ih =>
    have h := (leaves_say line).bind (f := fun _ ↦ rest.forM say) ih
    rw [Transcript.said_append_said] at h
    exact h

/-- What is said, item by item. -/
theorem leaves_forM_say {ι : Type} (line : ι → String) (items : List ι) :
    ∃ said, (items.forM fun i ↦ say (line i)).Leaves (.ok ()) { said } := by
  have hlines : (forM (items.map line) say).Leaves (.ok ()) { said := spoken (items.map line) } :=
    leaves_forM_lines (items.map line)
  rw [List.forM_map] at hlines
  exact ⟨_, hlines⟩

/-- Files are written in their order, if the disk refuses none of them. -/
theorem leaves_forM_write {files : List (String × String)}
    (h : ∀ f ∈ files, disk.refusal? f.1 = none) :
    (files.forM fun f ↦ write disk f.1 f.2).Leaves (.ok ()) { written := files } := by
  induction files with
  | nil => exact leaves_pure ()
  | cons f rest ih =>
    have hfirst : (write disk f.1 f.2).Leaves (.ok ()) { written := [f] } :=
      leaves_write (h f List.mem_cons_self)
    have hrest := ih fun g hg ↦ h g (List.mem_cons_of_mem f hg)
    have hall := hfirst.bind (f := fun _ ↦ rest.forM fun f ↦ write disk f.1 f.2) hrest
    rw [Transcript.written_append_written] at hall
    exact hall

/-- What a command is finished with that has added this and ends in this way. -/
def ended (added : Transcript) : Except Error Nat → Nat × Transcript
  | .ok status => (status, added)
  | .error e => (e.exitCode, { added with said := added.said ++ report e ++ "\n" })

theorem Leaves.finish {job : Job Nat} {result : Except Error Nat} {added : Transcript}
    (h : job.Leaves result added) : job.finish = ended added result := by
  rw [Job.finish, h, Transcript.empty_append]
  rcases result with e | status <;> rfl

theorem Leaves.finish_ok {job : Job Nat} {status : Nat} {added : Transcript}
    (h : job.Leaves (.ok status) added) : job.finish = (status, added) :=
  h.finish

theorem Leaves.finish_error {job : Job Nat} {e : Error} {added : Transcript}
    (h : job.Leaves (.error e) added) :
    job.finish = (e.exitCode, { added with said := added.said ++ report e ++ "\n" }) :=
  h.finish

/-! ### Conditions on what is left -/

/-- What the job ends with and what it adds meet a condition. -/
def Meets (job : Job β) (condition : Except Error β → Transcript → Prop) : Prop :=
  ∃ result added, job.Leaves result added ∧ condition result added

variable {f : β → Job γ} {condition : Except Error γ → Transcript → Prop}

theorem meets_pure {c : γ} (h : condition (.ok c) {}) : (pure c : Job γ).Meets condition :=
  ⟨.ok c, {}, leaves_pure c, h⟩

theorem meets_throw {e : Error} (h : condition (.error e) {}) :
    (throw e : Job γ).Meets condition :=
  ⟨.error e, {}, leaves_throw e, h⟩

/-- What holds of the way a command ends holds of what it is finished with. -/
theorem Meets.finish {job : Job Nat} {p : Nat × Transcript → Prop}
    (h : job.Meets fun result added ↦ p (ended added result)) : p job.finish := by
  obtain ⟨result, added, hleaves, hp⟩ := h
  rwa [hleaves.finish]

/-- A step that leaves something is taken, and the rest of the job has to meet the condition with
what was left before it. -/
theorem Leaves.meets {x : Job β} {b : β} {added : Transcript} (hx : x.Leaves (.ok b) added)
    (h : (f b).Meets fun result more ↦ condition result (added ++ more)) :
    (x >>= f).Meets condition := by
  obtain ⟨result, more, hf, hcondition⟩ := h
  exact ⟨result, added ++ more, hx.bind hf, hcondition⟩

/-- A step that says something ends the job with its error, or the job goes on with its result. -/
theorem Leaves.meets_either {x : Job β} {result : Except Error β} {added : Transcript}
    (hx : x.Leaves result added) (failed : ∀ e, result = .error e → condition (.error e) added)
    (went : ∀ b, result = .ok b →
      (f b).Meets fun result more ↦ condition result (added ++ more)) :
    (x >>= f).Meets condition := by
  rcases result with e | b
  · exact ⟨.error e, added, hx.bind_error, failed e rfl⟩
  · exact hx.meets (went b rfl)

/-- A result that is needed ends the job with its error, or the job goes on with it. -/
theorem meets_need (result : Except Error β)
    (failed : ∀ e, result = .error e → condition (.error e) {})
    (went : ∀ b, result = .ok b → (f b).Meets condition) :
    (need result >>= f).Meets condition := by
  refine (leaves_need result).meets_either failed fun b hb ↦ ?_
  simp only [Transcript.empty_append]
  exact went b hb

end Job

end BarReplay.Command
