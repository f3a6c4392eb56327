import BarReplay.Proofs.Settings.SoundTerms
import BarReplay.Text.Words

/-!
# Cutting and trimming texts

A text without separators is one piece, and what stands before the first separator is the first
piece (`pieces_append_cons`). So texts without separators, joined with one between them, are cut
into themselves again (`pieces_intercalate`). Blanks around a text are lost when it is trimmed
(`exists_padded`) and nothing else is.
-/

namespace BarReplay.Text

/-! ### Pieces -/

section Pieces

variable {p : Char → Bool} {cs : List Char}

theorem pieces_of_forall_not (h : ∀ c ∈ cs, p c = false) : pieces p cs = [cs] := by
  induction cs with
  | nil => rfl
  | cons c cs ih =>
    have hc : ¬ p c = true := by simp [h c List.mem_cons_self]
    rw [pieces, if_neg hc, ih fun d hd ↦ h d (List.mem_cons_of_mem c hd)]

/-- What stands before the first separator is the first piece. -/
theorem pieces_append_cons (h : ∀ c ∈ cs, p c = false) {d : Char} (hd : p d = true)
    (rest : List Char) : pieces p (cs ++ d :: rest) = cs :: pieces p rest := by
  induction cs with
  | nil => rw [List.nil_append, pieces, if_pos hd]
  | cons c cs ih =>
    have hc : ¬ p c = true := by simp [h c List.mem_cons_self]
    rw [List.cons_append, pieces, if_neg hc, ih fun d hd ↦ h d (List.mem_cons_of_mem c hd)]

/-- Every text has a first piece. -/
theorem exists_pieces_eq_cons (cs : List Char) : ∃ piece more, pieces p cs = piece :: more := by
  cases cs with
  | nil => exact ⟨[], [], rfl⟩
  | cons c cs =>
    rw [pieces]
    split_ifs
    · exact ⟨_, _, rfl⟩
    · split <;> exact ⟨_, _, rfl⟩

/-- **Texts joined by a separator are cut into themselves again.** -/
theorem pieces_intercalate {d : Char} (hd : p d = true) {texts : List (List Char)}
    (hsome : texts ≠ []) (h : ∀ text ∈ texts, ∀ c ∈ text, p c = false) :
    pieces p ([d].intercalate texts) = texts := by
  induction texts with
  | nil => exact absurd rfl hsome
  | cons text rest ih =>
    have htext := h text List.mem_cons_self
    cases rest with
    | nil =>
      rw [List.intercalate_singleton]
      exact pieces_of_forall_not htext
    | cons next rest =>
      rw [List.intercalate_cons_cons, List.append_assoc, List.singleton_append,
        pieces_append_cons htext hd,
        ih (List.cons_ne_nil next rest) fun text ht ↦ h text (List.mem_cons_of_mem _ ht)]

/-- The characters of joined texts are theirs and the separator. -/
theorem mem_intercalate {c d : Char} {texts : List (List Char)}
    (h : c ∈ [d].intercalate texts) : (∃ text ∈ texts, c ∈ text) ∨ c = d := by
  induction texts with
  | nil => simp at h
  | cons text rest ih =>
    cases rest with
    | nil => exact .inl ⟨text, List.mem_singleton_self text, by simpa using h⟩
    | cons next rest =>
      rw [List.intercalate_cons_cons, List.mem_append, List.mem_append, List.mem_singleton] at h
      rcases h with (h | rfl) | h
      · exact .inl ⟨text, List.mem_cons_self, h⟩
      · exact .inr rfl
      · exact (ih h).imp_left fun ⟨text, htext, hc⟩ ↦ ⟨text, List.mem_cons_of_mem _ htext, hc⟩

/-- What goes on without a separator belongs to the last piece. -/
theorem pieces_append_of_forall_not {more : List Char} (h : ∀ c ∈ more, p c = false)
    (cs : List Char) :
    ∃ first last, pieces p cs = first ++ [last] ∧
      pieces p (cs ++ more) = first ++ [last ++ more] := by
  induction cs with
  | nil => exact ⟨[], [], rfl, pieces_of_forall_not h⟩
  | cons c cs ih =>
    obtain ⟨first, last, hcs, hmore⟩ := ih
    rw [List.cons_append, pieces, pieces, hcs, hmore]
    split_ifs
    · exact ⟨[] :: first, last, rfl, rfl⟩
    · cases first with
      | nil => exact ⟨[], c :: last, rfl, rfl⟩
      | cons piece first => exact ⟨(c :: piece) :: first, last, rfl, rfl⟩

end Pieces

/-! ### Trimming -/

/-- The text without the blanks at its end. -/
def trimEnd (cs : List Char) : List Char :=
  (skipBlank cs.reverse).reverse

theorem trim_eq (cs : List Char) : trim cs = trimEnd (skipBlank cs) :=
  rfl

/-- Nothing but blanks is lost at the end of a text. -/
theorem exists_trimEnd_append (cs : List Char) :
    ∃ after, (∀ c ∈ after, isBlank c = true) ∧ cs = trimEnd cs ++ after := by
  refine ⟨(cs.reverse.takeWhile isBlank).reverse,
    fun c hc ↦ List.mem_takeWhile_imp (List.mem_reverse.1 hc), ?_⟩
  calc cs
      = (cs.reverse.takeWhile isBlank ++ cs.reverse.dropWhile isBlank).reverse := by
        rw [List.takeWhile_append_dropWhile, List.reverse_reverse]
    _ = trimEnd cs ++ (cs.reverse.takeWhile isBlank).reverse := List.reverse_append

theorem mem_of_mem_trimEnd {c : Char} {cs : List Char} (h : c ∈ trimEnd cs) : c ∈ cs := by
  obtain ⟨after, -, hcs⟩ := exists_trimEnd_append cs
  rw [hcs]
  exact List.mem_append_left after h

/-- A character that is not blank stays, and so does everything before it. -/
theorem trimEnd_append_cons {d : Char} (hd : isBlank d = false) (cs more : List Char) :
    trimEnd (cs ++ d :: more) = cs ++ d :: trimEnd more := by
  have hstop : (d :: cs.reverse).dropWhile isBlank = d :: cs.reverse :=
    List.dropWhile_cons_of_neg (by simp [hd])
  have hreverse : (cs ++ d :: more).reverse = more.reverse ++ d :: cs.reverse := by simp
  rw [trimEnd, trimEnd, hreverse, skipBlank, List.dropWhile_append]
  split_ifs with hmore
  · simp [skipBlank, hstop, List.isEmpty_iff.1 hmore]
  · simp [skipBlank]

/-- Blanks at the end of a text are lost when it is trimmed. -/
theorem trim_append_blank {after : List Char} (h : ∀ c ∈ after, isBlank c = true)
    (cs : List Char) : trim (cs ++ after) = trim cs := by
  have hreverse : ∀ c ∈ after.reverse, isBlank c = true := fun c hc ↦ h c (List.mem_reverse.1 hc)
  have hskip : skipBlank (cs ++ after) =
      if (skipBlank cs).isEmpty then [] else skipBlank cs ++ after := by
    rw [skipBlank, List.dropWhile_append, List.dropWhile_eq_nil_iff.2 h]
    rfl
  rw [trim, trim, hskip]
  split_ifs with hcs
  · rw [List.isEmpty_iff.1 hcs]
  · rw [List.reverse_append]
    exact congrArg List.reverse (List.dropWhile_append_of_pos hreverse)

/-- Blanks at the start of a text are lost when it is trimmed. -/
theorem trim_blank_append {before : List Char} (h : ∀ c ∈ before, isBlank c = true)
    (cs : List Char) : trim (before ++ cs) = trim cs := by
  have hskip : skipBlank (before ++ cs) = skipBlank cs := List.dropWhile_append_of_pos h
  rw [trim, trim, hskip]

theorem trim_trimEnd (cs : List Char) : trim (trimEnd cs) = trim cs := by
  obtain ⟨after, hafter, hcs⟩ := exists_trimEnd_append cs
  conv_rhs => rw [hcs]
  exact (trim_append_blank hafter _).symm

/-- A text that ends with no blank is trimmed at its start only. -/
theorem trim_concat {c : Char} (hc : isBlank c = false) (cs : List Char) :
    trim (cs ++ [c]) = skipBlank (cs ++ [c]) := by
  obtain ⟨ds, hskip⟩ : ∃ ds, skipBlank (cs ++ [c]) = ds ++ [c] := by
    rw [skipBlank, List.dropWhile_append]
    split_ifs
    · exact ⟨[], List.dropWhile_cons_of_neg (by simp [hc])⟩
    · exact ⟨_, rfl⟩
  rw [trim_eq, hskip, trimEnd_append_cons hc]
  rfl

/-- Nothing but blanks is lost when a text is trimmed. -/
theorem exists_padded (cs : List Char) :
    ∃ before after, (∀ c ∈ before, isBlank c = true) ∧ (∀ c ∈ after, isBlank c = true) ∧
      cs = before ++ trim cs ++ after := by
  obtain ⟨after, hafter, hskip⟩ := exists_trimEnd_append (skipBlank cs)
  refine ⟨cs.takeWhile isBlank, after, fun c hc ↦ List.mem_takeWhile_imp hc, hafter, ?_⟩
  rw [List.append_assoc, trim_eq, ← hskip]
  exact List.takeWhile_append_dropWhile.symm

/-- Blanks around a text make no difference to what its trimmed pieces are. -/
theorem map_trim_pieces_padded {p : Char → Bool} (hp : ∀ c, isBlank c = true → p c = false)
    {before after : List Char} (hbefore : ∀ c ∈ before, isBlank c = true)
    (hafter : ∀ c ∈ after, isBlank c = true) (cs : List Char) :
    (pieces p (before ++ cs ++ after)).map trim = (pieces p cs).map trim := by
  have hstart : (pieces p (before ++ cs)).map trim = (pieces p cs).map trim := by
    induction before with
    | nil => rfl
    | cons c before ih =>
      obtain ⟨hc, hrest⟩ := List.forall_mem_cons.1 hbefore
      have hnot : ¬ p c = true := by simp [hp c hc]
      obtain ⟨piece, more, hpieces⟩ := exists_pieces_eq_cons (p := p) (before ++ cs)
      rw [← ih hrest, List.cons_append, pieces, if_neg hnot, hpieces]
      have htrim : trim ([c] ++ piece) = trim piece :=
        trim_blank_append (List.forall_mem_singleton.2 hc) piece
      exact congrArg (· :: more.map trim) htrim
  obtain ⟨first, last, hpieces, hmore⟩ :=
    pieces_append_of_forall_not (fun c hc ↦ hp c (hafter c hc)) (before ++ cs)
  rw [← hstart, hpieces, hmore, List.map_append, List.map_append, List.map_singleton,
    List.map_singleton, trim_append_blank hafter]

theorem ne_bar_of_isBlank {c : Char} (hc : isBlank c = true) : (c == '|') = false := by
  rw [beq_eq_false_iff_ne]
  rintro rfl
  cases hc

/-- Blanks around a list on one line make no difference. -/
theorem listed_trim (cs : List Char) : listed (trim cs) = listed cs := by
  obtain ⟨before, after, hbefore, hafter, hcs⟩ := exists_padded cs
  have hpieces := map_trim_pieces_padded (fun c ↦ ne_bar_of_isBlank) hbefore hafter (trim cs)
  rw [listed, listed, ← hpieces, ← hcs]

/-! ### Lines -/

/-- The lines of a text with a line feed are the line before it and the lines after it. -/
theorem lines_append_cons {line : List Char} (h : ∀ c ∈ line, (c == '\n') = false)
    (rest : List Char) : lines (line ++ '\n' :: rest) =
      (if line.getLast? = some '\r' then line.dropLast else line) :: lines rest := by
  obtain ⟨piece, more, hpieces⟩ := exists_pieces_eq_cons (p := (· == '\n')) rest
  have hcut : pieces (· == '\n') (line ++ '\n' :: rest) = line :: piece :: more := by
    rw [pieces_append_cons h (beq_self_eq_true _), hpieces]
  rw [lines, lines, hcut, hpieces, List.getLast?_cons_cons, List.dropLast_cons_cons]
  by_cases hlast : (piece :: more).getLast? = some []
  · rw [if_pos hlast, if_pos hlast, List.map_cons]
  · rw [if_neg hlast, if_neg hlast, List.map_cons]

/-- A carriage return at the end of a line is lost when the line is trimmed. -/
theorem trim_lineEnd (line : List Char) :
    trim (if line.getLast? = some '\r' then line.dropLast else line) = trim line := by
  split_ifs with hlast
  · have hreturn : ∀ c ∈ ['\r'], isBlank c = true := by
      simp only [List.mem_singleton, forall_eq]
      rfl
    rw [← trim_append_blank hreturn line.dropLast, List.dropLast_append_getLast? _ hlast]
  · rfl

end BarReplay.Text
