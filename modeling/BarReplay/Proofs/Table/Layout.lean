import BarReplay.Proofs.Rule.Tokens
import BarReplay.Table.Records

/-!
# How records are laid out

Records are read byte by byte, but they stand in the input as pieces: a record takes up its body,
which stays within the record from its first byte on and ends outside of quotes, and behind it one
or more ends of lines (`Piece`). What stands before a record is the mark, blank lines and the pieces
of the records before it (`Layout`), and the records of the input are read off these pieces, each
from its own body and from nothing else (`Layout.records_eq`). Every record has its layout
(`exists_layout`).
-/

namespace BarReplay.Table

/-! ### One byte -/

/-- Where reading stands after one more byte. -/
def Mode.after (mode : Mode) (b : UInt8) : Mode :=
  if mode = .quoted then if isQuote b then .quote else .quoted
  else if (mode = .quote ∨ mode = .between ∨ mode = .field) ∧ isQuote b then .quoted
  else
    match stepOf b with
    | .nextField => .field
    | .nextRecord => .between
    | .keep => .plain

/-- What has been read of a record after one more byte of it. -/
def Partial.after (p : Partial) (mode : Mode) (b : UInt8) : Partial :=
  if mode = .quoted then if isQuote b then p else p.push b
  else if mode = .quote ∧ isQuote b then p.push b
  else if (mode = .between ∨ mode = .field) ∧ isQuote b then p
  else if isComma b then p.next
  else p.push b

variable {mode : Mode} {here : Place} {p : Partial} {b e : UInt8} {bs body : List UInt8}

theorem isQuote_of_isEnd (h : isEnd b = true) : isQuote b = false := by
  obtain rfl | rfl : b = 0x0A ∨ b = 0x0D := by simpa [isEnd] using h
  all_goals rfl

theorem stepOf_eq_nextRecord_iff : stepOf b = .nextRecord ↔ isEnd b = true := by
  unfold stepOf
  split_ifs with hcomma hend
  · obtain rfl : b = 0x2C := by simpa [isComma] using hcomma
    exact iff_of_false nofun (by decide)
  · exact iff_of_true rfl hend
  · exact iff_of_false nofun hend

/-- Only an end of a line outside of quotes ends a record. -/
theorem after_eq_between_iff : mode.after b = .between ↔ isEnd b = true ∧ mode ≠ .quoted := by
  unfold Mode.after
  split_ifs with hquoted hquote hstart
  · exact iff_of_false nofun fun h ↦ h.2 hquoted
  · exact iff_of_false nofun fun h ↦ h.2 hquoted
  · refine iff_of_false nofun fun h ↦ ?_
    exact absurd (hstart.2.symm.trans (isQuote_of_isEnd h.1)) nofun
  · rw [← stepOf_eq_nextRecord_iff, and_iff_left hquoted]
    cases stepOf b <;> simp

/-- What is left open at the end of the input is closed there. -/
theorem recordsFrom_nil (hmode : mode ≠ .between) : recordsFrom mode here p [] = [p.finish] := by
  cases mode with
  | between => exact absurd rfl hmode
  | field | plain | quoted | quote => rfl

/-- Ends of lines before a record are passed over. -/
theorem recordsFrom_blank (h : isEnd b = true) (bs : List UInt8) :
    recordsFrom .between here p (b :: bs) = recordsFrom .between (here.after b) p bs := by
  simp [recordsFrom, h]

/-- A byte of a record is read into the record. -/
theorem recordsFrom_within (h : mode.after b ≠ .between) (bs : List UInt8) :
    recordsFrom mode here p (b :: bs) =
      recordsFrom (mode.after b) (here.after b) (p.after mode b) bs := by
  have hend : ¬ (mode = .between ∧ isEnd b = true) := by
    rintro ⟨rfl, hend⟩
    exact h (after_eq_between_iff.2 ⟨hend, nofun⟩)
  rw [recordsFrom, if_neg hend]
  cases mode <;> cases hquote : isQuote b <;> cases hcomma : isComma b <;>
    cases hend : isEnd b <;> simp_all [Mode.after, Partial.after, stepOf]

/-- The end of a record. -/
theorem recordsFrom_end (hmode : mode ≠ .between) (h : mode.after b = .between)
    (bs : List UInt8) : recordsFrom mode here p (b :: bs) =
      p.finish :: recordsFrom .between (here.after b) (.empty (here.after b)) bs := by
  obtain ⟨hend, hquoted⟩ := after_eq_between_iff.1 h
  have hquote := isQuote_of_isEnd hend
  have hstep := stepOf_eq_nextRecord_iff.2 hend
  simp [recordsFrom, hmode, hquoted, hquote, hstep]

/-! ### The bytes of one record -/

/-- Reading the bytes stays within a record and ends outside of quotes. -/
def IsBody : Mode → List UInt8 → Prop
  | mode, [] => mode ≠ .between ∧ mode ≠ .quoted
  | mode, b :: bs => mode.after b ≠ .between ∧ IsBody (mode.after b) bs

instance decidableIsBody : (mode : Mode) → (bs : List UInt8) → Decidable (IsBody mode bs)
  | _, [] => inferInstanceAs (Decidable (_ ∧ _))
  | mode, b :: bs =>
    have := decidableIsBody (mode.after b) bs
    inferInstanceAs (Decidable (_ ∧ _))

/-- The fields of the records in the bytes. -/
def fieldRows (bs : List UInt8) : List (List (List UInt8)) :=
  (recordsFrom .between ⟨0, 1⟩ (.empty ⟨0, 1⟩) bs).map Record.fields

/-- The fields of the first record in the bytes. -/
def fieldsOf (bs : List UInt8) : List (List UInt8) :=
  (fieldRows bs).headD []

/-- What the fields of records are does not depend on their places. -/
theorem map_fields_recordsFrom {here' : Place} {p' : Partial} (hfields : p.fields = p'.fields)
    (hfield : p.field = p'.field) :
    (recordsFrom mode here p bs).map Record.fields =
      (recordsFrom mode here' p' bs).map Record.fields := by
  -- both readings are in the same mode all along, so they take the same step at every byte
  induction bs generalizing mode here here' p p' with
  | nil => cases mode <;> simp [recordsFrom, Partial.finish, Partial.next, hfields, hfield]
  | cons b bs ih =>
    by_cases hafter : mode.after b = .between
    · by_cases hmode : mode = .between
      · subst hmode
        have hend := (after_eq_between_iff.1 hafter).1
        rw [recordsFrom_blank hend, recordsFrom_blank hend]
        exact ih hfields hfield
      · have hfinish : p.finish.fields = p'.finish.fields := by
          simp only [Partial.finish, Partial.next, hfields, hfield]
        rw [recordsFrom_end hmode hafter, recordsFrom_end hmode hafter, List.map_cons,
          List.map_cons, hfinish]
        exact congrArg (_ :: ·) (ih rfl rfl)
    · rw [recordsFrom_within hafter, recordsFrom_within hafter]
      refine ih ?_ ?_ <;> simp only [Partial.after] <;> split_ifs <;>
        simp [Partial.push, Partial.next, hfields, hfield]

/-- A body is read as one record, whether an end of a line follows or nothing at all. -/
theorem recordsFrom_body (hbody : IsBody mode body) (he : isEnd e = true) (bs : List UInt8) :
    ∃ r there, recordsFrom mode here p body = [r] ∧
      recordsFrom mode here p (body ++ e :: bs) =
        r :: recordsFrom .between there (.empty there) bs := by
  induction body generalizing mode here p with
  | nil =>
    obtain ⟨hmode, hquoted⟩ := hbody
    exact ⟨p.finish, here.after e, recordsFrom_nil hmode,
      recordsFrom_end hmode (after_eq_between_iff.2 ⟨he, hquoted⟩) bs⟩
  | cons b body ih =>
    obtain ⟨hwithin, hbody⟩ := hbody
    rw [List.cons_append, recordsFrom_within hwithin, recordsFrom_within hwithin]
    exact ih hbody

/-- Within a record, the bytes that are left hold only this record, or go on behind its body. -/
theorem split_within (hmode : mode ≠ .between) (bs : List UInt8) :
    (∀ here p, (recordsFrom mode here p bs).length = 1) ∨
      ∃ body e rest, bs = body ++ e :: rest ∧ IsBody mode body ∧ isEnd e = true := by
  induction bs generalizing mode with
  | nil => exact .inl fun here p ↦ by rw [recordsFrom_nil hmode, List.length_singleton]
  | cons b bs ih =>
    by_cases hafter : mode.after b = .between
    · obtain ⟨hend, hquoted⟩ := after_eq_between_iff.1 hafter
      exact .inr ⟨[], b, bs, rfl, ⟨hmode, hquoted⟩, hend⟩
    · obtain hone | ⟨body, e, rest, rfl, hbody, he⟩ := ih hafter
      · exact .inl fun here p ↦ by rw [recordsFrom_within hafter, hone]
      · exact .inr ⟨b :: body, e, rest, rfl, ⟨hafter, hbody⟩, he⟩

/-! ### The bytes of all records -/

theorem fieldRows_blank {blank : List UInt8} (h : ∀ b ∈ blank, isEnd b = true) (bs : List UInt8) :
    fieldRows (blank ++ bs) = fieldRows bs := by
  induction blank with
  | nil => rfl
  | cons b blank ih =>
    obtain ⟨hb, hblank⟩ := List.forall_mem_cons.1 h
    rw [← ih hblank, fieldRows, fieldRows, List.cons_append, recordsFrom_blank hb]
    exact map_fields_recordsFrom rfl rfl

theorem fieldRows_body (hbody : IsBody .between body) (he : isEnd e = true) (bs : List UInt8) :
    fieldRows (body ++ e :: bs) = fieldsOf body :: fieldRows bs := by
  obtain ⟨r, there, hbodyRows, hrows⟩ := recordsFrom_body hbody he bs
  have hfirst : fieldsOf body = r.fields := by rw [fieldsOf, fieldRows, hbodyRows]; rfl
  rw [fieldRows, hrows, List.map_cons, hfirst]
  exact congrArg (_ :: ·) (map_fields_recordsFrom rfl rfl)

/-- The bytes begin with a record, not with an end of a line. -/
def BeginsRecord (bs : List UInt8) : Prop :=
  ∃ b rest, bs = b :: rest ∧ isEnd b = false

/-- A byte that ends no line begins a record. -/
theorem after_between_ne (hb : isEnd b = false) : Mode.between.after b ≠ .between :=
  fun h ↦ absurd ((after_eq_between_iff.1 h).1.symm.trans hb) nofun

theorem fieldRows_ne_nil (hb : isEnd b = false) (bs : List UInt8) : fieldRows (b :: bs) ≠ [] := by
  have hafter := after_between_ne hb
  rw [fieldRows, recordsFrom_within hafter]
  obtain hone | ⟨body, e, rest, rfl, hbody, he⟩ := split_within hafter bs
  · intro hnil
    have hlength := hone ((⟨0, 1⟩ : Place).after b) ((Partial.empty ⟨0, 1⟩).after .between b)
    rw [List.map_eq_nil_iff.1 hnil] at hlength
    cases hlength
  · obtain ⟨r, there, -, hrows⟩ := recordsFrom_body hbody he rest
    rw [hrows]
    exact nofun

/-- The bytes of a record, and the ends of lines behind it. -/
structure Piece where
  body : List UInt8
  ends : List UInt8
  isBody : IsBody .between body
  isEnds : ends ≠ [] ∧ ∀ b ∈ ends, isEnd b = true

/-- All bytes of the piece. -/
def Piece.bytes (piece : Piece) : List UInt8 :=
  piece.body ++ piece.ends

/-- The byte order mark of the input, if it has one. -/
def markOf : List UInt8 → List UInt8
  | 0xEF :: 0xBB :: 0xBF :: _ => [0xEF, 0xBB, 0xBF]
  | _ => []

/-- A place in the input at which a record starts: blank lines, the records before it, and what
follows from there. -/
structure Layout (input : List UInt8) where
  blank : List UInt8
  pieces : List Piece
  rest : List UInt8
  isBlank : ∀ b ∈ blank, isEnd b = true
  isRest : BeginsRecord rest
  input_eq : input = markOf input ++ (blank ++ (pieces.flatMap Piece.bytes ++ rest))

theorem map_fields_records (input bs : List UInt8) (h : input = markOf input ++ bs) :
    (records input).map Record.fields = fieldRows bs := by
  unfold records
  split
  next bs' =>
    obtain rfl : bs' = bs := by simpa [markOf] using h
    exact map_fields_recordsFrom rfl rfl
  next hnone =>
    have hmark : markOf input = [] := by
      unfold markOf
      split
      next => exact absurd rfl (hnone _)
      next => rfl
    rw [hmark, List.nil_append] at h
    rw [h, fieldRows]

theorem fieldRows_pieces (pieces : List Piece) (bs : List UInt8) :
    fieldRows (pieces.flatMap Piece.bytes ++ bs) =
      pieces.map (fun piece ↦ fieldsOf piece.body) ++ fieldRows bs := by
  induction pieces with
  | nil => rfl
  | cons piece pieces ih =>
    obtain ⟨body, ends, hbody, hsome, hends⟩ := piece
    obtain ⟨e, ends, rfl⟩ := List.exists_cons_of_ne_nil hsome
    obtain ⟨he, hends⟩ := List.forall_mem_cons.1 hends
    rw [List.flatMap_cons, List.map_cons, Piece.bytes, List.append_assoc, List.append_assoc,
      List.cons_append, fieldRows_body hbody he, fieldRows_blank hends, ih]
    rfl

/-- **The records of an input are read off its pieces**, each from its own body. -/
theorem Layout.records_eq {input : List UInt8} (layout : Layout input) :
    ∃ more, (records input).map Record.fields =
      layout.pieces.map (fun piece ↦ fieldsOf piece.body) ++ fieldsOf layout.rest :: more := by
  rw [map_fields_records input _ layout.input_eq, fieldRows_blank layout.isBlank, fieldRows_pieces]
  obtain ⟨b, bs, hrest, hb⟩ := layout.isRest
  obtain ⟨fields, more, hrows⟩ := List.exists_cons_of_ne_nil (fieldRows_ne_nil hb bs)
  exact ⟨more, by rw [fieldsOf, hrest, hrows]; rfl⟩

/-- A record starts behind blank lines only. -/
theorem exists_start {bs : List UInt8} (h : fieldRows bs ≠ []) : ∃ blank b rest,
    bs = blank ++ b :: rest ∧ (∀ b ∈ blank, isEnd b = true) ∧ isEnd b = false := by
  induction bs with
  | nil => exact absurd rfl h
  | cons b bs ih =>
    cases hb : isEnd b with
    | false => exact ⟨[], b, bs, rfl, nofun, hb⟩
    | true =>
      have hone : ∀ c ∈ [b], isEnd c = true := List.forall_mem_singleton.2 hb
      have hrows : fieldRows (b :: bs) = fieldRows bs := fieldRows_blank hone bs
      obtain ⟨blank, b', rest, rfl, hblank, hb'⟩ := ih (hrows ▸ h)
      exact ⟨b :: blank, b', rest, rfl, List.forall_mem_cons.2 ⟨hb, hblank⟩, hb'⟩

/-- Bytes with enough records are laid out in pieces. -/
theorem exists_pieces {bs : List UInt8} {front more : List (List (List UInt8))}
    {fields : List (List UInt8)} (h : fieldRows bs = front ++ fields :: more) :
    ∃ (blank : List UInt8) (pieces : List Piece) (rest : List UInt8),
      bs = blank ++ (pieces.flatMap Piece.bytes ++ rest) ∧ (∀ b ∈ blank, isEnd b = true) ∧
      BeginsRecord rest ∧ pieces.map (fun piece ↦ fieldsOf piece.body) = front ∧
      fieldsOf rest = fields := by
  induction front generalizing bs with
  | nil =>
    obtain ⟨blank, b, rest, rfl, hblank, hb⟩ := exists_start (by rw [h]; exact nofun)
    rw [fieldRows_blank hblank] at h
    exact ⟨blank, [], b :: rest, rfl, hblank, ⟨b, rest, rfl, hb⟩, rfl, by rw [fieldsOf, h]; rfl⟩
  | cons first front ih =>
    obtain ⟨blank, b, rest, rfl, hblank, hb⟩ := exists_start (by rw [h]; exact nofun)
    have hafter := after_between_ne hb
    rw [fieldRows_blank hblank] at h
    obtain hone | ⟨body, e, rest, rfl, hbody, he⟩ := split_within hafter rest
    · -- there are two records at least
      have hlength := congrArg List.length h
      rw [fieldRows, recordsFrom_within hafter, List.length_map, hone] at hlength
      simp at hlength
    · have hpiece : IsBody .between (b :: body) := ⟨hafter, hbody⟩
      have hrows := fieldRows_body hpiece he rest
      rw [List.cons_append] at hrows
      obtain ⟨hfirst, hfront⟩ := List.cons.inj (hrows.symm.trans h)
      obtain ⟨blank', pieces, rest', rfl, hblank', hrest, rfl, hfields⟩ := ih hfront
      refine ⟨blank, ⟨b :: body, e :: blank', hpiece, nofun, ?_⟩ :: pieces, rest', ?_, hblank,
        hrest, ?_, hfields⟩
      · exact List.forall_mem_cons.2 ⟨he, hblank'⟩
      · simp [Piece.bytes]
      · rw [List.map_cons, hfirst]

/-- **Every record of an input has its layout.** -/
theorem exists_layout {input : List UInt8} {front more : List (List (List UInt8))}
    {fields : List (List UInt8)}
    (h : (records input).map Record.fields = front ++ fields :: more) :
    ∃ layout : Layout input, layout.pieces.map (fun piece ↦ fieldsOf piece.body) = front ∧
      fieldsOf layout.rest = fields := by
  obtain ⟨bs, hinput⟩ : ∃ bs, input = markOf input ++ bs := by
    unfold markOf
    split
    next bs => exact ⟨bs, rfl⟩
    next => exact ⟨input, rfl⟩
  rw [map_fields_records input bs hinput] at h
  obtain ⟨blank, pieces, rest, rfl, hblank, hrest, hfront, hfields⟩ := exists_pieces h
  exact ⟨⟨blank, pieces, rest, hblank, hrest, hinput⟩, hfront, hfields⟩

/-! ### One layout -/

/-- A body begins with a byte of its record. -/
theorem IsBody.beginsRecord (h : IsBody .between body) : BeginsRecord body := by
  cases body with
  | nil => exact absurd rfl h.1
  | cons b bs =>
    refine ⟨b, bs, rfl, Bool.eq_false_iff.2 fun hb ↦ h.1 ?_⟩
    exact after_eq_between_iff.2 ⟨hb, nofun⟩

theorem BeginsRecord.append (h : BeginsRecord bs) (more : List UInt8) :
    BeginsRecord (bs ++ more) := by
  obtain ⟨b, rest, rfl, hb⟩ := h
  exact ⟨b, rest ++ more, rfl, hb⟩

/-- Where a record may end, it does not go on. -/
theorem IsBody.not_cons (h : IsBody mode []) (he : isEnd e = true) : ¬ IsBody mode (e :: bs) :=
  fun h' ↦ h'.1 (after_eq_between_iff.2 ⟨he, h.2⟩)

/-- A body goes up to the first end of a line that it does not go on behind. -/
theorem IsBody.append_inj {body' more more' : List UInt8} {e' : UInt8} (h : IsBody mode body)
    (h' : IsBody mode body') (he : isEnd e = true) (he' : isEnd e' = true)
    (heq : body ++ e :: more = body' ++ e' :: more') :
    body = body' ∧ e :: more = e' :: more' := by
  induction body generalizing mode body' with
  | nil =>
    cases body' with
    | nil => exact ⟨rfl, heq⟩
    | cons b' body' =>
      obtain ⟨rfl, -⟩ := List.cons.inj heq
      exact absurd h' (h.not_cons he)
  | cons b body ih =>
    cases body' with
    | nil =>
      obtain ⟨rfl, -⟩ := List.cons.inj heq
      exact absurd h (h'.not_cons he')
    | cons b' body' =>
      obtain ⟨rfl, hrest⟩ := List.cons.inj heq
      obtain ⟨rfl, hmore⟩ := ih h.2 h'.2 hrest
      exact ⟨rfl, hmore⟩

/-- Ends of lines go on up to the next record. -/
theorem ends_append_inj {ends ends' rest rest' : List UInt8} (h : ∀ b ∈ ends, isEnd b = true)
    (h' : ∀ b ∈ ends', isEnd b = true) (hrest : BeginsRecord rest) (hrest' : BeginsRecord rest')
    (heq : ends ++ rest = ends' ++ rest') : ends = ends' ∧ rest = rest' := by
  have hstop {rest : List UInt8} (hrest : BeginsRecord rest) : rest.head?.any isEnd = false := by
    obtain ⟨b, bs, rfl, hb⟩ := hrest
    exact hb
  constructor
  · rw [← takeWhile_run h (hstop hrest), heq, takeWhile_run h' (hstop hrest')]
  · rw [← dropWhile_run h (hstop hrest), heq, dropWhile_run h' (hstop hrest')]

theorem beginsRecord_pieces (pieces : List Piece) {rest : List UInt8} (h : BeginsRecord rest) :
    BeginsRecord (pieces.flatMap Piece.bytes ++ rest) := by
  cases pieces with
  | nil => exact h
  | cons piece pieces =>
    rw [List.flatMap_cons, Piece.bytes, List.append_assoc, List.append_assoc]
    exact piece.isBody.beginsRecord.append _

/-- Bytes are laid out in a number of pieces in one way only. -/
theorem pieces_append_inj {pieces pieces' : List Piece} {rest rest' : List UInt8}
    (hrest : BeginsRecord rest) (hrest' : BeginsRecord rest')
    (hlength : pieces.length = pieces'.length)
    (heq : pieces.flatMap Piece.bytes ++ rest = pieces'.flatMap Piece.bytes ++ rest') :
    pieces = pieces' ∧ rest = rest' := by
  induction pieces generalizing pieces' with
  | nil =>
    obtain rfl := List.length_eq_zero_iff.1 hlength.symm
    exact ⟨rfl, heq⟩
  | cons piece pieces ih =>
    obtain ⟨piece', pieces', rfl⟩ := List.exists_cons_of_length_eq_add_one hlength.symm
    obtain ⟨body, ends, hbody, hsome, hends⟩ := piece
    obtain ⟨body', ends', hbody', hsome', hends'⟩ := piece'
    obtain ⟨e, ends, rfl⟩ := List.exists_cons_of_ne_nil hsome
    obtain ⟨e', ends', rfl⟩ := List.exists_cons_of_ne_nil hsome'
    simp only [List.flatMap_cons, Piece.bytes, List.append_assoc, List.cons_append] at heq
    obtain ⟨rfl, hafter⟩ := hbody.append_inj hbody' (hends e List.mem_cons_self)
      (hends' e' List.mem_cons_self) heq
    obtain ⟨hsame, hmore⟩ := ends_append_inj hends hends' (beginsRecord_pieces pieces hrest)
      (beginsRecord_pieces pieces' hrest') hafter
    obtain ⟨rfl, rfl⟩ := ih (Nat.succ.inj hlength) hmore
    obtain ⟨rfl, rfl⟩ := List.cons.inj hsame
    exact ⟨rfl, rfl⟩

/-- **The number of a record decides its layout.** -/
theorem Layout.eq_of_length {input : List UInt8} {layout layout' : Layout input}
    (h : layout.pieces.length = layout'.pieces.length) : layout = layout' := by
  obtain ⟨blank, pieces, rest, hblank, hrest, hinput⟩ := layout
  obtain ⟨blank', pieces', rest', hblank', hrest', hinput'⟩ := layout'
  obtain ⟨rfl, hpieces⟩ := ends_append_inj hblank hblank' (beginsRecord_pieces pieces hrest)
    (beginsRecord_pieces pieces' hrest') (List.append_cancel_left (hinput.symm.trans hinput'))
  obtain ⟨rfl, rfl⟩ := pieces_append_inj hrest hrest' h hpieces
  rfl

end BarReplay.Table
