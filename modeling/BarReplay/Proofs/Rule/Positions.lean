import BarReplay.Proofs.Rule.Cursor
import BarReplay.Proofs.Rule.Viability

/-!
# Positions of errors

The position of an error is where the text goes wrong (`Expr.parse_error_position`): it is a place
between two characters of the text, or at one of its ends, and the text before it is the beginning
of a rule. Such a place is known by the characters before it: the bytes that they take are the
position (`Text.isValid_iff_exists_byteLength`).
-/

namespace BarReplay

namespace Text

theorem utf8ByteSize_ofList (cs : List Char) : (String.ofList cs).utf8ByteSize = byteLength cs := by
  rw [String.utf8ByteSize_ofList]
  induction cs with
  | nil => rfl
  | cons c cs ih => rw [String.utf8Len_cons, ih, byteLength_cons, Nat.add_comm]

theorem byteLength_toList (text : String) : byteLength text.toList = text.utf8ByteSize := by
  rw [← utf8ByteSize_ofList, String.ofList_toList]

/-- The valid positions of a text are those that a part of it takes up to. -/
theorem isValid_iff_exists_byteLength {text : String} {n : Nat} :
    String.Pos.Raw.IsValid text ⟨n⟩ ↔ ∃ done rest, text.toList = done ++ rest ∧
      byteLength done = n := by
  rw [String.Pos.Raw.isValid_iff_exists_append]
  constructor
  · rintro ⟨before, after, rfl, hposition⟩
    refine ⟨before.toList, after.toList, String.toList_append, ?_⟩
    rw [byteLength_toList]
    exact (congrArg String.Pos.Raw.byteIdx hposition).symm
  · rintro ⟨done, rest, htext, rfl⟩
    refine ⟨String.ofList done, String.ofList rest, ?_, ?_⟩
    · rw [← String.ofList_append, ← htext, String.ofList_toList]
    · rw [← utf8ByteSize_ofList]
      rfl

end Text

/-- **An error is placed where the text goes wrong.** Reading by position never leaves the text: on
every text it comes to an end, all its cuts are between characters, and what comes out is what the
reader says. If that is an error, its position is a valid position of the text, and the text before
it can be completed to a rule. -/
theorem Expr.parse_error_position (text : String) :
    (∀ depth, 5 * text.length + 4 < depth →
        Expr.parseByPosition depth text = some ((Expr.parse text).mapError .refused)) ∧
      ∀ error, Expr.parse text = .error error →
        error.position ≤ text.utf8ByteSize ∧ String.Pos.Raw.IsValid text ⟨error.position⟩ ∧
          ∃ before after continuation : String, ∃ e, text = before ++ after ∧
            before.utf8ByteSize = error.position ∧
            Expr.parse (before ++ continuation) = .ok e := by
  refine ⟨fun depth h ↦ Expr.parseByPosition_eq h, fun error herror ↦ ?_⟩
  rw [Expr.parse] at herror
  cases hparse : Rule.parseChars text.toList with
  | ok e =>
    rw [hparse] at herror
    cases herror
  | error stop =>
    rw [hparse] at herror
    cases herror
    obtain ⟨done, completion, e, htext, hrule⟩ := Rule.completable_of_parseChars hparse
    have hposition : (ParseError.ofStop text.toList stop).position = Text.byteLength done := by
      rw [ParseError.ofStop, htext, Text.positionOf_append]
    rw [hposition]
    refine ⟨?_, Text.isValid_iff_exists_byteLength.2 ⟨done, stop.rest, htext, rfl⟩,
      String.ofList done, String.ofList stop.rest, String.ofList completion, e, ?_,
      Text.utf8ByteSize_ofList done, ?_⟩
    · rw [← Text.byteLength_toList, htext, Text.byteLength_append]
      exact Nat.le_add_right _ _
    · rw [← String.ofList_append, ← htext, String.ofList_toList]
    · rw [parse_eq_ok_iff, String.toList_append, String.toList_ofList, String.toList_ofList]
      exact hrule

/-- What stands after the sign and a wide blank is a letter of two bytes and names no field. -/
theorem Sample.parse_misnamed :
    Expr.parse "rsi <\u3000é" = .error ⟨.unknownField ['é'], 8⟩ := by
  have hfactor : Rule.bare (Rule.factor "rsi <\u3000é".toList) =
      .error ⟨.unknownField ['é'], ['é']⟩ := by
    rw [Rule.bare_factor]
    rfl
  have hdisjunction : Rule.bare (Rule.disjunction "rsi <\u3000é".toList) =
      .error ⟨.unknownField ['é'], ['é']⟩ := by
    rw [Rule.bare_disjunction, Rule.bare_conjunction, hfactor]
    rfl
  have hchars : Rule.parseChars "rsi <\u3000é".toList = .error ⟨.unknownField ['é'], ['é']⟩ := by
    rw [Rule.parseChars_eq]
    show (Rule.bare (Rule.disjunction "rsi <\u3000é".toList) >>= _) = _
    rw [hdisjunction]
    rfl
  rw [Expr.parse, hchars]
  rfl

/-- The error is placed behind eight bytes, and the six characters there begin a rule. -/
theorem Expr.sample_error_position :
    Expr.parse "rsi <\u3000é" = .error ⟨.unknownField ['é'], 8⟩ ∧
      Expr.parseByPosition 40 "rsi <\u3000é" =
        some (.error (.refused ⟨.unknownField ['é'], 8⟩)) ∧
      8 ≤ "rsi <\u3000é".utf8ByteSize ∧ String.Pos.Raw.IsValid "rsi <\u3000é" ⟨8⟩ ∧
      ∃ before after continuation : String, ∃ e, "rsi <\u3000é" = before ++ after ∧
        before.utf8ByteSize = 8 ∧ Expr.parse (before ++ continuation) = .ok e := by
  obtain ⟨hposition, herror⟩ := Expr.parse_error_position "rsi <\u3000é"
  rw [Sample.parse_misnamed] at hposition
  exact ⟨Sample.parse_misnamed, hposition 40 (by decide), herror _ Sample.parse_misnamed⟩

end BarReplay
