import BarReplay.Rule.Scanner

/-!
# Reading rules

The grammar of rules, tightest last:

* a rule is a chain of conjunctions joined by `or`;
* a conjunction is a chain of factors joined by `and`;
* a factor is `not` and a factor, a rule in brackets, `true`, `false`, or a comparison.

Both chains lean to the left. Keywords and field names are read in either letter case, and blanks
may stand before anything. Every function takes what it can from the head of a text and returns a
rest that is shorter, or stops at the place of the first fault.
-/

namespace BarReplay

namespace Rule

mutual

/-- A chain of conjunctions. -/
def disjunction (cs : List Char) : Except Stop (Expr Float × Rest cs) :=
  match conjunction cs with
  | .error stop => .error stop
  | .ok (left, ⟨rest, hrest⟩) =>
    match disjuncts left rest with
    | .error stop => .error stop
    | .ok (e, ⟨r, hr⟩) => .ok (e, ⟨r, by omega⟩)
termination_by (cs.length, 3)

/-- The conjunctions that follow `left` in a chain. -/
def disjuncts (left : Expr Float) (cs : List Char) :
    Except Stop (Expr Float × { r : List Char // r.length ≤ cs.length }) :=
  match hkey : keyword? ['o', 'r'] cs with
  | none => .ok (left, ⟨cs, Nat.le_refl _⟩)
  | some rest =>
    have hrest : rest.length < cs.length := by
      have := keyword?_length hkey
      simp at this
      omega
    match conjunction rest with
    | .error stop => .error stop
    | .ok (right, ⟨rest', hrest'⟩) =>
      match disjuncts (.or left right) rest' with
      | .error stop => .error stop
      | .ok (e, ⟨r, hr⟩) => .ok (e, ⟨r, by omega⟩)
termination_by (cs.length, 0)

/-- A chain of factors. -/
def conjunction (cs : List Char) : Except Stop (Expr Float × Rest cs) :=
  match factor cs with
  | .error stop => .error stop
  | .ok (left, ⟨rest, hrest⟩) =>
    match conjuncts left rest with
    | .error stop => .error stop
    | .ok (e, ⟨r, hr⟩) => .ok (e, ⟨r, by omega⟩)
termination_by (cs.length, 2)

/-- The factors that follow `left` in a chain. -/
def conjuncts (left : Expr Float) (cs : List Char) :
    Except Stop (Expr Float × { r : List Char // r.length ≤ cs.length }) :=
  match hkey : keyword? ['a', 'n', 'd'] cs with
  | none => .ok (left, ⟨cs, Nat.le_refl _⟩)
  | some rest =>
    have hrest : rest.length < cs.length := by
      have := keyword?_length hkey
      simp at this
      omega
    match factor rest with
    | .error stop => .error stop
    | .ok (right, ⟨rest', hrest'⟩) =>
      match conjuncts (.and left right) rest' with
      | .error stop => .error stop
      | .ok (e, ⟨r, hr⟩) => .ok (e, ⟨r, by omega⟩)
termination_by (cs.length, 0)

/-- A negation, a rule in brackets, a literal or a comparison. -/
def factor (cs : List Char) : Except Stop (Expr Float × Rest cs) :=
  match hnot : keyword? ['n', 'o', 't'] cs with
  | some rest =>
    have hrest : rest.length < cs.length := by
      have := keyword?_length hnot
      simp at this
      omega
    match factor rest with
    | .error stop => .error stop
    | .ok (inner, ⟨r, hr⟩) => .ok (.not inner, ⟨r, by omega⟩)
  | none =>
    match hopen : Text.skipBlank cs with
    | '(' :: rest =>
      have hrest : rest.length < cs.length := by
        have := Text.skipBlank_length_le cs
        rw [hopen] at this
        simp at this
        omega
      match disjunction rest with
      | .error stop => .error stop
      | .ok (inner, ⟨rest', hrest'⟩) =>
        match hclose : Text.skipBlank rest' with
        | ')' :: r =>
          .ok (inner, ⟨r, by
            have := Text.skipBlank_length_le rest'
            rw [hclose] at this
            simp at this
            omega⟩)
        | found => .error ⟨.unclosed found.head?, found⟩
    | _ =>
      match htrue : keyword? ['t', 'r', 'u', 'e'] cs with
      | some r => .ok (.literal true, ⟨r, by have := keyword?_length htrue; simp at this; omega⟩)
      | none =>
        match hfalse : keyword? ['f', 'a', 'l', 's', 'e'] cs with
        | some r =>
          .ok (.literal false, ⟨r, by have := keyword?_length hfalse; simp at this; omega⟩)
        | none => comparison cs
termination_by (cs.length, 1)

end

/-- Reads a text that is one rule and nothing else. -/
def parseChars (cs : List Char) : Except Stop (Expr Float) :=
  match Text.skipBlank cs with
  | [] => .error ⟨.emptyRule, cs⟩
  | text =>
    match disjunction text with
    | .error stop => .error stop
    | .ok (e, ⟨rest, _⟩) =>
      match Text.skipBlank rest with
      | [] => .ok e
      | left => .error ⟨.trailing (glimpse left), left⟩

end Rule

/-- The rule that a text is. -/
def Expr.parse (text : String) : Except ParseError (Expr Float) :=
  (Rule.parseChars text.toList).mapError (ParseError.ofStop text.toList)

/-- A rule together with the text that it was read from. -/
structure Rule (α : Type) where
  source : String
  expr : Expr α
  deriving DecidableEq

namespace Rule

/-- The rule that a text is, with the text. -/
def parse (source : String) : Except ParseError (Rule Float) :=
  (Expr.parse source).map fun expr ↦ ⟨source, expr⟩

end Rule

end BarReplay
