import BarReplay.Proofs.Json.Following
import BarReplay.Strategy.Draft
import Mathlib.Data.List.Forall2

/-!
# Documents with several strategies

An array of strategies is read as the strategies that it holds, each as if it stood alone, and in
their order. There are two ways in which it might not be. The array might be taken for one strategy,
whose values are the items in the order of the keys; but the first of them is a name, and no object
is a text (`ofJson?_array_of_object`). So this happens to the empty array only, which is a strategy
with everything left out. And the array is one more pair of brackets around each item, so an item
may be nested too deeply in it that is just within the limit alone (`fitsInArray`).

What an item is does not depend on what follows it in the array, because an object ends where it
ends. So the theorem is about all texts, whatever their gaps, unknown keys and repetitions.
-/

namespace BarReplay

open Json (Value)

/-! ### Values -/

namespace Draft

/-- An array is not one strategy if its first item is an object. -/
theorem ofJson?_array_of_object (entries : List (String × Value)) (items : List Value) :
    ofJson? (.array (.object entries :: items)) = none := by
  rw [ofJson?, Value.record?]
  split
  next hlength =>
    have hothers : ((keys.tail.zip items).filter fun e ↦ e.1 == "name") = [] := by
      refine List.filter_eq_nil_iff.2 fun e he ↦ ?_
      have hne : ∀ key ∈ keys.tail, ¬ (key == "name") = true := by decide
      exact hne e.1 (List.of_mem_zip he).1
    have hfirst : (keys.zip (.object entries :: items)).filter (fun e ↦ e.1 == "name") =
        [("name", .object entries)] := by
      show (("name", Value.object entries) :: keys.tail.zip items).filter
        (fun e ↦ e.1 == "name") = _
      rw [List.filter_cons, hothers]
      rfl
    have hname (name : String) :
        Value.keyed? (keys.zip (.object entries :: items)) "name" Value.toText? name = none := by
      rw [Value.keyed?, Value.entry?, hfirst]
      rfl
    rw [Option.bind_eq_bind, Option.bind_some, hname, Option.bind_eq_bind, Option.bind_none]
  next => rfl

/-- The value is an object that is a strategy. -/
def IsObjectOf (v : Value) (d : Draft) : Prop :=
  (∃ entries, v = .object entries) ∧ ofJson? v = some d

theorem mapM_ofJson? {vs : List Value} {ds : List Draft} (h : List.Forall₂ IsObjectOf vs ds) :
    vs.mapM ofJson? = some ds := by
  induction h with
  | nil => rfl
  | cons hfirst hothers ih => rw [List.mapM_cons, hfirst.2, ih]; rfl

theorem listOfJson?_object (entries : List (String × Value)) :
    listOfJson? (.object entries) = (ofJson? (.object entries)).map fun d ↦ [d] := by
  unfold listOfJson?
  rcases ofJson? (.object entries) with - | d <;> rfl

/-- **An array of objects holds one strategy for each, unless it is empty.** -/
theorem listOfJson?_array {vs : List Value} {ds : List Draft} (h : List.Forall₂ IsObjectOf vs ds) :
    listOfJson? (.array vs) = some (if vs = [] then [{}] else ds) := by
  cases h with
  | nil => rfl
  | @cons v d vs ds hfirst hothers =>
    obtain ⟨⟨entries, rfl⟩, hread⟩ := hfirst
    have hitems := mapM_ofJson? (.cons ⟨⟨entries, rfl⟩, hread⟩ hothers)
    rw [listOfJson?, ofJson?_array_of_object, if_neg (List.cons_ne_nil _ _)]
    exact hitems

end Draft

theorem areSound_eq_all (depth : Nat) (vs : List Value) :
    Value.areSound depth vs = vs.all (Value.isSound depth) := by
  induction vs with
  | nil => rfl
  | cons v vs ih => rw [Value.areSound, List.all_cons, ih]

/-! ### Texts -/

namespace Draft

/-- A text that is one value is a document with the strategies that the value holds. -/
theorem readDocument_of_isText {text : String} {v : Value} (h : Json.IsText v text.toList) :
    readDocument text =
      if v.isSound Value.depthLimit = true then
        (listOfJson? v).elim (.error .noStrategies) .ok
      else .error .notJson := by
  obtain ⟨rest, hvalue, hgap⟩ := h
  obtain ⟨hlength, hscan⟩ := Json.takes_iff.2 hvalue.scanned
  rw [readDocument, Value.scanSound?, hscan]
  by_cases hsound : v.isSound Value.depthLimit = true
  · simp only [if_pos hsound, hgap, List.isEmpty_nil, if_true]
    rcases listOfJson? v with - | ds <;> rfl
  · simp only [if_neg hsound]

/-- A document with strategies is one sound value that holds them. -/
theorem exists_value_of_readDocument {text : String} {ds : List Draft}
    (h : readDocument text = .ok ds) :
    ∃ v, Json.IsText v text.toList ∧ v.isSound Value.depthLimit = true ∧
      listOfJson? v = some ds := by
  unfold readDocument at h
  split at h
  next => cases h
  next v rest hscan =>
    unfold Value.scanSound? at hscan
    split at hscan
    next v' rest' hlength hvalue =>
      split at hscan
      next hsound =>
        cases hscan
        split at h
        next => cases h
        next ds' hlist =>
          split at h
          next hgap =>
            cases h
            have hvalue := Json.Derives.of_value ⟨hlength, hvalue⟩
            exact ⟨v, ⟨rest, hvalue, List.isEmpty_iff.1 hgap⟩, hsound, hlist⟩
          next => cases h
      next => cases hscan
    next => cases hscan

theorem read?_of_isText {text : String} {v : Value} (h : Json.IsText v text.toList) :
    Value.read? text = some v := by
  obtain ⟨rest, hvalue, hgap⟩ := h
  obtain ⟨hlength, hscan⟩ := Json.takes_iff.2 hvalue.scanned
  rw [Value.read?, hscan]
  simp only [hgap, List.isEmpty_nil, if_true]

/-- The text is an object, and the strategy is what it is read as alone. -/
structure ReadsAlone (text : String) (d : Draft) : Prop where
  object : (Json.skipGap text.toList).head? = some '\x7b'
  read : readDocument text = .ok [d]

/-- The text may stand in an array, with one more pair of brackets around it. -/
def fitsInArray (text : String) : Bool :=
  (Value.read? text).any (Value.isSound (Value.depthLimit - 1))

/-- A value that starts with a brace is an object, or it is not sound. -/
theorem exists_entries {cs : List Char} {v : Value} (h : Json.IsText v cs)
    (hhead : (Json.skipGap cs).head? = some '\x7b') (hsound : v.isSound Value.depthLimit = true) :
    ∃ entries, v = .object entries := by
  obtain ⟨rest, hvalue, -⟩ := h
  cases hvalue with
  | scalar text =>
    obtain ⟨c, tail, hskip, -, -, hne⟩ := text.exists_head
    rw [hskip] at hhead
    exact absurd (Option.some.inj hhead) hne
  | emptyArray opening => simp [opening] at hhead
  | array opening => simp [opening] at hhead
  | emptyObject => exact ⟨[], rfl⟩
  | @object _ _ _ entries =>
    cases entries with
    | none => cases hsound
    | some entries => exact ⟨entries, rfl⟩

/-- What a strategy that is read alone is as a value. -/
theorem ReadsAlone.exists_value {text : String} {d : Draft} (h : ReadsAlone text d) :
    ∃ v, Json.IsText v text.toList ∧ IsObjectOf v d ∧
      fitsInArray text = v.isSound (Value.depthLimit - 1) := by
  obtain ⟨v, htext, hsound, hlist⟩ := exists_value_of_readDocument h.read
  obtain ⟨entries, rfl⟩ := exists_entries htext h.object hsound
  refine ⟨_, htext, ⟨⟨entries, rfl⟩, ?_⟩, by rw [fitsInArray, read?_of_isText htext]; rfl⟩
  rw [listOfJson?_object, Option.map_eq_some_iff] at hlist
  obtain ⟨d', hread, heq⟩ := hlist
  cases heq
  exact hread

/-- What strategies that are read alone are as values. -/
theorem exists_values {texts : List String} {ds : List Draft}
    (h : List.Forall₂ ReadsAlone texts ds) :
    ∃ vs, List.Forall₂ (fun cs v ↦ Json.IsText v cs ∧ v.EndsItself) (texts.map String.toList) vs ∧
      List.Forall₂ IsObjectOf vs ds ∧
      texts.all fitsInArray = vs.all (Value.isSound (Value.depthLimit - 1)) := by
  induction h with
  | nil => exact ⟨[], .nil, .nil, rfl⟩
  | cons hfirst hothers ih =>
    obtain ⟨v, htext, hobject, hfits⟩ := hfirst.exists_value
    obtain ⟨vs, htexts, hobjects, hall⟩ := ih
    have hend : v.EndsItself := by
      obtain ⟨⟨entries, rfl⟩, -⟩ := hobject
      trivial
    refine ⟨v :: vs, .cons ⟨htext, hend⟩ htexts, .cons hobject hobjects, ?_⟩
    rw [List.all_cons, List.all_cons, hfits, hall]

/-- A document that is an array of the given texts, with gaps around its brackets. -/
def arrayDocument (before inside after : String) (texts : List String) : String :=
  before ++ "[" ++ inside ++ ",".intercalate texts ++ "]" ++ after

theorem toList_arrayDocument (before inside after : String) (texts : List String) :
    (arrayDocument before inside after texts).toList =
      Json.arrayText before.toList inside.toList after.toList (texts.map String.toList) := by
  simp [arrayDocument, Json.arrayText, String.toList_intercalate]

/-- **An array of strategies is read as its strategies,** each as it is read alone and in their
order, if none is nested too deeply for it. The empty array is read as one strategy. -/
theorem readDocument_arrayDocument {before inside after : String}
    (hbefore : Json.skipGap before.toList = []) (hinside : Json.skipGap inside.toList = [])
    (hafter : Json.skipGap after.toList = []) {texts : List String} {ds : List Draft}
    (h : List.Forall₂ ReadsAlone texts ds) :
    readDocument (arrayDocument before inside after texts) =
      if texts = [] then .ok [{}]
      else if texts.all fitsInArray = true then .ok ds else .error .notJson := by
  obtain ⟨vs, htexts, hobjects, hall⟩ := exists_values h
  have hdocument := Json.isText_arrayText hbefore hinside hafter htexts
  rw [← toList_arrayDocument] at hdocument
  have hsound : (Value.array vs).isSound Value.depthLimit = texts.all fitsInArray := by
    rw [hall]
    exact areSound_eq_all _ vs
  rw [readDocument_of_isText hdocument, hsound, listOfJson?_array hobjects]
  by_cases hne : texts = []
  · subst hne
    cases htexts
    rfl
  · have hvs : vs ≠ [] := by
      rintro rfl
      exact hne (List.map_eq_nil_iff.1 (List.forall₂_nil_right_iff.1 htexts))
    rw [if_neg hne, if_neg hvs]
    rfl

/-- The empty array is not read as no strategies. -/
theorem not_readDocument_arrayDocument : ¬ ∀ texts ds, List.Forall₂ ReadsAlone texts ds →
    readDocument (arrayDocument "" "" "" texts) = .ok ds := by
  intro h
  have hnone := h [] [] .nil
  rw [readDocument_arrayDocument rfl rfl rfl .nil] at hnone
  cases hnone

end Draft

end BarReplay
