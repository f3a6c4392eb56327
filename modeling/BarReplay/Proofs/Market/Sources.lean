import BarReplay.Market.Bar
import BarReplay.Proofs.Replay.History
import BarReplay.Proofs.Rule.Negation
import Mathlib.Data.List.Nodup
import Mathlib.Logic.Function.Basic

/-!
# Sources of readings

A rule reads a bar, a table of values by field or a record of values by name. The three store their
values differently: a bar has a place for every field and keeps a missing close as an amount that
is not finite, a table may lack a field or hold it without a value, and a record may hold anything
under names that no field has. Here they are followed through the same changes, where what is set in
the bar is inserted into the others.

A change of a source is a change of its reading at one field, whatever the source is
(`Source.reading_put`). This takes two facts: what is stored for other fields stays as it is
(`Source.sameBut_put`), and the field itself reads the new value, or nothing if that is not finite
(`Source.reading_put_self`). So the reading after any changes follows from the reading before them
(`Source.reading_putAll`), and sources that read alike go on reading alike.
-/

namespace BarReplay

/-- No two fields have the same name. -/
theorem Field.name_injective : Function.Injective name := by
  intro f g h
  have hnodup : (all.map name).Nodup := by decide
  exact List.inj_on_of_nodup_map hnodup (mem_all f) (mem_all g) h

/-- A value, or none, that is stored for a field. -/
structure Change where
  field : Field
  value : Option Float

/-- The reading after a change. A value that is not finite leaves the field undefined. -/
def Reading.put (r : Reading Float) (change : Change) : Reading Float :=
  Function.update r change.field (change.value.filter Arithmetic.isFinite)

/-- The changes that store everything that a bar stores. -/
def Bar.changes (bar : Bar Float) : List Change :=
  Field.all.map fun f ↦ ⟨f, bar.stored f⟩

/-- Something that a rule can read. -/
inductive Source where
  | bar (bar : Bar Float)
  | byField (table : Std.HashMap Field (Option Float))
  | byName (record : Std.HashMap String (Option Float))

namespace Source

/-- What a rule sees of the source. -/
def reading : Source → Reading Float
  | bar b => b.reading
  | byField table => .ofOptions table
  | byName record => .ofNames record

/-- The source after a change. A record stores the value under the name of the field. -/
def put (source : Source) (change : Change) : Source :=
  match source with
  | bar b => .bar (b.set change.field change.value)
  | byField table => .byField (table.insert change.field change.value)
  | byName record => .byName (record.insert change.field.name change.value)

/-- The source after several changes, the first of them first. -/
def putAll (source : Source) (changes : List Change) : Source :=
  changes.foldl put source

/-- Two sources of one kind store the same, but for the field `f`. -/
inductive SameBut (f : Field) : Source → Source → Prop where
  | bar {b b' : Bar Float} (date : b'.date = b.date) (rest : ∀ g ≠ f, b'.stored g = b.stored g) :
    SameBut f (.bar b) (.bar b')
  | byField {table table' : Std.HashMap Field (Option Float)}
    (rest : ∀ g ≠ f, table'[g]? = table[g]?) : SameBut f (.byField table) (.byField table')
  | byName {record record' : Std.HashMap String (Option Float)}
    (rest : ∀ name ≠ f.name, record'[name]? = record[name]?) :
    SameBut f (.byName record) (.byName record')

/-- Two sources are the same to every rule. -/
structure Alike (source other : Source) : Prop where
  value : ∀ f, source.reading f = other.reading f
  truth : ∀ e : Expr Float, e.truth source.reading = e.truth other.reading
  holds : ∀ e : Expr Float, e.holds source.reading = e.holds other.reading

/-! ### One change -/

/-- A change leaves alone what is stored for other fields, and under names that no field has. -/
theorem sameBut_put (source : Source) (change : Change) :
    SameBut change.field source (source.put change) := by
  cases source with
  | bar b => exact .bar (b.date_set _ _) fun g hg ↦ Bar.stored_set_of_ne hg
  | byField table =>
    refine .byField fun g hg ↦ ?_
    rw [Std.HashMap.getElem?_insert, if_neg (by simpa using hg.symm)]
  | byName record =>
    refine .byName fun name hname ↦ ?_
    rw [Std.HashMap.getElem?_insert, if_neg (by simpa using hname.symm)]

/-- What is stored alike reads alike. In a record this rests on the fields' names, of which no two
are the same. -/
theorem SameBut.reading_eq {source source' : Source} {f g : Field}
    (h : SameBut f source source') (hg : g ≠ f) : source'.reading g = source.reading g := by
  cases h with
  | bar _ rest => simp only [reading, Bar.reading, Reading.ofValues, rest g hg]
  | byField rest => simp only [reading, Reading.ofOptions, Reading.ofValues, rest g hg]
  | byName rest =>
    have hname : g.name ≠ f.name := Field.name_injective.ne hg
    simp only [reading, Reading.ofNames, Reading.ofValues, rest g.name hname]

/-- The changed field reads the new value. A close without a value is stored in a bar as an amount
that is not finite, which reads as nothing too. -/
theorem reading_put_self (source : Source) (change : Change) :
    (source.put change).reading change.field = change.value.filter Arithmetic.isFinite := by
  obtain ⟨f, value⟩ := change
  cases source with
  | bar b =>
    by_cases hf : f = .close
    · subst hf
      cases value with
      | none =>
        show (some (Arithmetic.undefined : Float)).filter Arithmetic.isFinite = none
        decide
      | some x => rfl
    · rw [put, reading, Bar.reading, Reading.ofValues, Bar.stored_set_self hf]
  | byField table =>
    rw [put, reading, Reading.ofOptions, Reading.ofValues, Std.HashMap.getElem?_insert_self]
    rfl
  | byName record =>
    rw [put, reading, Reading.ofNames, Reading.ofValues, Std.HashMap.getElem?_insert_self]
    rfl

/-- **A change of a source is a change of its reading**, of whatever kind the source is. -/
theorem reading_put (source : Source) (change : Change) :
    (source.put change).reading = source.reading.put change := by
  funext g
  by_cases hg : g = change.field
  · rw [hg, reading_put_self, Reading.put, Function.update_self]
  · rw [(sameBut_put source change).reading_eq hg, Reading.put, Function.update_of_ne hg]

/-! ### Any number of changes -/

/-- What a source reads after any changes depends on the source through its reading alone. -/
theorem reading_putAll (source : Source) (changes : List Change) :
    (source.putAll changes).reading = changes.foldl Reading.put source.reading := by
  induction changes generalizing source with
  | nil => rfl
  | cons change rest ih =>
    calc ((source.put change).putAll rest).reading
        = rest.foldl Reading.put (source.put change).reading := ih (source.put change)
      _ = rest.foldl Reading.put (source.reading.put change) := by rw [reading_put]

theorem putAll_take_succ {changes : List Change} {n : Nat} {change : Change}
    (h : changes[n]? = some change) (source : Source) :
    source.putAll (changes.take (n + 1)) = (source.putAll (changes.take n)).put change := by
  rw [putAll, List.take_add_one, h, List.foldl_append]
  rfl

end Source

/-- Storing the values of some fields gives these fields the reading of the values, and leaves alone
a field that has this reading already. -/
theorem Reading.foldl_put_eq_ofValues {value : Field → Option Float} {f : Field}
    {fields : List Field} {r : Reading Float} (h : f ∈ fields ∨ r f = ofValues value f) :
    (fields.map fun g ↦ ⟨g, value g⟩).foldl put r f = ofValues value f := by
  -- a field that has been stored stays right, since only its own value is stored for it again
  induction fields generalizing r with
  | nil => exact h.resolve_left List.not_mem_nil
  | cons g rest ih =>
    refine ih ?_
    by_cases hf : f = g
    · exact .inr (by rw [put, hf, Function.update_self, ofValues])
    · rw [put, Function.update_of_ne hf]
      exact h.imp_left fun hmem ↦ (List.mem_cons.1 hmem).resolve_left hf

namespace Source

/-- Storing everything that a bar stores makes any source read as the bar, whatever it held. -/
theorem reading_putAll_changes (source : Source) (b : Bar Float) :
    (source.putAll b.changes).reading = b.reading := by
  funext f
  rw [reading_putAll, Bar.changes]
  exact Reading.foldl_put_eq_ofValues (.inl (Field.mem_all f))

theorem isFinite_reading (source : Source) : source.reading.IsFinite := by
  cases source <;> exact Reading.isFinite_ofValues _

theorem alike_of_reading_eq {source other : Source} (h : source.reading = other.reading) :
    Alike source other where
  value := congrFun h
  truth e := by rw [h]
  holds e := by rw [h]

/-- **All sources stand for the same bar.** Every bar has copies of all kinds, since storing its
values in a source makes the source read as the bar; the bar itself is one of them. From then on let
the same changes, of any fields to any values or none, be made to the bar and to a copy. After any
number of them every field reads the same in both, every rule has the same truth, and nothing that
is not finite is read. The next change keeps all that is stored but for its own field, which reads
the new value, or nothing if that is not finite. -/
theorem copies_read_alike (b : Bar Float) :
    (∀ source : Source, (source.putAll b.changes).reading = b.reading) ∧
      ∀ copy : Source, copy.reading = b.reading → ∀ (changes : List Change) (n : Nat),
        Alike (copy.putAll (changes.take n)) ((Source.bar b).putAll (changes.take n)) ∧
          (copy.putAll (changes.take n)).reading.IsFinite ∧
          ∀ change, changes[n]? = some change →
            SameBut change.field (copy.putAll (changes.take n))
                (copy.putAll (changes.take (n + 1))) ∧
              (copy.putAll (changes.take (n + 1))).reading =
                (copy.putAll (changes.take n)).reading.put change := by
  refine ⟨fun source ↦ reading_putAll_changes source b, fun copy hcopy changes n ↦ ⟨?_, ?_, ?_⟩⟩
  · refine alike_of_reading_eq ?_
    rw [reading_putAll, reading_putAll, hcopy]
    rfl
  · exact isFinite_reading _
  · intro change hchange
    rw [putAll_take_succ hchange]
    exact ⟨sameBut_put _ change, reading_put _ change⟩

end Source

namespace Sample

/-- The values of the second sample bar by field, without the fields that have none. -/
def valuesByField : Source :=
  .byField (((∅ : Std.HashMap Field (Option Float)).insert .close (some 100)).insert .rsi (some 25))

/-- The same by name, next to a name in capitals, which is no name of a field. -/
def valuesByName : Source :=
  .byName ((((∅ : Std.HashMap String (Option Float)).insert "close" (some 100)).insert "rsi"
    (some 25)).insert "RSI" (some 70))

/-- An RSI that is no number, a close that is taken away, an indicator, and a close again. -/
def changes : List Change :=
  [⟨.rsi, some (0 / 0)⟩, ⟨.close, none⟩, ⟨.macdSignal, some 1⟩, ⟨.close, some 99⟩]

/-- A low RSI, or a signal line above zero. -/
def lowOrRising : Expr Float :=
  .or (.compare (.field .rsi) .lt (.constant 30)) (.compare (.field .macdSignal) .gt (.constant 0))

theorem valuesByField_reading : valuesByField.reading = (bar 1 100 25).reading := by
  funext f
  cases f <;> simp [valuesByField, Source.reading, Reading.ofOptions, Reading.ofValues, bar,
    Bar.reading, Bar.stored, Std.HashMap.getElem_insert]

theorem valuesByName_reading : valuesByName.reading = (bar 1 100 25).reading := by
  funext f
  cases f <;> simp [valuesByName, Source.reading, Reading.ofNames, Reading.ofValues, bar,
    Bar.reading, Bar.stored, Field.name, Std.HashMap.getElem_insert]

end Sample

/-- After three changes neither copy of the sample bar has a close or an RSI, and the rule holds by
its other side. The fourth change gives the close back and nothing else. -/
theorem Source.sample_copies_read_alike :
    Sample.valuesByField.reading = (Sample.bar 1 100 25).reading ∧
      Sample.valuesByName.reading = (Sample.bar 1 100 25).reading ∧
      ∀ copy ∈ [Sample.valuesByField, Sample.valuesByName],
        [Field.close, .rsi, .macdSignal].map (copy.putAll (Sample.changes.take 3)).reading =
            [none, none, some 1] ∧
          Sample.lowOrRising.truth (copy.putAll (Sample.changes.take 3)).reading = some true ∧
          (copy.putAll (Sample.changes.take 4)).reading =
            (copy.putAll (Sample.changes.take 3)).reading.put ⟨.close, some 99⟩ := by
  obtain ⟨-, hcopies⟩ := copies_read_alike (Sample.bar 1 100 25)
  have hcopy : ∀ copy ∈ [Sample.valuesByField, Sample.valuesByName],
      copy.reading = (Sample.bar 1 100 25).reading := by
    simp [Sample.valuesByField_reading, Sample.valuesByName_reading]
  refine ⟨Sample.valuesByField_reading, Sample.valuesByName_reading, fun copy hmem ↦ ?_⟩
  obtain ⟨halike, -, hnext⟩ := hcopies copy (hcopy copy hmem) Sample.changes 3
  refine ⟨?_, ?_, (hnext ⟨.close, some 99⟩ rfl).2⟩
  · rw [funext halike.value]
    decide +kernel
  · rw [halike.truth]
    decide +kernel

end BarReplay
