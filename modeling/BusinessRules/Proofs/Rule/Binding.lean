import BusinessRules.Proofs.Rule.Independence

/-!
# Reading what was bound

An assignment binds the datum of its value, and the datum has the value back.  A later expression,
condition text or comparison of a structured condition therefore sees the value itself, and nothing
else has changed.  Only a target that is spelled like the literals `true`, `false` and `null` is
never looked up by a text: there the text means the literal, whatever was bound.

## Main definitions

* `reading`: what a text that is a bound name reads as
* `Reads`: what a context in which a name is bound to a value lets all readers see

## Main statements

* `reads_of_lookup`: every reader sees what is bound
* `evaluateExpression_readBack`: an assignment is read back, and everything else stays as it was
-/

namespace BusinessRules.Expression

open Text (Blanks)

variable {p : Precision} {env : Environment} {context context' : Context}

/-- What a text that is a bound name reads as: a literal is read before any name. -/
def reading (name : String) (v : Value) : Value := (Literal.word? name.toList).getD v

/-- What the readers of a name see in a context that binds it to a value: expressions, comparisons
of structured conditions, and condition texts that are the name or compare it. -/
structure Reads (env : Environment) (context : Context) (name : String) (v : Value) : Prop where
  expression : evaluateExpression env context name = .ok (reading name v, context)
  item : ∀ op d, ConditionItem.holds context ⟨name, op, d⟩ =
    d.toValue.bind (Value.compareWith op v)
  bare : evaluateCondition env context name = (reading name v).isTrue
  comparison : ∀ p, env.precision = .ok p →
    ∀ (before after : Blanks) (op : Comparison) (right : List Char),
      (∀ c ∈ mask right, isComparisonChar c = false) →
      ¬ HasConnective (mask
        (name.toList ++ before.chars ++ op.symbol.toList ++ after.chars ++ right)) →
      evaluateCondition env context (String.ofList
          (name.toList ++ before.chars ++ op.symbol.toList ++ after.chars ++ right)) =
        (evaluateArithmetic p context.values right).bind
          (Value.compareWith op (reading name v))

/-! ## Texts that are or begin with a name -/

/-- An identifier is evaluated as a name. -/
theorem evaluateExpression_name (henv : env.precision = .ok p) (context : Context) {name : String}
    (hname : isIdentifier name.toList = true) :
    evaluateExpression env context name =
      ((Leaf.name name.toList hname).value context.values).map fun v => (v, context) := by
  have htext := evaluateExpression_text henv context
    (.single (.leaf (.name name.toList hname))) .none .none
  have harithmetic : evaluateArithmetic p context.values name.toList = _ :=
    evaluateArithmetic_leaf (.name name.toList hname)
  rw [show Formula.text (.single (.leaf (.name name.toList hname))) = name.toList from rfl,
    show Blanks.none.chars = [] from rfl, List.nil_append, List.append_nil,
    String.ofList_toList] at htext
  rw [htext, harithmetic]

theorem value_of_lookup {name : String} (hname : isIdentifier name.toList = true) {v : Value}
    (hbound : context.lookup name = .ok (some v.toDatum)) :
    (Leaf.name name.toList hname).value context.values = .ok (reading name v) := by
  rw [Leaf.value, reading]
  cases Literal.word? name.toList with
  | some w => rfl
  | none => simp only [String.ofList_toList, Context.values_of_lookup hbound,
      Datum.toValue_toDatum, Except.map, Option.getD_none]

theorem exists_nonblank_of_symbol (op : Comparison) :
    ∃ front c, op.symbol.toList = front ++ [c] ∧ Text.isBlank c = false := by
  cases op with
  | gt => exact ⟨[], '>', rfl, by decide⟩
  | ge => exact ⟨['>'], '=', rfl, by decide⟩
  | lt => exact ⟨[], '<', rfl, by decide⟩
  | le => exact ⟨['<'], '=', rfl, by decide⟩
  | eq => exact ⟨['='], '=', rfl, by decide⟩
  | ne => exact ⟨['!'], '=', rfl, by decide⟩

/-- A condition without connectives that begins with a name and an operator compares the value of
the name to that of the rest. -/
theorem evaluateBoolean_name {names : Names} {name : List Char} (hname : isIdentifier name = true)
    (before after : Blanks) (op : Comparison) {right : List Char}
    (hright : ∀ c ∈ mask right, isComparisonChar c = false)
    (hwhole : ¬ HasConnective
      (mask (name ++ before.chars ++ op.symbol.toList ++ after.chars ++ right))) :
    evaluateBoolean p names (name ++ before.chars ++ op.symbol.toList ++ after.chars ++ right) =
      ((Leaf.name name hname).value names).bind fun v =>
        (evaluateArithmetic p names right).bind (Value.compareWith op v) := by
  obtain ⟨rest, hrest⟩ : ∃ rest, rest = Text.trimEnd (after.chars ++ right) := ⟨_, rfl⟩
  obtain ⟨bs, hbs, hend⟩ := Text.exists_trimEnd (after.chars ++ right)
  rw [← hrest] at hend
  -- Trimming takes blanks off the right side, and nothing off the name.
  have htrim : Text.trim (name ++ before.chars ++ op.symbol.toList ++ after.chars ++ right) =
      (name ++ before.chars) ++ (op.symbol.toList ++ rest) := by
    obtain ⟨d, ds, hd, hblank⟩ := (Leaf.name name hname).tight.head
    obtain ⟨front, c, hsymbol, hc⟩ := exists_nonblank_of_symbol op
    rw [show (Leaf.name name hname).text = name from rfl] at hd
    rw [hsymbol, hd, show d :: ds ++ before.chars ++ (front ++ [c]) ++ after.chars ++ right =
        (d :: (ds ++ before.chars ++ front)) ++ c :: (after.chars ++ right) by simp,
      Text.trim_around hc, Text.trimStart_cons hblank, hrest]
    simp
  have hleft : ∀ c ∈ name ++ before.chars, isComparisonChar c = false := by
    intro c hc
    rcases List.mem_append.1 hc with hc | hc
    · exact eq_false_of_class mem_of_isComparisonChar (by decide)
        (isNameChar_of_isIdentifier hname c hc)
    · exact isComparisonChar_of_isBlank (before.blank c hc)
  have hrestright : ∀ c ∈ mask rest, isComparisonChar c = false := by
    obtain ⟨back, hback⟩ := mask_prefix rest bs
    intro c hc
    have hmem : c ∈ mask (after.chars ++ right) := by
      rw [hend, hback]
      exact List.mem_append_left back hc
    rw [(Wordless.blanks after).mask_append] at hmem
    rcases List.mem_append.1 hmem with hmem | hmem
    · exact isComparisonChar_of_isBlank (after.blank c hmem)
    · exact hright c hmem
  have hmask : mask ((name ++ before.chars) ++ (op.symbol.toList ++ rest)) =
      (name ++ before.chars) ++ (op.symbol.toList ++ mask rest) := by
    obtain ⟨hshown, hclosed⟩ := mask_name (isNameChar_of_isIdentifier hname)
    have hsymbol : Wordless op.symbol.toList := fun c hc =>
      isSymbolChar_of_isComparisonChar (isComparisonChar_of_symbol op c hc)
    rw [List.append_assoc, mask_append hclosed, hshown, (Wordless.blanks before).mask_append,
      hsymbol.mask_append, List.append_assoc]
  have hname' : evaluateArithmetic p names (name ++ before.chars) =
      (Leaf.name name hname).value names :=
    (evaluateArithmetic_padded p names .none before name).trans
      (evaluateArithmetic_leaf (.name name hname))
  have hright' : evaluateArithmetic p names rest = evaluateArithmetic p names right := by
    have hpadded := evaluateArithmetic_padded p names .none ⟨bs, hbs⟩ rest
    rw [show Blanks.none.chars ++ rest ++ bs = after.chars ++ right from hend.symm] at hpadded
    have hafter := evaluateArithmetic_padded p names after .none right
    rw [show Blanks.none.chars = [] from rfl, List.append_nil] at hafter
    rw [← hpadded, hafter]
  rw [evaluateBoolean_whole hwhole, htrim, evaluateComparison, hmask,
    mainComparison?_symbol hleft hrestright]
  simp only [List.take_left, ← List.drop_drop, List.drop_left, ← String.length_toList]
  rw [hname', hright']
  cases (Leaf.name name hname).value names with
  | error f => rfl
  | ok v =>
    cases evaluateArithmetic p names right with
    | error f => rfl
    | ok w => rfl

/-- A connective stands between blanks. -/
theorem not_hasConnective_of_no_blank {masked : List Char}
    (h : ∀ c ∈ masked, Text.isBlank c = false) : ¬ HasConnective masked := by
  rintro ⟨k, s, front, back, rfl⟩
  obtain ⟨c, rest, hs, hblank⟩ := s.head
  have hc := h c (by simp [hs])
  rw [hblank] at hc
  cases hc

/-- A condition that is a name is the truth of its value. -/
theorem evaluateBoolean_bare {names : Names} {name : List Char} (hname : isIdentifier name = true) :
    evaluateBoolean p names name = ((Leaf.name name hname).value names).bind Value.isTrue := by
  have hchars := isNameChar_of_isIdentifier hname
  have hshown := (mask_name hchars).1
  have hwhole : ¬ HasConnective (mask name) :=
    not_hasConnective_of_no_blank fun c hc => isBlank_of_isNameChar (hchars c (hshown ▸ hc))
  have hmain : mainComparison? (mask name) = none :=
    mainComparison?_eq_none fun c hc =>
      eq_false_of_class mem_of_isComparisonChar (by decide) (hchars c (hshown ▸ hc))
  have htrim : Text.trim name = name := (Leaf.name name hname).tight.trim_self
  have hvalue : evaluateArithmetic p names name = (Leaf.name name hname).value names :=
    evaluateArithmetic_leaf (.name name hname)
  rw [evaluateBoolean_whole hwhole, htrim, evaluateComparison, hmain]
  simp only [hvalue]
  cases (Leaf.name name hname).value names <;> rfl

/-- A condition that begins with a name is not blank. -/
theorem evaluateCondition_name (henv : env.precision = .ok p) (context : Context) {name : List Char}
    (hname : isIdentifier name = true) (rest : List Char) :
    evaluateCondition env context (String.ofList (name ++ rest)) =
      evaluateBoolean p context.values (name ++ rest) := by
  obtain ⟨c, cs, hc, hblank⟩ := (Leaf.name name hname).tight.head
  rw [show (Leaf.name name hname).text = name from rfl] at hc
  have htext : Text.isBlankText (String.ofList (name ++ rest)) = false :=
    Text.isBlankText_of_mem (by simp [hc]) hblank
  rw [evaluateCondition, htext, if_neg Bool.false_ne_true, henv]
  simp only [String.toList_ofList]

/-! ## Reading back -/

/-- **Every reader sees what is bound.** -/
theorem reads_of_lookup (henv : env.precision = .ok p) {name : String}
    (hname : isIdentifier name.toList = true) {v : Value}
    (hbound : context.lookup name = .ok (some v.toDatum)) : Reads env context name v := by
  have hvalue := value_of_lookup hname hbound
  constructor
  · rw [evaluateExpression_name henv context hname, hvalue]
    rfl
  · intro op d
    simp only [ConditionItem.holds, hbound, Datum.compareWith, Datum.toValue_toDatum]
    rfl
  · have hcondition := evaluateCondition_name henv context hname []
    rw [List.append_nil, String.ofList_toList] at hcondition
    rw [hcondition, evaluateBoolean_bare hname, hvalue]
    rfl
  · intro p' henv' before after op right hright hwhole
    cases henv.symm.trans henv'
    have hcondition := evaluateCondition_name henv context hname
      (before.chars ++ op.symbol.toList ++ after.chars ++ right)
    simp only [← List.append_assoc] at hcondition
    rw [hcondition, evaluateBoolean_name hname before after op hright hwhole, hvalue]
    rfl

/-- An assignment that succeeds binds its value in facts, and changes nothing else in them. -/
theorem exists_of_assigned {text name : String} {v : Value} (htarget : target? text = some name)
    (h : evaluateExpression env context text = .ok (v, context')) :
    ∃ p f, env.precision = .ok p ∧ context = .facts f ∧
      context' = .facts (f.set name v.toDatum) := by
  have hblank : Text.isBlankText text = false := by
    rw [Bool.eq_false_iff]
    intro hblank
    rw [target?_of_isBlankText hblank] at htarget
    cases htarget
  rw [target?] at htarget
  split at htarget
  · next target right hstatement =>
    cases htarget
    rw [evaluateExpression, hblank, if_neg Bool.false_ne_true] at h
    split at h
    · cases h
    · next p henv =>
      rw [hstatement] at h
      simp only [Statement.run] at h
      split at h
      · cases h
      · next w hw =>
        -- A bare datum binds no names.
        cases context with
        | bare d => cases h
        | facts f =>
          cases h
          exact ⟨p, f, henv, rfl, rfl⟩
  · cases htarget

/-- Binding the datum of a value changes what one name stands for. -/
theorem values_set (f : Facts) (name : String) (v : Value) :
    (Context.facts (f.set name v.toDatum)).values =
      Function.update (Context.facts f).values name (.ok (some v)) := by
  funext other
  by_cases hother : other = name
  · have hbound : (Context.facts (f.set name v.toDatum)).lookup name = .ok (some v.toDatum) := by
      rw [Context.lookup, Facts.get?_set_self]
    rw [hother, Function.update_self, Context.values_of_lookup hbound, Datum.toValue_toDatum]
    rfl
  · rw [Function.update_of_ne hother, Context.values, Context.values, Context.lookup,
      Context.lookup, Facts.get?_set_of_ne _ _ hother]

/-- **An assignment is read back**: whatever it binds its target to is what later expressions,
conditions and comparisons of that name see, and every other name stays what it was.  All that any
later text looks up is what it would have looked up before, but for the target. -/
theorem evaluateExpression_readBack {text name : String} {v : Value}
    (htarget : target? text = some name)
    (h : evaluateExpression env context text = .ok (v, context')) :
    Reads env context' name v ∧
      context'.values = Function.update context.values name (.ok (some v)) ∧
      ∀ other, other ≠ name →
        context'.lookup other = context.lookup other ∧
          (isIdentifier other.toList = true → evaluateExpression env context' other =
            (evaluateExpression env context other).map fun r => (r.1, context')) := by
  have hname := isIdentifier_of_target? htarget
  obtain ⟨p, f, henv, rfl, rfl⟩ := exists_of_assigned htarget h
  have hbound : Context.lookup (.facts (f.set name v.toDatum)) name = .ok (some v.toDatum) := by
    rw [Context.lookup, Facts.get?_set_self]
  have hothers : ∀ other, other ≠ name → Context.lookup (.facts (f.set name v.toDatum)) other =
      Context.lookup (.facts f) other := by
    intro other hother
    rw [Context.lookup, Context.lookup, Facts.get?_set_of_ne _ _ hother]
  refine ⟨reads_of_lookup henv hname hbound, values_set f name v, fun other hother => ?_⟩
  have hlookup := hothers other hother
  refine ⟨hlookup, fun hidentifier => ?_⟩
  have hvalue : (Leaf.name other.toList hidentifier).value
      (Context.facts (f.set name v.toDatum)).values =
        (Leaf.name other.toList hidentifier).value (Context.facts f).values := by
    simp only [Leaf.value, String.ofList_toList, Context.values, hlookup]
  rw [evaluateExpression_name henv _ hidentifier, evaluateExpression_name henv _ hidentifier,
    hvalue]
  cases (Leaf.name other.toList hidentifier).value (Context.facts f).values <;> rfl

/-- A compound assignment is read back by an expression and by a comparison, and the name on its
right side is left alone. -/
theorem evaluateExpression_readBackSample :
    ∃ context', evaluateExpression [] (.facts ⟨[("total", .int 5), ("rate", .int 3)]⟩)
        "total += rate" = .ok (.number (.finite false 8 0), context') ∧
      evaluateExpression [] context' "total" = .ok (.number (.finite false 8 0), context') ∧
      ConditionItem.holds context' ⟨"total", .gt, .int 7⟩ = .ok true ∧
      context'.lookup "rate" = .ok (some (.int 3)) := by
  obtain ⟨context', h⟩ := exists_of_number? (n := .finite false 8 0)
    (r := evaluateExpression [] (.facts ⟨[("total", .int 5), ("rate", .int 3)]⟩) "total += rate")
    (by decide +kernel)
  have htarget : target? "total += rate" = some "total" := by decide +kernel
  obtain ⟨hreads, -, hothers⟩ := evaluateExpression_readBack htarget h
  refine ⟨context', h, hreads.expression, ?_, (hothers "rate" (by decide)).1.trans rfl⟩
  rw [hreads.item]
  decide +kernel

/-- A text spelled like a literal means the literal, also if it was bound. -/
theorem reading_literal : ∃ context', target? "true = 5" = some "true" ∧
    evaluateExpression [] (.facts .empty) "true = 5" =
      .ok (.number (.finite false 5 0), context') ∧
    context'.lookup "true" = .ok (some (.decimal (.finite false 5 0))) ∧
    evaluateExpression [] context' "true" = .ok (.bool true, context') := by
  have htarget : target? "true = 5" = some "true" := by decide +kernel
  obtain ⟨context', h⟩ := exists_of_number? (n := .finite false 5 0)
    (r := evaluateExpression [] (.facts .empty) "true = 5") (by decide +kernel)
  obtain ⟨p, f, henv, -, rfl⟩ := exists_of_assigned htarget h
  have hbound : Context.lookup (.facts (f.set "true" (Value.number (.finite false 5 0)).toDatum))
      "true" = .ok (some (Value.number (.finite false 5 0)).toDatum) := by
    rw [Context.lookup, Facts.get?_set_self]
  exact ⟨_, htarget, h, hbound,
    (reads_of_lookup henv (isIdentifier_of_target? htarget) hbound).expression⟩

end BusinessRules.Expression
