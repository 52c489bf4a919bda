import BusinessRules.Proofs.Expression.Logic
import BusinessRules.Proofs.Expression.Refinement
import BusinessRules.Rule.Condition

/-!
# Structured conditions as texts

A comparison of a structured condition can be written as a text: the name, the operator and the
literal of the datum.  The texts of the first list and the disjunction of the second one, joined by
`and`, are a condition text that holds exactly if the structured condition does.

## Main definitions

* `ConditionItem.text`, `ConditionGroup.text`: the texts
* `ConditionItem.Writable`: comparisons whose texts mean what they do

## Main statements

* `ConditionItem.exists_atom`: the text of a comparison is an atom with its truth
* `ConditionGroup.evaluateCondition_written`: structured matching and text evaluation agree
-/

namespace BusinessRules

open Expression

/-! ## Comparison up to the way numbers are written -/

/-- Comparison sees alike values as one. -/
theorem Value.compare_congr_right (u : Value) {v w : Value} (h : Alike v w) :
    u.compare v = u.compare w := by
  rcases h with rfl | ⟨x, y, rfl, rfl, hxy⟩
  · rfl
  · have hnumbers : ∀ n, compareNumbers n x = compareNumbers n y := by
      intro n
      rw [compareNumbers, compareNumbers, Decimal.compare_congr_right hxy]
    cases u with
    | null => rfl
    | bool b => exact hnumbers _
    | number n => exact hnumbers _
    | text s => exact hnumbers _
    | list items => exact hnumbers _

/-! ## Joining lists -/

namespace Expression

/-- A connective in lower case between single spaces. -/
def Connective.spaced : (k : Connective) → Separator k
  | .and => .spaced ['a', 'n', 'd'] (by decide)
  | .or => .spaced ['o', 'r'] (by decide)

/-- The items of a list, of which there is at least one, with one separator between each two. -/
def Joined.ofList {k : Connective} {α : Type} (s : Separator k) (a : α) : List α → Joined k α
  | [] => .single a
  | b :: rest => .link a s (ofList s b rest)

section Joined

variable {k : Connective} {α : Type} (s : Separator k)

theorem Joined.items_ofList (a : α) (as : List α) : (ofList s a as).items = a :: as := by
  induction as generalizing a with
  | nil => rfl
  | cons b rest ih => rw [ofList, items, ih]

theorem Joined.text_ofList (item : α → List Char) (a : α) (as : List α) :
    (ofList s a as).text item = s.text.intercalate ((a :: as).map item) := by
  induction as generalizing a with
  | nil => simp [ofList, text, List.intercalate]
  | cons b rest ih =>
    rw [ofList, text, ih, List.map_cons, List.map_cons, List.map_cons,
      List.intercalate_cons_cons]

end Joined

end Expression

/-! ## Texts -/

/-- The text of a comparison: the name, the operator and the literal of the datum. -/
def ConditionItem.text (item : ConditionItem) : Outcome (List Char) :=
  (item.value.toValue.bind Literal.format).map fun literal =>
    item.name.toList ++ (' ' :: item.comparison.symbol.toList ++ [' ']) ++ literal

/-- The text of a group: the texts of the first list and, if there is one, the disjunction of the
second list, joined by `and`. -/
def ConditionGroup.text (g : ConditionGroup) : Outcome (List Char) := do
  let all ← (g.all.getD []).mapM ConditionItem.text
  let any ← (g.any.getD []).mapM ConditionItem.text
  let disjunction := if any.isEmpty then [] else [" or ".toList.intercalate any]
  return " and ".toList.intercalate (all ++ disjunction)

/-- The comparisons of a group. -/
def ConditionGroup.items (g : ConditionGroup) : List ConditionItem := g.all.getD [] ++ g.any.getD []

/-- A comparison that can be written in a context: its name is an identifier that is bound and is
neither a connective nor a literal, and its datum has a literal.  Numbers are finite, with powers of
ten that numerals may have. -/
structure ConditionItem.Writable (context : Context) (item : ConditionItem) : Prop where
  identifier : isIdentifier item.name.toList = true
  free : ∀ k : Connective, item.name.toList.map Char.toLower ∉ k.spellings
  noLiteral : Literal.word? item.name.toList = none
  bound : ∃ d, context.lookup item.name = .ok (some d)
  hasLiteral : ∃ v, item.value.toValue = .ok v ∧ v.hasLiteral = true
  inRange : ∀ n, item.value.toValue = .ok (.number n) → n.InRange

/-- A word that has a value whatever names stand for spells no connective. -/
theorem Expression.Leaf.not_spellsConnective {l : Leaf} {w : Value}
    (h : ∀ names, l.value names = .ok w) : ¬ l.SpellsConnective := by
  cases l with
  | number cs reads => exact id
  | quoted q cs isMark inside => exact id
  | name cs identifier =>
    rintro ⟨k, hk⟩
    have hvalue := h fun _ => .ok none
    rw [Leaf.value] at hvalue
    split at hvalue
    · next v hword =>
      rcases mem_toLower_of_word? hword with hlower | hlower | hlower
      all_goals
        rw [hlower] at hk
        cases k <;> revert hk <;> decide
    · cases hvalue

variable {context : Context}

/-- **The text of a comparison is an atom with its truth.** -/
theorem ConditionItem.exists_atom (p : Precision) {item : ConditionItem}
    (h : item.Writable context) : ∃ a : Atom, item.text = .ok a.text ∧
      a.truth p context.values = item.holds context := by
  obtain ⟨v, hv, hasLiteral⟩ := h.hasLiteral
  obtain ⟨literal, hliteral⟩ := Value.exists_format_of_hasLiteral hasLiteral
  obtain ⟨l, w, rfl, hvalue, halike, -⟩ :=
    exists_leaf_of_format hliteral fun n hn => h.inRange n (hn ▸ hv)
  obtain ⟨d, hbound⟩ := h.bound
  have hname : evaluateArithmetic p context.values item.name.toList = d.toValue := by
    have hleaf : evaluateArithmetic p context.values
        (Leaf.name item.name.toList h.identifier).text = _ := evaluateArithmetic_leaf _
    rw [Leaf.text] at hleaf
    rw [hleaf]
    cases hd : d.toValue <;> simp only [Leaf.value, h.noLiteral, String.ofList_toList,
      Context.values_of_lookup hbound, hd, Except.map]
  refine ⟨.comparison (.ofLeaf (.name _ h.identifier) fun hk => hk.elim h.free) .space
    item.comparison .space (.ofLeaf l (Leaf.not_spellsConnective hvalue)), ?_, ?_⟩
  · rw [ConditionItem.text, hv, Except.bind, hliteral]
    rfl
  · have hholds : item.holds context = d.compareWith item.comparison item.value := by
      simp only [ConditionItem.holds, hbound]
    rw [hholds, Atom.truth, show (Side.ofLeaf _ _).text = item.name.toList from rfl, hname,
      show (Side.ofLeaf l _).text = l.text from rfl, evaluateArithmetic_leaf, hvalue]
    cases hd : d.toValue with
    | error f =>
      rw [Datum.compareWith, hd]
      rfl
    | ok u =>
      rw [Datum.compareWith_of_values _ hd hv, Except.bind, Except.bind, Value.compareWith,
        Value.compareWith, Value.compare_congr_right _ halike]

/-- The texts of comparisons are those of atoms with their truths. -/
theorem ConditionItem.exists_atoms (p : Precision) {items : List ConditionItem}
    (h : ∀ item ∈ items, item.Writable context) :
    ∃ atoms : List Atom, items.mapM ConditionItem.text = .ok (atoms.map Atom.text) ∧
      atoms.map (Atom.truth p context.values) = items.map (ConditionItem.holds context) := by
  induction items with
  | nil => exact ⟨[], rfl, rfl⟩
  | cons item items ih =>
    obtain ⟨a, ha, htruth⟩ := ConditionItem.exists_atom p (h item List.mem_cons_self)
    obtain ⟨atoms, hatoms, htruths⟩ :=
      ih fun other hother => h other (List.mem_cons_of_mem item hother)
    refine ⟨a :: atoms, ?_, by rw [List.map_cons, List.map_cons, htruth, htruths]⟩
    rw [List.mapM_cons, ha, hatoms]
    rfl

/-! ## Groups -/

/-- The disjunction of all atoms of a list, if there is one. -/
def disjunction? : List Atom → List Disjunction
  | [] => []
  | a :: rest => [Joined.ofList Connective.or.spaced a rest]

/-- The disjunctions that the lists of a group are: one for each atom of the first list, and one
of all atoms of the second list. -/
def disjunctions (all any : List Atom) : List Disjunction := all.map .single ++ disjunction? any

theorem text_disjunctions (all any : List Atom) :
    (disjunctions all any).map (Joined.text Atom.text) = all.map Atom.text ++
      if (any.map Atom.text).isEmpty then []
      else [" or ".toList.intercalate (any.map Atom.text)] := by
  have hspaced : Connective.or.spaced.text = " or ".toList := by decide
  rw [disjunctions, List.map_append, List.map_map]
  cases any with
  | nil => rfl
  | cons a rest =>
    rw [disjunction?, List.map_singleton, Joined.text_ofList, hspaced]
    rfl

/-- Disjunctions of lists hold if the lists do. -/
theorem allOf_disjunctions (test : Atom → Outcome Bool) (all any : List Atom) :
    allOf (Disjunction.holds test) (disjunctions all any) =
      if allOf test all = .ok true then (if any = [] then .ok true else anyOf test any)
      else allOf test all := by
  have hsingle : ∀ a, Disjunction.holds test (.single a) = test a := by
    intro a
    rw [Disjunction.holds, Joined.items, anyOf_eq_testWhile, testWhile_singleton]
  have hall : testWhile true (Disjunction.holds test) (all.map .single) =
      testWhile true test all := by
    rw [testWhile_map]
    exact testWhile_congr fun _ a _ _ _ => hsingle a
  rw [allOf_eq_testWhile, allOf_eq_testWhile, disjunctions, testWhile_append, hall]
  cases any with
  | nil => rfl
  | cons a rest =>
    rw [disjunction?, testWhile_singleton, Disjunction.holds, Joined.items_ofList,
      if_neg (List.cons_ne_nil a rest)]

/-- A group holds if both lists do. -/
theorem ConditionGroup.holds_eq (context : Context) (g : ConditionGroup) : g.holds context =
    if allOf (ConditionItem.holds context) (g.all.getD []) = .ok true then
      (if g.any.getD [] = [] then .ok true else
        anyOf (ConditionItem.holds context) (g.any.getD []))
    else allOf (ConditionItem.holds context) (g.all.getD []) := by
  rw [ConditionGroup.holds, ConditionGroup.allHold, ConditionGroup.anyHolds]
  split
  · next h =>
    rw [h, if_pos rfl]
    cases g.any.getD [] with
    | nil => rfl
    | cons item rest => rw [if_neg (List.cons_ne_nil item rest)]
  · next h => rw [if_neg h]

/-- **Structured matching and text evaluation agree**: a group and its text both hold, both do not
hold, or both fail with the same fault. -/
theorem ConditionGroup.evaluateCondition_written {env : Environment} {p : Precision}
    (henv : env.precision = .ok p) (g : ConditionGroup)
    (hitems : ∀ item ∈ g.items, item.Writable context) :
    ∃ text, g.text = .ok text ∧
      evaluateCondition env context (String.ofList text) = g.holds context := by
  obtain ⟨all, halltext, halltruth⟩ := ConditionItem.exists_atoms p
    fun item hitem => hitems item (List.mem_append_left _ hitem)
  obtain ⟨any, hanytext, hanytruth⟩ := ConditionItem.exists_atoms p
    fun item hitem => hitems item (List.mem_append_right _ hitem)
  have htext : g.text = .ok (" and ".toList.intercalate
      ((disjunctions all any).map (Joined.text Atom.text))) := by
    rw [ConditionGroup.text, halltext, hanytext, text_disjunctions]
    rfl
  have hall : allOf (Atom.truth p context.values) all =
      allOf (ConditionItem.holds context) (g.all.getD []) := by
    rw [allOf_eq_testWhile, allOf_eq_testWhile]
    exact testWhile_eq_of_map halltruth
  have hany : anyOf (Atom.truth p context.values) any =
      anyOf (ConditionItem.holds context) (g.any.getD []) := by
    rw [anyOf_eq_testWhile, anyOf_eq_testWhile]
    exact testWhile_eq_of_map hanytruth
  have hempty : any = [] ↔ g.any.getD [] = [] := by
    rw [← List.map_eq_nil_iff (f := Atom.truth p context.values), hanytruth, List.map_eq_nil_iff]
  refine ⟨_, htext, ?_⟩
  rw [ConditionGroup.holds_eq, ← hall, ← hany]
  simp only [← hempty]
  rw [← allOf_disjunctions]
  -- Without comparisons the text is blank, and holds as the group does.
  cases hpieces : disjunctions all any with
  | nil =>
    rw [evaluateCondition, if_pos]
    · rfl
    · rfl
  | cons d rest =>
    have hspaced : Connective.and.spaced.text = " and ".toList := by decide
    have hevaluate := evaluateCondition_text env context
      (Joined.ofList Connective.and.spaced d rest) .none .none
    rw [show Text.Blanks.none.chars = [] from rfl, List.nil_append, List.append_nil, henv,
      Except.bind, Conjunction.holds, Joined.items_ofList, Conjunction.text, Joined.text_ofList,
      hspaced] at hevaluate
    exact hevaluate

/-- One comparison of a number, and one of a text with two texts of which one holds a connective
and the other one a quote mark. -/
def sampleGroup : ConditionGroup where
  all := some [⟨"x", .gt, .int 5⟩]
  any := some [⟨"y", .eq, .text "a and b"⟩, ⟨"y", .eq, .text "it's"⟩]

/-- The text of a group is split where the group is, and nowhere else. -/
theorem ConditionGroup.evaluateCondition_writtenSample :
    evaluateCondition [] (.facts ⟨[("x", .int 7), ("y", .text "it's")]⟩)
      "x > 5 and y == 'a and b' or y == \"it's\"" = .ok true := by
  have henv : Environment.precision [] = .ok ⟨28, by decide, by decide⟩ := rfl
  have hitems : ∀ item ∈ sampleGroup.items, item.Writable
      (.facts ⟨[("x", .int 7), ("y", .text "it's")]⟩) := by
    intro item hitem
    have hfree : ∀ c ∈ ['x', 'y'], ∀ k : Connective, [c].map Char.toLower ∉ k.spellings := by
      intro c hc k
      rcases List.mem_pair.1 hc with rfl | rfl <;> cases k <;> decide
    have htext : ∀ t : String, ∀ n, (Datum.text t).toValue = .ok (.number n) → n.InRange := by
      intro t n hn
      simp [Datum.toValue] at hn
    simp only [sampleGroup, ConditionGroup.items, Option.getD_some, List.cons_append,
      List.nil_append, List.mem_cons, List.not_mem_nil, or_false] at hitem
    rcases hitem with rfl | rfl | rfl
    · refine ⟨by decide, hfree 'x' (by simp), by decide, ⟨.int 7, rfl⟩, ⟨_, rfl, by decide⟩, ?_⟩
      intro n hn
      simp only [Datum.toValue, Except.ok.injEq, Value.number.injEq] at hn
      exact ⟨false, 5, 0, hn.symm, by decide, by decide +kernel⟩
    · exact ⟨by decide, hfree 'y' (by simp), by decide, ⟨.text "it's", rfl⟩, ⟨_, rfl, by decide⟩,
        htext _⟩
    · exact ⟨by decide, hfree 'y' (by simp), by decide, ⟨.text "it's", rfl⟩, ⟨_, rfl, by decide⟩,
        htext _⟩
  obtain ⟨text, htext, hevaluate⟩ := evaluateCondition_written henv sampleGroup hitems
  have hconcrete : sampleGroup.text =
      .ok "x > 5 and y == 'a and b' or y == \"it's\"".toList := by decide +kernel
  rw [hconcrete] at htext
  cases htext
  rw [String.ofList_toList] at hevaluate
  rw [hevaluate]
  decide +kernel

end BusinessRules
