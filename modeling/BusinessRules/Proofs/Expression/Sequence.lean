import Mathlib.Data.Option.Basic
import BusinessRules.Proofs.Text.Trim

/-!
# Operands in sequence and the ladder over them

An arithmetic text without groups is a sequence of operands with an operation between each two.
The ladder says in which order the operations are carried out: a sequence is taken apart at its
first addition, else at its last subtraction, else at its first multiplication, else at its last
division, and its two parts likewise.  So additions are carried out last, and divisions first.

The operands may be anything, texts as well as values; what the ladder does depends on the
operations alone.

## Main definitions

* `Operation`: the four operations
* `Sequence`: operands with operations, and the blanks around these, between them
* `mainSplit?`: the two parts at which a sequence is taken apart
* `ladder`: the result of a sequence under given operations

## Main statements

* `eq_join_of_mainSplit?`: the two parts make up the sequence
* `Related.ladder`: related operands have related results
* `ladder_map_of_mainSplit?`: the results of mapped operands
-/

namespace BusinessRules.Expression

open Text (Blanks)

/-- An arithmetic operation. -/
inductive Operation where
  | add
  | sub
  | mul
  | div
  deriving DecidableEq, Repr

/-- How an operation is written. -/
def Operation.symbol : Operation → Char
  | .add => '+'
  | .sub => '-'
  | .mul => '*'
  | .div => '/'

/-- Operands with operations between them. -/
inductive Sequence (α : Type) where
  | single (operand : α)
  | link (operand : α) (before : Blanks) (op : Operation) (after : Blanks) (rest : Sequence α)

namespace Sequence

variable {α β : Type}

/-- The operands, from left to right. -/
def operands : Sequence α → List α
  | single a => [a]
  | link a _ _ _ rest => a :: operands rest

/-- The number of operands. -/
def size : Sequence α → Nat
  | single _ => 1
  | link _ _ _ _ rest => rest.size + 1

/-- Two sequences with an operation between them. -/
def join : Sequence α → Blanks → Operation → Blanks → Sequence α → Sequence α
  | single a, before, op, after, t => link a before op after t
  | link a b o c rest, before, op, after, t => link a b o c (rest.join before op after t)

/-- The two parts of a sequence on both sides of an operation. -/
structure Split (α : Type) where
  left : Sequence α
  before : Blanks
  after : Blanks
  right : Sequence α

/-- The sequence that two parts make up. -/
def Split.join (s : Split α) (op : Operation) : Sequence α :=
  s.left.join s.before op s.after s.right

/-- The parts on both sides of the first occurrence of an operation. -/
def firstSplit? (op : Operation) : Sequence α → Option (Split α)
  | single _ => none
  | link a before o after rest =>
    if o = op then some ⟨single a, before, after, rest⟩
    else (firstSplit? op rest).map fun s => { s with left := link a before o after s.left }

/-- The parts on both sides of the last occurrence of an operation. -/
def lastSplit? (op : Operation) : Sequence α → Option (Split α)
  | single _ => none
  | link a before o after rest =>
    ((lastSplit? op rest).map fun s => { s with left := link a before o after s.left }).or
      (if o = op then some ⟨single a, before, after, rest⟩ else none)

/-- The operation at which a sequence is taken apart, and its parts. -/
def mainSplit? (s : Sequence α) : Option (Operation × Split α) :=
  ((s.firstSplit? .add).map (.add, ·)).or <|
    ((s.lastSplit? .sub).map (.sub, ·)).or <|
      ((s.firstSplit? .mul).map (.mul, ·)).or <|
        (s.lastSplit? .div).map (.div, ·)

/-! ## The parts of a sequence -/

theorem size_join (s : Sequence α) (before : Blanks) (op : Operation) (after : Blanks)
    (t : Sequence α) : (s.join before op after t).size = s.size + t.size := by
  induction s with
  | single a => rw [join, size, size, Nat.add_comm]
  | link a b o c rest ih => rw [join, size, size, ih, Nat.add_right_comm]

theorem size_pos (s : Sequence α) : 0 < s.size := by
  cases s with
  | single a => exact Nat.one_pos
  | link a b o c rest => exact Nat.succ_pos _

theorem operands_join (s : Sequence α) (before : Blanks) (op : Operation) (after : Blanks)
    (t : Sequence α) : (s.join before op after t).operands = s.operands ++ t.operands := by
  induction s with
  | single a => rfl
  | link a b o c rest ih => rw [join, operands, operands, ih, List.cons_append]

theorem eq_join_of_firstSplit? {op : Operation} {s : Sequence α} {t : Split α}
    (h : s.firstSplit? op = some t) : s = t.join op := by
  induction s generalizing t with
  | single a => cases h
  | link a before o after rest ih =>
    rw [firstSplit?] at h
    split at h
    · next ho =>
      cases h
      rw [ho]
      rfl
    · obtain ⟨u, hu, rfl⟩ := Option.map_eq_some_iff.1 h
      exact congrArg (link a before o after) (ih hu)

theorem eq_join_of_lastSplit? {op : Operation} {s : Sequence α} {t : Split α}
    (h : s.lastSplit? op = some t) : s = t.join op := by
  induction s generalizing t with
  | single a => cases h
  | link a before o after rest ih =>
    rw [lastSplit?, Option.or_eq_some_iff] at h
    rcases h with h | ⟨-, h⟩
    · obtain ⟨u, hu, rfl⟩ := Option.map_eq_some_iff.1 h
      exact congrArg (link a before o after) (ih hu)
    · split at h
      · next ho =>
        cases h
        rw [ho]
        rfl
      · cases h

/-- **The two parts make up the sequence.** -/
theorem eq_join_of_mainSplit? {s : Sequence α} {op : Operation} {t : Split α}
    (h : s.mainSplit? = some (op, t)) : s = t.join op := by
  simp only [mainSplit?, Option.or_eq_some_iff, Option.map_eq_some_iff, Prod.mk.injEq] at h
  rcases h with ⟨u, hu, rfl, rfl⟩ |
    ⟨-, ⟨u, hu, rfl, rfl⟩ | ⟨-, ⟨u, hu, rfl, rfl⟩ | ⟨-, u, hu, rfl, rfl⟩⟩⟩
  · exact eq_join_of_firstSplit? hu
  · exact eq_join_of_lastSplit? hu
  · exact eq_join_of_firstSplit? hu
  · exact eq_join_of_lastSplit? hu

theorem size_lt_of_mainSplit? {s : Sequence α} {op : Operation} {t : Split α}
    (h : s.mainSplit? = some (op, t)) : t.left.size < s.size ∧ t.right.size < s.size := by
  have hsize : s.size = t.left.size + t.right.size := by
    rw [eq_join_of_mainSplit? h, Split.join, size_join]
  have := size_pos t.left
  have := size_pos t.right
  omega

/-- Only a single operand cannot be taken apart. -/
theorem exists_single_of_mainSplit? {s : Sequence α} (h : s.mainSplit? = none) :
    ∃ a, s = single a := by
  cases s with
  | single a => exact ⟨a, rfl⟩
  | link a before o after rest =>
    exfalso
    simp only [mainSplit?, Option.or_eq_none_iff, Option.map_eq_none_iff] at h
    obtain ⟨hadd, hsub, hmul, hdiv⟩ := h
    cases o with
    | add => simp [firstSplit?] at hadd
    | sub => simp [lastSplit?] at hsub
    | mul => simp [firstSplit?] at hmul
    | div => simp [lastSplit?] at hdiv

/-! ## The ladder -/

/-- The first operand. -/
def head : Sequence α → α
  | single a => a
  | link a _ _ _ _ => a

/-- The result of a sequence of operands under given operations. -/
def ladder (apply : Operation → α → α → α) (s : Sequence α) : α :=
  match _h : s.mainSplit? with
  | some (op, t) => apply op (ladder apply t.left) (ladder apply t.right)
  | none => s.head
termination_by s.size
decreasing_by
  · exact (size_lt_of_mainSplit? _h).1
  · exact (size_lt_of_mainSplit? _h).2

theorem ladder_of_mainSplit? (apply : Operation → α → α → α) {s : Sequence α} {op : Operation}
    {t : Split α} (h : s.mainSplit? = some (op, t)) :
    s.ladder apply = apply op (t.left.ladder apply) (t.right.ladder apply) := by
  rw [ladder]
  split
  · next h' =>
    rw [h] at h'
    cases h'
    rfl
  · next h' =>
    rw [h] at h'
    cases h'

@[simp] theorem ladder_single (apply : Operation → α → α → α) (a : α) :
    (single a).ladder apply = a := by
  rw [ladder]
  rfl

/-! ## Related sequences -/

/-- Two sequences with the same operations whose operands are related one by one. -/
inductive Related (R : α → β → Prop) : Sequence α → Sequence β → Prop
  | single {a : α} {b : β} : R a b → Related R (.single a) (.single b)
  | link {a : α} {b : β} {before : Blanks} {op : Operation} {after : Blanks} {s : Sequence α}
      {t : Sequence β} : R a b → Related R s t →
      Related R (.link a before op after s) (.link b before op after t)

/-- Two pairs of parts, related one by one. -/
structure Split.Related (R : α → β → Prop) (s : Split α) (t : Split β) : Prop where
  left : Sequence.Related R s.left t.left
  right : Sequence.Related R s.right t.right

variable {R : α → β → Prop} {s : Sequence α} {t : Sequence β}

theorem Related.firstSplit? (h : Related R s t) (op : Operation) :
    Option.Rel (Split.Related R) (s.firstSplit? op) (t.firstSplit? op) := by
  induction h with
  | single _ => exact .none
  | @link a b before o after s t hab hst ih =>
    rw [Sequence.firstSplit?, Sequence.firstSplit?]
    split
    · exact .some ⟨.single hab, hst⟩
    · revert ih
      generalize s.firstSplit? op = x, t.firstSplit? op = y
      rintro (⟨hu⟩ | _)
      · exact .some ⟨.link hab hu.left, hu.right⟩
      · exact .none

theorem Related.lastSplit? (h : Related R s t) (op : Operation) :
    Option.Rel (Split.Related R) (s.lastSplit? op) (t.lastSplit? op) := by
  induction h with
  | single _ => exact .none
  | @link a b before o after s t hab hst ih =>
    rw [Sequence.lastSplit?, Sequence.lastSplit?]
    revert ih
    generalize s.lastSplit? op = x, t.lastSplit? op = y
    rintro (⟨hu⟩ | _)
    · exact .some ⟨.link hab hu.left, hu.right⟩
    · simp only [Option.map_none, Option.none_or]
      split
      · exact .some ⟨.single hab, hst⟩
      · exact .none

/-- Related sequences are taken apart at the same operation. -/
theorem Related.mainSplit? (h : Related R s t) :
    (s.mainSplit? = none ∧ t.mainSplit? = none) ∨
      ∃ op u v, s.mainSplit? = some (op, u) ∧ t.mainSplit? = some (op, v) ∧ u.Related R v := by
  have hrel : ∀ {x : Option (Split α)} {y : Option (Split β)}, Option.Rel (Split.Related R) x y →
      (x = none ∧ y = none) ∨ ∃ u v, x = some u ∧ y = some v ∧ u.Related R v := by
    rintro _ _ (⟨huv⟩ | _)
    · exact .inr ⟨_, _, rfl, rfl, huv⟩
    · exact .inl ⟨rfl, rfl⟩
  simp only [Sequence.mainSplit?]
  rcases hrel (h.firstSplit? .add) with ⟨hs, ht⟩ | ⟨u, v, hs, ht, huv⟩
  swap
  · exact .inr ⟨.add, u, v, by rw [hs]; rfl, by rw [ht]; rfl, huv⟩
  rw [hs, ht]
  rcases hrel (h.lastSplit? .sub) with ⟨hs, ht⟩ | ⟨u, v, hs, ht, huv⟩
  swap
  · exact .inr ⟨.sub, u, v, by rw [hs]; rfl, by rw [ht]; rfl, huv⟩
  rw [hs, ht]
  rcases hrel (h.firstSplit? .mul) with ⟨hs, ht⟩ | ⟨u, v, hs, ht, huv⟩
  swap
  · exact .inr ⟨.mul, u, v, by rw [hs]; rfl, by rw [ht]; rfl, huv⟩
  rw [hs, ht]
  rcases hrel (h.lastSplit? .div) with ⟨hs, ht⟩ | ⟨u, v, hs, ht, huv⟩
  · exact .inl ⟨by rw [hs]; rfl, by rw [ht]; rfl⟩
  · exact .inr ⟨.div, u, v, by rw [hs]; rfl, by rw [ht]; rfl, huv⟩

/-- **Related operands have related results**, if the operations respect the relation. -/
theorem Related.ladder {f : Operation → α → α → α} {g : Operation → β → β → β}
    (hfg : ∀ op a a' b b', R a b → R a' b' → R (f op a a') (g op b b')) (h : Related R s t) :
    R (s.ladder f) (t.ladder g) := by
  induction hn : s.size using Nat.strong_induction_on generalizing s t with
  | _ n ih =>
    rcases h.mainSplit? with ⟨hs, ht⟩ | ⟨op, u, v, hs, ht, huv⟩
    · obtain ⟨a, rfl⟩ := exists_single_of_mainSplit? hs
      obtain ⟨b, rfl⟩ := exists_single_of_mainSplit? ht
      rw [ladder_single, ladder_single]
      cases h with
      | single hab => exact hab
    · have hlt := size_lt_of_mainSplit? hs
      rw [ladder_of_mainSplit? f hs, ladder_of_mainSplit? g ht]
      exact hfg op _ _ _ _ (ih _ (hn ▸ hlt.1) huv.left rfl) (ih _ (hn ▸ hlt.2) huv.right rfl)

/-! ## Mapped sequences -/

/-- The sequence with a function applied to each operand. -/
def map (f : α → β) : Sequence α → Sequence β
  | single a => single (f a)
  | link a before op after rest => link (f a) before op after (rest.map f)

theorem related_map (f : α → β) (s : Sequence α) : Related (fun a b => b = f a) s (s.map f) := by
  induction s with
  | single a => exact .single rfl
  | link a before op after rest ih => exact .link rfl ih

theorem Related.eq_map {f : α → β} {s : Sequence α} {t : Sequence β}
    (h : Related (fun a b => b = f a) s t) : t = s.map f := by
  induction h with
  | single h => rw [h, map]
  | link h _ ih => rw [h, ih, map]

/-- The results of mapped operands, when the sequence is taken apart. -/
theorem ladder_map_of_mainSplit? (apply : Operation → β → β → β) (f : α → β) {s : Sequence α}
    {op : Operation} {t : Split α} (h : s.mainSplit? = some (op, t)) :
    (s.map f).ladder apply =
      apply op ((t.left.map f).ladder apply) ((t.right.map f).ladder apply) := by
  rcases (related_map f s).mainSplit? with ⟨hs, -⟩ | ⟨op', u, v, hs, hv, huv⟩
  · rw [h] at hs
    cases hs
  · rw [h] at hs
    cases hs
    rw [ladder_of_mainSplit? apply hv, huv.left.eq_map, huv.right.eq_map]

end Sequence

end BusinessRules.Expression
