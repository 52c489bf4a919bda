import BusinessRules.Document.Yaml
import BusinessRules.Proofs.Document.Yaml.Token

/-!
# Why texts with indentation cannot be read

Tokens that hold no faults but those of texts make up a tree, or fail to for such a fault; and so
does a tree denote a datum, or fail to.

## Main definitions

* `Yaml.Node.Careful`: results of readers that fail for the faults of texts only

## Main statements

* `Yaml.Node.careful_read` and its companions: the readers of nodes, by induction on the tokens
  that are left
* `Yaml.Node.unreadable_datumAt` and its companions: what trees denote, by induction on the tree
* `Yaml.unreadable_parse`: the faults of texts
* `Yaml.raisesIn_read`: the classes of those that are no matter of form
-/

namespace BusinessRules.Yaml

variable {ts : List Token} {f : Fault}

namespace Node

/-! ## Trees of tokens -/

/-- A reader that fails only for the faults of texts, and leaves sound tokens. -/
def Careful {α : Type} {P : List Token → Prop} (o : Outcome (α × { rest // P rest })) : Prop :=
  match o with
  | .error f => Unreadable f
  | .ok (_, rest) => Sound rest.1

theorem Careful.map {α β : Type} {P Q : List Token → Prop}
    {o : Outcome (α × { rest // P rest })} (h : Careful o)
    {g : α × { rest // P rest } → β × { rest // Q rest }} (hg : ∀ x, (g x).2.1 = x.2.1) :
    Careful (o.map g) := by
  cases o with
  | error f => exact h
  | ok x =>
    have hx : Sound x.2.1 := h
    rw [← hg x] at hx
    exact hx

theorem Careful.unreadable {α : Type} {P : List Token → Prop}
    {o : Outcome (α × { rest // P rest })} (h : Careful o) (ho : o = .error f) : Unreadable f := by
  rw [ho] at h
  exact h

theorem Careful.sound {α : Type} {P : List Token → Prop} {o : Outcome (α × { rest // P rest })}
    (h : Careful o) {a : α} {rest : { rest // P rest }} (ho : o = .ok (a, rest)) :
    Sound rest.1 := by
  rw [ho] at h
  exact h

theorem unreadable_misplaced (h : Sound ts) : Unreadable (misplaced ts) := by
  rw [misplaced.eq_def]
  split
  · next f r => exact h f List.mem_cons_self
  · exact .invalid

mutual

theorem careful_read (place : Place) (ts : List Token) (h : Sound ts) :
    Careful (read place ts) := by
  rw [read.eq_def]
  split
  · exact h.tail
  · next r => exact (careful_readItems r h.tail).map fun _ => rfl
  · next r => exact (careful_readMembers r h.tail).map fun _ => rfl
  · next r =>
    split
    · exact .invalid
    · exact (careful_readEntries .looseEntry r h.tail).map fun _ => rfl
  · next r =>
    split
    · exact Unreadable.invalid
    · have hentries := careful_readEntries .entry r h.tail.tail
      split
      · next hread => exact hentries.unreadable hread
      · next hread => exact (hentries.sound hread).tail
      · next hread => exact unreadable_misplaced (hentries.sound hread)
  · next r =>
    split
    · exact Unreadable.invalid
    · have hpairs := careful_readPairs r h.tail.tail
      split
      · next hread => exact hpairs.unreadable hread
      · next hread => exact (hpairs.sound hread).tail
      · next hread => exact unreadable_misplaced (hpairs.sound hread)
  · exact unreadable_misplaced h
termination_by (ts.length, 0)

theorem careful_readOptional (place : Place) (ts : List Token) (h : Sound ts) :
    Careful (readOptional place ts) := by
  rw [readOptional]
  split
  · exact h
  · exact (careful_read place ts h).map fun _ => rfl
termination_by (ts.length, 1)

theorem careful_readValue (place : Place) (ts : List Token) (h : Sound ts) :
    Careful (readValue place ts) := by
  rw [readValue.eq_def]
  split
  · next r => exact (careful_readOptional place r h.tail).map fun _ => rfl
  · exact h
termination_by (ts.length, 2)

theorem careful_readPair (place : Place) (ts : List Token) (h : Sound ts) :
    Careful (readPair place ts) := by
  rw [readPair]
  have hkey := careful_readOptional place ts h
  split
  · next hread => exact hkey.unreadable hread
  · next key r hread =>
    have hle := r.2
    exact (careful_readValue place r.1 (hkey.sound hread)).map fun _ => rfl
termination_by (ts.length, 3)
decreasing_by
  · exact Prod.Lex.right _ (by omega)
  · rcases Nat.lt_or_eq_of_le hle with hless | heq
    · exact Prod.Lex.left _ _ hless
    · rw [heq]
      exact Prod.Lex.right _ (by omega)

theorem careful_readEntries (place : Place) (ts : List Token) (h : Sound ts) :
    Careful (readEntries place ts) := by
  rw [readEntries.eq_def]
  have hitem := careful_readOptional place ts h
  split
  · next hread => exact hitem.unreadable hread
  · next item r hr hread =>
    exact (careful_readEntries place r (hitem.sound hread).tail).map fun _ => rfl
  · next hread => exact hitem.sound hread
termination_by (ts.length, 4)

theorem careful_readPairs (ts : List Token) (h : Sound ts) : Careful (readPairs ts) := by
  rw [readPairs.eq_def]
  have hentry := careful_readPair .pair ts h
  split
  · next hread => exact hentry.unreadable hread
  · next entry r hr hread =>
    exact (careful_readPairs r (hentry.sound hread).tail).map fun _ => rfl
  · next hread => exact hentry.sound hread
termination_by (ts.length, 4)

theorem careful_readItems (ts : List Token) (h : Sound ts) : Careful (readItems ts) := by
  rw [readItems.eq_def]
  split
  · exact h.tail
  · next r =>
    have hentry := careful_readPair .flow r h.tail
    split
    · next hread => exact hentry.unreadable hread
    · next hread => exact (hentry.sound hread).tail
    · next entry r' hr hread =>
      have hless : r'.length < (Token.key :: r).length := Nat.lt_succ_of_lt hr
      exact (careful_readItems r' (hentry.sound hread).tail).map fun _ => rfl
    · next hread => exact unreadable_misplaced (hentry.sound hread)
  · have hitem := careful_read .flow ts h
    split
    · next hread => exact hitem.unreadable hread
    · next hread => exact (hitem.sound hread).tail
    · next item r' hr hread =>
      have hless : r'.length < ts.length := Nat.lt_of_succ_lt hr
      exact (careful_readItems r' (hitem.sound hread).tail).map fun _ => rfl
    · next hread => exact unreadable_misplaced (hitem.sound hread)
termination_by (ts.length, 4)

theorem careful_readMembers (ts : List Token) (h : Sound ts) : Careful (readMembers ts) := by
  rw [readMembers.eq_def]
  split
  · exact h.tail
  · next r =>
    have hentry := careful_readPair .flow r h.tail
    split
    · next hread => exact hentry.unreadable hread
    · next hread => exact (hentry.sound hread).tail
    · next entry r' hr hread =>
      have hless : r'.length < (Token.key :: r).length := Nat.lt_succ_of_lt hr
      exact (careful_readMembers r' (hentry.sound hread).tail).map fun _ => rfl
    · next hread => exact unreadable_misplaced (hentry.sound hread)
  · have hkey := careful_read .flow ts h
    split
    · next hread => exact hkey.unreadable hread
    · next hread => exact (hkey.sound hread).tail
    · next key r' hr hread =>
      have hless : r'.length < ts.length := Nat.lt_of_succ_lt hr
      exact (careful_readMembers r' (hkey.sound hread).tail).map fun _ => rfl
    · next hread => exact unreadable_misplaced (hkey.sound hread)
termination_by (ts.length, 4)

end

theorem Careful.readRoot {o : Outcome (Node × Rest ts)} (h : Careful o) :
    (∀ f, (o.map fun (node, rest) => (node, rest.1)) = .error f → Unreadable f) ∧
      ∀ node rest, (o.map fun (node, rest) => (node, rest.1)) = .ok (node, rest) → Sound rest := by
  refine ⟨fun f hf => h.unreadable (error_of_map hf), fun node rest hrest => ?_⟩
  cases o with
  | error f => cases hrest
  | ok x =>
    cases hrest
    exact h.sound rfl

theorem careful_readRoot (h : Sound ts) :
    (∀ f, readRoot ts = .error f → Unreadable f) ∧
      ∀ node rest, readRoot ts = .ok (node, rest) → Sound rest := by
  rw [readRoot.eq_def]
  split
  · exact ⟨nofun, fun _ _ hrest => by cases hrest; exact h⟩
  · next r =>
    split
    · exact ⟨nofun, fun _ _ hrest => by cases hrest; exact h.tail⟩
    · exact ⟨nofun, fun _ _ hrest => by cases hrest; exact h.tail⟩
    · exact (careful_read .entry r h.tail).readRoot
  · exact (careful_read .entry ts h).readRoot

theorem unreadable_ofTokens (h : Sound ts) (ho : ofTokens ts = .error f) : Unreadable f := by
  rw [ofTokens] at ho
  have hroot := careful_readRoot h
  split at ho
  · next hread =>
    cases ho
    exact hroot.1 _ hread
  · next node rest hread =>
    split at ho
    · cases ho
    · next hrest =>
      cases ho
      refine unreadable_misplaced ((hroot.2 node rest hread).of_subset ?_)
      exact (List.dropWhile_suffix _).subset

/-! ## What trees denote -/

theorem unreadable_denote {cs : List Char} (h : Scalar.denote cs = .error f) : Unreadable f := by
  rw [Scalar.denote] at h
  split at h
  · cases h
  · split at h
    · cases h
    · split at h
      · cases h
      · split at h
        · cases h
          exact .invalid
        · split at h
          · cases h
            exact .tooLong _
          · split at h <;> cases h

theorem unreadable_scalarDatum {plain : Bool} {text : List Char}
    (h : scalarDatum plain text = .error f) : Unreadable f := by
  rw [scalarDatum] at h
  split at h
  · exact unreadable_denote h
  · cases h

theorem unreadable_keyDatum {n : Node} (h : n.keyDatum = .error f) : Unreadable f := by
  rw [keyDatum.eq_def] at h
  split at h
  · cases h
  · exact unreadable_scalarDatum h
  · cases h
    exact .invalid

/-- Of two results one has the fault. -/
theorem both_error {α β : Type} {o : Graded α} {o' : Graded β} {e : Nat × Fault}
    (h : both o o' = .error e) : o = .error e ∨ o' = .error e := by
  cases o with
  | ok a =>
    cases o' with
    | ok b => cases h
    | error g =>
      cases h
      exact .inr rfl
  | error g =>
    cases o' with
    | ok b =>
      cases h
      exact .inl rfl
    | error g' =>
      rw [both] at h
      split at h
      · cases h
        exact .inr rfl
      · cases h
        exact .inl rfl

mutual

theorem unreadable_datumAt (depth : Nat) (n : Node) {e : Nat × Fault}
    (h : n.datumAt depth = .error e) : Unreadable e.2 := by
  cases n with
  | scalar plain text =>
    obtain ⟨f, hf, rfl⟩ := error_of_mapError h
    exact unreadable_scalarDatum hf
  | sequence items => exact unreadable_itemsAt (depth + 1) items (error_of_map h)
  | mapping entries => exact unreadable_entriesAt (depth + 1) entries (error_of_map h)

theorem unreadable_itemsAt (depth : Nat) (ns : List Node) {e : Nat × Fault}
    (h : itemsAt depth ns = .error e) : Unreadable e.2 := by
  cases ns with
  | nil => cases h
  | cons n ns =>
    rcases both_error (error_of_map h) with h | h
    · exact unreadable_datumAt depth n h
    · exact unreadable_itemsAt depth ns h

theorem unreadable_entriesAt (depth : Nat) (es : List (Node × Node)) {e : Nat × Fault}
    (h : entriesAt depth es = .error e) : Unreadable e.2 := by
  match es with
  | [] => cases h
  | (k, v) :: es =>
    rcases both_error (error_of_map h) with h | h
    · rcases both_error h with h | h
      · obtain ⟨f, hf, rfl⟩ := error_of_mapError h
        exact unreadable_keyDatum hf
      · exact unreadable_datumAt depth v h
    · exact unreadable_entriesAt depth es h

end

theorem unreadable_toDatum {n : Node} (h : n.toDatum = .error f) : Unreadable f := by
  obtain ⟨e, he, rfl⟩ := error_of_mapError h
  exact unreadable_datumAt 0 n he

end Node

/-- **Why a text cannot be read**: it is not in the notation, or holds a number or an escape beyond
bounds. -/
theorem unreadable_parse {s : String} (h : parse s = .error f) : Unreadable f := by
  rw [parse] at h
  split at h
  · next htokens =>
    cases h
    exact Node.unreadable_ofTokens (sound_ofText s.toList) htokens
  · exact Node.unreadable_toDatum h

/-- What the reader gives up for, if not for the form of a text, is a number or an escape beyond
bounds. -/
theorem raisesIn_read : read.RaisesIn (· ∈ [.value, .wordOverflow]) := by
  intro s f h
  rw [read] at h
  split at h
  · cases h
  · cases h
  · next g hinvalid hparse =>
    cases h
    cases unreadable_parse hparse with
    | invalid => exact absurd rfl hinvalid
    | tooLong | escapeOutOfRange => exact List.mem_cons_self
    | escapeTooLarge => exact List.mem_cons_of_mem _ List.mem_cons_self

end BusinessRules.Yaml
