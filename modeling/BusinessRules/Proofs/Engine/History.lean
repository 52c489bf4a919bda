import BusinessRules.Engine.Loading
import BusinessRules.Proofs.Engine.Order

/-!
# Registries and their history

The rules of an engine and the order in which they are evaluated are told by the changes that have
been made: of each identifier the rule that was added latest, unless the identifier was dropped
since, and among rules of one priority the one first whose identifier has been present for longer.
A rule that replaces another one keeps its moment of entry, whatever its priority; an identifier
that was dropped enters anew.

## Main definitions

* `Change`, `History`: the changes of a registry, and lists of them
* `History.standing?`, `History.entered?`: the rule of an identifier, and since when it has one
* `Session.replay`: the session after a history
* `Session.Follows`: a session whose rules are those that a history leaves
* `Session.HoldsOnly`: a session all of whose rules have a property

## Main statements

* `recorded_replay`: what every change keeps, by induction over the history
* `follows_history`: sessions follow their history, those of documents included
-/

namespace BusinessRules

variable {β : Type}

/-- A change of the rules of an engine. -/
inductive Change (β : Type) where
  | add (rule : Rule β)
  | remove (id : String)
  | clear

namespace Change

/-- Whether a change leaves an identifier without a rule.  The empty identifier is never removed by
itself. -/
def drops (id : String) : Change β → Bool
  | add _ => false
  | remove i => i = id && !i.isEmpty
  | clear => true

/-- The rule that a change gives to an identifier. -/
def rule? (id : String) : Change β → Option (Rule β)
  | add rule => if rule.id = id then some rule else none
  | _ => none

end Change

/-- The changes that have been made, the latest one first. -/
abbrev History (β : Type) := List (Change β)

namespace History

/-- The rule of an identifier: the one that was added latest, unless it was dropped since. -/
def standing? (id : String) : History β → Option (Rule β)
  | [] => none
  | change :: earlier =>
    if change.drops id then none else (change.rule? id).or (standing? id earlier)

/-- The moment at which an identifier was first added since it was last absent, as the number of
changes that had been made before. -/
def entered? (id : String) : History β → Option Nat
  | [] => none
  | change :: earlier =>
    if change.drops id then none
    else (entered? id earlier).or ((change.rule? id).map fun _ => earlier.length)

/-- Whether one identifier has been present for longer than another one. -/
def Elder (history : History β) (i j : String) : Prop :=
  ∃ m n, entered? i history = some m ∧ entered? j history = some n ∧ m < n

/-- Whether one rule is evaluated before another one: it has the higher priority, or the same
priority and the elder identifier. -/
def Before (history : History β) (r s : Rule β) : Prop :=
  s.priority < r.priority ∨ s.priority = r.priority ∧ history.Elder r.id s.id

/-- The history of rules that were added one after the other. -/
def ofRules (rules : List (Rule β)) : History β := (rules.map .add).reverse

end History

namespace Session

/-- The session after a change. -/
def change (s : Session β) : Change β → Session β
  | .add rule => s.addRule rule
  | .remove id => (s.removeRule id).2
  | .clear => s.clearRules

/-- The session after a history. -/
def replay (s : Session β) : History β → Session β
  | [] => s
  | change :: earlier => (s.replay earlier).change change

/-- A session whose rules are those that a history leaves, each once and in the order of the
history, and whose lookups and removals agree with them. -/
structure Follows (s : Session β) (history : History β) : Prop where
  mem_iff : ∀ rule, rule ∈ s.registry.ordered ↔ history.standing? rule.id = some rule
  nodup : (s.registry.ordered.map Rule.id).Nodup
  sorted : s.registry.ordered.Pairwise history.Before
  size_eq : s.registry.size = s.registry.ordered.length
  contains_iff : ∀ id, s.registry.contains id = true ↔ id ∈ s.registry.ordered.map Rule.id
  get?_eq_some_iff : ∀ id rule,
    s.registry.get? id = some rule ↔ rule ∈ s.registry.ordered ∧ rule.id = id
  removeRule_iff : ∀ id, id ≠ "" →
    ((s.removeRule id).1 = true ↔ id ∈ s.registry.ordered.map Rule.id)

/-- A session all of whose rules have a property. -/
def HoldsOnly (P : Rule β → Prop) (s : Session β) : Prop := ∀ rule ∈ s.registry.rules, P rule

end Session

/-! ## Entries -/

namespace History

variable {id : String} {history : History β}

theorem id_of_standing? {rule : Rule β} (h : standing? id history = some rule) : rule.id = id := by
  induction history with
  | nil => cases h
  | cons change earlier ih =>
    rw [standing?] at h
    split at h
    · cases h
    · rw [Option.or_eq_some_iff] at h
      rcases h with h | ⟨-, h⟩
      · cases change with
        | add added =>
          rw [Change.rule?] at h
          split at h
          · next hid =>
            cases h
            exact hid
          · cases h
        | remove i => cases h
        | clear => cases h
      · exact ih h

/-- An identifier has a rule exactly if it has a moment of entry. -/
theorem isSome_entered? (id : String) (history : History β) :
    (entered? id history).isSome = (standing? id history).isSome := by
  induction history with
  | nil => rfl
  | cons change earlier ih =>
    rw [entered?, standing?]
    split
    · rfl
    · rw [Option.isSome_or, Option.isSome_or, ih, Option.isSome_map, Bool.or_comm]

theorem entered?_lt {m : Nat} (h : entered? id history = some m) : m < history.length := by
  induction history with
  | nil => cases h
  | cons change earlier ih =>
    rw [List.length_cons]
    rw [entered?] at h
    split at h
    · cases h
    · rw [Option.or_eq_some_iff] at h
      rcases h with h | ⟨-, h⟩
      · exact (ih h).trans (Nat.lt_succ_self _)
      · obtain ⟨rule, -, rfl⟩ := Option.map_eq_some_iff.1 h
        exact Nat.lt_succ_self _

/-- An identifier that is present and not dropped keeps its moment of entry. -/
theorem entered?_cons_of_some {change : Change β} {m : Nat} (hdrops : change.drops id = false)
    (h : entered? id history = some m) : entered? id (change :: history) = some m := by
  rw [entered?, hdrops, if_neg Bool.false_ne_true, h, Option.some_or]

/-- An identifier that is absent enters with the rule that is added under it. -/
theorem entered?_add_of_none {rule : Rule β} (h : entered? rule.id history = none) :
    entered? rule.id (.add rule :: history) = some history.length := by
  simp [entered?, Change.drops, Change.rule?, h]

/-- A rule that replaces another one changes no moment of entry. -/
theorem entered?_add_of_ne_none {rule : Rule β} (h : entered? rule.id history ≠ none) (i : String) :
    entered? i (.add rule :: history) = entered? i history := by
  by_cases hi : rule.id = i
  · obtain ⟨m, hm⟩ := Option.ne_none_iff_exists'.1 (hi ▸ h)
    rw [entered?_cons_of_some rfl hm, hm]
  · simp [entered?, Change.drops, Change.rule?, hi]

/-- Rules that are replaced keep their place among those of their priority. -/
theorem elder_add_iff {rule : Rule β} (h : entered? rule.id history ≠ none) (i j : String) :
    Elder (.add rule :: history) i j ↔ history.Elder i j := by
  simp only [Elder, entered?_add_of_ne_none h]

theorem Elder.cons {change : Change β} {i j : String} (h : history.Elder i j)
    (hi : change.drops i = false) (hj : change.drops j = false) :
    Elder (change :: history) i j := by
  obtain ⟨m, n, hm, hn, hlt⟩ := h
  exact ⟨m, n, entered?_cons_of_some hi hm, entered?_cons_of_some hj hn, hlt⟩

/-- A rule that is removed and added again comes behind all others of its priority. -/
theorem elder_readd {rule : Rule β} {i : String} (hid : rule.id ≠ "") (hi : i ≠ rule.id)
    (h : entered? i history ≠ none) :
    Elder (.add rule :: .remove rule.id :: history) i rule.id := by
  have hdrops : (Change.remove rule.id : Change β).drops rule.id = true := by
    simpa [Change.drops] using hid
  have hkept : (Change.remove rule.id : Change β).drops i = false := by
    simp [Change.drops, Ne.symm hi]
  have hnone : entered? rule.id (.remove rule.id :: history) = none := by
    rw [entered?, if_pos hdrops]
  obtain ⟨m, hm⟩ := Option.ne_none_iff_exists'.1 h
  have hm' := entered?_cons_of_some hkept hm
  exact ⟨m, _, entered?_cons_of_some rfl hm', entered?_add_of_none hnone, entered?_lt hm'⟩

end History

/-! ## Lookups -/

namespace Registry

variable {registry : Registry β} {id : String}

theorem contains_iff : registry.contains id = true ↔ id ∈ registry.rules.map Rule.id := by
  rw [contains, get?, List.find?_isSome, List.mem_map]
  simp only [decide_eq_true_eq]

theorem mem_of_get? {rule : Rule β} (h : registry.get? id = some rule) :
    rule ∈ registry.rules ∧ rule.id = id := by
  have hid : decide (rule.id = id) = true :=
    List.find?_some (p := fun r : Rule β => decide (r.id = id)) h
  exact ⟨List.mem_of_find?_eq_some h, of_decide_eq_true hid⟩

/-- The rule that is found is the only one with the identifier. -/
theorem get?_eq_some_iff {rule : Rule β} :
    registry.get? id = some rule ↔ rule ∈ registry.rules ∧ rule.id = id := by
  refine ⟨mem_of_get?, ?_⟩
  rintro ⟨hmem, hid⟩
  obtain ⟨found, hfound⟩ : ∃ found, registry.get? id = some found := by
    rw [← Option.isSome_iff_exists]
    exact contains_iff.2 (List.mem_map.2 ⟨rule, hmem, hid⟩)
  obtain ⟨hmem', hid'⟩ := mem_of_get? hfound
  rw [hfound, List.inj_on_of_nodup_map registry.nodup hmem' hmem (hid'.trans hid.symm)]

end Registry

/-! ## Steps -/

/-- Rules that are those of a history, in the order of their entries. -/
structure History.Recorded (history : History β) (rules : List (Rule β)) : Prop where
  mem_iff : ∀ rule, rule ∈ rules ↔ history.standing? rule.id = some rule
  elder : (rules.map Rule.id).Pairwise history.Elder

theorem Rule.mem_putIn {rule t : Rule β} {rules : List (Rule β)} (h : (rules.map Rule.id).Nodup) :
    t ∈ rule.putIn rules ↔ t = rule ∨ t ∈ rules ∧ t.id ≠ rule.id := by
  induction rules with
  | nil => simp [putIn]
  | cons r rest ih =>
    rw [List.map_cons, List.nodup_cons] at h
    rw [putIn]
    split
    · next hr =>
      have hrest : t ∈ rest → t.id ≠ rule.id := by
        rintro ht hid
        exact h.1 (List.mem_map.2 ⟨t, ht, hid.trans hr.symm⟩)
      have hself : t = r → ¬ t.id ≠ rule.id := by
        rintro rfl hid
        exact hid hr
      rw [List.mem_cons, List.mem_cons]
      tauto
    · next hr =>
      have hself : t = r → t.id ≠ rule.id := by
        rintro rfl
        exact hr
      rw [List.mem_cons, List.mem_cons, ih h.2]
      tauto

namespace History.Recorded

variable {history : History β} {rules : List (Rule β)}

theorem mem_ids_iff (h : history.Recorded rules) (id : String) :
    id ∈ rules.map Rule.id ↔ ∃ m, history.entered? id = some m := by
  rw [← Option.isSome_iff_exists, isSome_entered?, Option.isSome_iff_exists, List.mem_map]
  constructor
  · rintro ⟨rule, hrule, rfl⟩
    exact ⟨rule, (h.mem_iff rule).1 hrule⟩
  · rintro ⟨rule, hrule⟩
    have hid := id_of_standing? hrule
    exact ⟨rule, (h.mem_iff rule).2 (hid ▸ hrule), hid⟩

/-- **Adding a rule is recorded**: it takes the place of the rule that it replaces, or enters as
the last one. -/
theorem add (h : history.Recorded rules) (hnodup : (rules.map Rule.id).Nodup) (rule : Rule β) :
    History.Recorded (.add rule :: history) (rule.putIn rules) := by
  constructor
  · intro t
    rw [Rule.mem_putIn hnodup, h.mem_iff, History.standing?]
    simp only [Change.drops, Bool.false_eq_true, if_false, Change.rule?]
    by_cases hid : rule.id = t.id
    · have hne : ¬ t.id ≠ rule.id := fun hne => hne hid.symm
      simp [hid, eq_comm]
    · have hne : t ≠ rule := by
        rintro rfl
        exact hid rfl
      simp [hid, hne, Ne.symm hid]
  · have hkept : (rules.map Rule.id).Pairwise (History.Elder (.add rule :: history)) :=
      h.elder.imp fun helder => helder.cons rfl rfl
    rw [Rule.ids_putIn]
    split
    · exact hkept
    · next habsent =>
      refine List.pairwise_append.2 ⟨hkept, List.pairwise_singleton .., ?_⟩
      intro i hi j hj
      rw [List.mem_singleton.1 hj]
      obtain ⟨m, hm⟩ := (h.mem_ids_iff i).1 hi
      have hnone : history.entered? rule.id = none := by
        rw [Option.eq_none_iff_forall_ne_some]
        exact fun n hn => habsent ((h.mem_ids_iff rule.id).2 ⟨n, hn⟩)
      exact ⟨m, history.length, entered?_cons_of_some rfl hm, entered?_add_of_none hnone,
        entered?_lt hm⟩

/-- **Dropping identifiers is recorded**: their rules go, and the others stay as they stand. -/
theorem drop (h : history.Recorded rules) {change : Change β}
    (hrule : ∀ id, change.rule? id = none) :
    History.Recorded (change :: history) (rules.filter fun r => !change.drops r.id) := by
  constructor
  · intro t
    rw [List.mem_filter, h.mem_iff, History.standing?, hrule, Option.none_or]
    cases change.drops t.id <;> simp
  · refine List.pairwise_map.2 ?_
    refine ((List.pairwise_map.1 h.elder).filter _).imp_of_mem ?_
    intro r t hr ht helder
    have hr' : change.drops r.id = false := by simpa using (List.mem_filter.1 hr).2
    have ht' : change.drops t.id = false := by simpa using (List.mem_filter.1 ht).2
    exact helder.cons hr' ht'

end History.Recorded

/-! ## Runs -/

namespace Session

variable {s : Session β} {history : History β}

/-- Removing a rule drops its identifier; removing the empty or an absent identifier changes
nothing. -/
theorem rules_removeRule (s : Session β) (id : String) :
    (s.removeRule id).2.registry.rules =
      s.registry.rules.filter fun r => !(Change.remove id : Change β).drops r.id := by
  rw [removeRule]
  split
  · next h =>
    rw [Bool.and_eq_true, Bool.not_eq_true'] at h
    simp [report, Registry.remove, Change.drops, h.1, eq_comm]
  · next h =>
    rw [eq_comm, List.filter_eq_self]
    intro r hr
    rw [Bool.not_eq_true', Change.drops, Bool.and_eq_false_iff, decide_eq_false_iff_not]
    by_cases hid : id = r.id
    · right
      by_contra hne
      have hcontains : s.registry.contains id = true :=
        Registry.contains_iff.2 (List.mem_map.2 ⟨r, hr, hid.symm⟩)
      rw [Bool.not_eq_false] at hne
      exact h (by rw [hcontains, Bool.and_true, hne])
    · exact .inl hid

theorem HoldsOnly.addRule {P : Rule β → Prop} (hs : s.HoldsOnly P) {rule : Rule β}
    (hrule : P rule) : (s.addRule rule).HoldsOnly P := by
  intro r hr
  rcases (Rule.mem_putIn s.registry.nodup).1 hr with rfl | ⟨hr, -⟩
  · exact hrule
  · exact hs r hr

theorem HoldsOnly.removeRule {P : Rule β → Prop} (hs : s.HoldsOnly P) (id : String) :
    (s.removeRule id).2.HoldsOnly P := by
  intro r hr
  rw [rules_removeRule] at hr
  exact hs r (List.mem_of_mem_filter hr)

theorem holdsOnly_clearRules (P : Rule β → Prop) (s : Session β) : s.clearRules.HoldsOnly P :=
  fun _ hr => absurd hr List.not_mem_nil

/-- **One change is recorded.** -/
theorem recorded_change (h : history.Recorded s.registry.rules) (change : Change β) :
    History.Recorded (change :: history) (s.change change).registry.rules := by
  cases change with
  | add rule => exact h.add s.registry.nodup rule
  | remove id =>
    rw [Session.change, rules_removeRule]
    exact h.drop fun _ => rfl
  | clear =>
    have hempty : (s.change .clear).registry.rules =
        s.registry.rules.filter fun r => !(Change.clear : Change β).drops r.id := by
      simp [Session.change, clearRules, report, Registry.empty, Change.drops]
    rw [hempty]
    exact h.drop fun _ => rfl

/-- **Every history is recorded.** -/
theorem recorded_replay (contexts : List (String × Context)) (history : History β) :
    history.Recorded ((start contexts).replay history).registry.rules := by
  induction history with
  | nil => exact ⟨by simp [replay, start, Registry.empty, History.standing?], .nil⟩
  | cons change earlier ih => exact recorded_change ih change

/-- A session whose rules are recorded follows its history. -/
theorem follows_of_recorded (h : history.Recorded s.registry.rules) : s.Follows history := by
  have hids : (s.registry.ordered.map Rule.id).Perm (s.registry.rules.map Rule.id) :=
    s.registry.ordered_perm.map Rule.id
  constructor
  case mem_iff => exact fun rule => Registry.mem_ordered.trans (h.mem_iff rule)
  case nodup => exact hids.nodup_iff.2 s.registry.nodup
  case sorted => exact Registry.ordered_pairwise h.elder
  case size_eq => exact s.registry.ordered_perm.length_eq.symm
  case contains_iff => exact fun id => Registry.contains_iff.trans hids.mem_iff.symm
  case get?_eq_some_iff =>
    exact fun id rule =>
      Registry.get?_eq_some_iff.trans (and_congr_left fun _ => Registry.mem_ordered.symm)
  case removeRule_iff =>
    intro id hid
    rw [hids.mem_iff, ← Registry.contains_iff, removeRule]
    cases s.registry.contains id <;> simp [hid]

/-- The definitions of a document are added one after the other. -/
theorem recorded_addDefinitions (ds : List RuleDefinition) (h : history.Recorded s.registry.rules) :
    History.Recorded (.ofRules (ds.map Rule.ofDefinition) ++ history)
      (s.addDefinitions ds).registry.rules := by
  induction ds generalizing s history with
  | nil => exact h
  | cons d ds ih =>
    have hadd := ih (recorded_change h (.add (Rule.ofDefinition d)))
    simpa [addDefinitions, History.ofRules, Session.change] using hadd

/-- **The rules of a session are those that its history leaves**, in the order of the history.  A
rule that is replaced keeps its place among those of its priority, and one that is removed and
added again comes last.  The rules of a document have the history that they were added in order. -/
theorem follows_history (contexts : List (String × Context)) :
    (∀ history : History β, ((start contexts).replay history).Follows history) ∧
      (∀ (history : History β) (rule : Rule β) (i j : String),
        history.entered? rule.id ≠ none →
          (History.Elder (.add rule :: history) i j ↔ history.Elder i j)) ∧
      (∀ (history : History β) (rule : Rule β) (i : String),
        rule.id ≠ "" → i ≠ rule.id → history.entered? i ≠ none →
          History.Elder (.add rule :: .remove rule.id :: history) i rule.id) ∧
      ∀ host newId format document,
        match RuleSet.load host newId format document with
        | .error f =>
          ofDocument host newId format document contexts = (.error f : Outcome (Session β))
        | .ok (ds, _) => ∃ s : Session β, ofDocument host newId format document contexts = .ok s ∧
            s.Follows (.ofRules (ds.map Rule.ofDefinition)) := by
  refine ⟨fun history => follows_of_recorded (recorded_replay contexts history),
    fun _ _ i j h => History.elder_add_iff h i j, fun _ _ _ => History.elder_readd, ?_⟩
  intro host newId format document
  rw [ofDocument]
  cases RuleSet.load host newId format document with
  | error f => rfl
  | ok loaded =>
    obtain ⟨ds, log⟩ := loaded
    have hstart : History.Recorded [] ((start contexts : Session β).report log).registry.rules :=
      recorded_replay contexts []
    have hadded := recorded_addDefinitions ds hstart
    rw [List.append_nil] at hadded
    exact ⟨_, rfl, follows_of_recorded hadded⟩

/-- A rule without a body of its own, of which only identifier and priority matter. -/
def blankRule (id : String) (priority : Int) : Rule Unit := .custom ⟨id, id, "", priority⟩ () none

/-- Two rules of one priority, the first of which is replaced by one of a higher priority. -/
def sampleHistory : History Unit :=
  [.add (blankRule "a" 5), .add (blankRule "b" 1), .add (blankRule "a" 1)]

/-- Back at its old priority the first rule still comes first, but not after it was removed. -/
theorem follows_sampleHistory :
    ((start []).replay (.add (blankRule "a" 1) :: sampleHistory)).Follows
        (.add (blankRule "a" 1) :: sampleHistory) ∧
      History.Elder (.add (blankRule "a" 1) :: sampleHistory) "a" "b" ∧
      History.Elder (.add (blankRule "a" 1) :: .remove "a" :: sampleHistory) "b" "a" := by
  obtain ⟨hfollows, hreplaced, hreadded, -⟩ := follows_history (β := Unit) []
  have helder : sampleHistory.Elder "a" "b" := ⟨0, 1, rfl, rfl, Nat.one_pos⟩
  exact ⟨hfollows _, (hreplaced _ (blankRule "a" 1) "a" "b" (by decide)).2 helder,
    hreadded _ (blankRule "a" 1) "b" (by decide) (by decide) (by decide)⟩

end Session

end BusinessRules
