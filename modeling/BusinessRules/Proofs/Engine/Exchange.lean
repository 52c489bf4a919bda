import BusinessRules.Proofs.Engine.Order
import BusinessRules.Proofs.Engine.Run
import BusinessRules.Proofs.Rule.Independence

/-!
# Exchanging two independent rules

Two independent rules that follow each other may exchange their priorities: the results of all
rules stay what they are, and so does what is bound in the end.  This needs that the exchange moves
the two past each other and past no third rule, that the other rules see their context as a mapping
from names to data, and that listeners stand by.

## Main definitions

* `Session.Moved`: a session that has moved on to another context
* `Session.Bystander`, `Session.Unattended`: listeners that change nothing
* `Session.Concordant`: sessions whose contexts bind the same data
* `Rule.Regular`: a rule that sees its context as a mapping
* `Interchangeable`: lists of rules that give the same results and bind the same
* `Session.exchange`: a session in which two rules have exchanged their priorities

## Main statements

* `Registry.ordered_exchange`: what the exchange does to the order of evaluation
* `Rule.regular_ofDefinition`: rules of definitions are regular
* `interchangeable_exchange`: an exchange leaves results and bindings as they are
* `independent_commute`: independent rules commute, on their own and in an engine
-/

namespace BusinessRules

variable {β : Type} {h : Handlers β} {env : Environment} {mode : Mode} {name : String}

/-! ## The order after an exchange -/

/-- A rule takes the place of the one with its identifier. -/
theorem Rule.putIn_append {rule r : Rule β} {front back : List (Rule β)}
    (hfront : ∀ t ∈ front, t.id ≠ rule.id) (hid : r.id = rule.id) :
    rule.putIn (front ++ r :: back) = front ++ rule :: back := by
  induction front with
  | nil => rw [List.nil_append, putIn, if_pos hid, List.nil_append]
  | cons t front ih =>
    rw [List.forall_mem_cons] at hfront
    rw [List.cons_append, putIn, if_neg hfront.1, ih hfront.2, List.cons_append]

theorem Rule.putIn_perm {rule r : Rule β} {rules rest : List (Rule β)}
    (hnodup : (rules.map Rule.id).Nodup) (hperm : rules.Perm (r :: rest)) (hid : r.id = rule.id) :
    (rule.putIn rules).Perm (rule :: rest) := by
  obtain ⟨front, back, rfl⟩ := List.append_of_mem (hperm.symm.subset List.mem_cons_self)
  have hfront : ∀ t ∈ front, t.id ≠ rule.id := by
    intro t ht hmem
    rw [List.map_append, List.nodup_append] at hnodup
    exact hnodup.2.2 t.id (List.mem_map_of_mem ht) r.id (by simp) (hmem.trans hid.symm)
  rw [putIn_append hfront hid]
  exact List.perm_middle.trans ((List.perm_middle.symm.trans hperm).cons_inv.cons rule)

namespace Registry

variable {registry : Registry β} {r s r' s' : Rule β} {pre post : List (Rule β)}

/-- Rules with the identifiers of two others take their places. -/
theorem rules_exchange (hperm : registry.rules.Perm (pre ++ r :: s :: post)) (hr : r'.id = r.id)
    (hs : s'.id = s.id) :
    ((registry.add r').add s').rules.Perm (s' :: r' :: (pre ++ post)) ∧
      ((registry.add r').add s').rules.map Rule.id = registry.rules.map Rule.id := by
  have hmem : r.id ∈ registry.rules.map Rule.id ∧ s.id ∈ registry.rules.map Rule.id := by
    rw [(hperm.map Rule.id).mem_iff, (hperm.map Rule.id).mem_iff]
    simp
  have hids : (registry.add r').rules.map Rule.id = registry.rules.map Rule.id := by
    rw [add, Rule.ids_putIn, hr, if_pos hmem.1]
  constructor
  · have hfirst : (registry.add r').rules.Perm (r' :: (pre ++ s :: post)) :=
      Rule.putIn_perm registry.nodup (hperm.trans List.perm_middle) hr.symm
    refine Rule.putIn_perm (registry.add r').nodup (hfirst.trans ?_) hs.symm
    exact (List.perm_middle.cons r').trans (List.Perm.swap ..)
  · rw [add, Rule.ids_putIn, hs, hids, if_pos hmem.2]

theorem precedes_congr {registry' : Registry β}
    (hids : registry'.rules.map Rule.id = registry.rules.map Rule.id) :
    registry'.Precedes = registry.Precedes := by
  funext t u
  rw [Precedes, Precedes, Earlier, Earlier, hids]

/-- Rules that are added again stay where they are. -/
theorem ordered_readd (horder : registry.ordered = pre ++ r :: s :: post) :
    ((registry.add r).add s).ordered = pre ++ r :: s :: post := by
  obtain ⟨hrules, hids⟩ := rules_exchange (horder ▸ registry.ordered_perm.symm)
    (rfl : r.id = r.id) (rfl : s.id = s.id)
  refine (eq_ordered ?_ ?_).symm
  · refine List.perm_middle.trans ((List.perm_middle.cons r).trans ?_)
    exact (List.Perm.swap ..).trans hrules.symm
  · rw [precedes_congr hids, ← horder]
    exact registry.ordered_precedes

/-- **What an exchange of priorities does to the order**: the two rules stand the other way round,
and all others where they were, unless one of the same priority came in between the two. -/
theorem ordered_exchange (horder : registry.ordered = pre ++ r :: s :: post) (hr : r'.id = r.id)
    (hs : s'.id = s.id) (hr' : r'.priority = s.priority) (hs' : s'.priority = r.priority)
    (hlt : s.priority < r.priority)
    (hpre : ∀ t ∈ pre, t.priority = r.priority → registry.Earlier t.id s.id)
    (hpost : ∀ t ∈ post, t.priority = s.priority → registry.Earlier r.id t.id) :
    ((registry.add r').add s').ordered = pre ++ s' :: r' :: post := by
  obtain ⟨hrules, hids⟩ := rules_exchange (horder ▸ registry.ordered_perm.symm) hr hs
  have hpairs := registry.ordered_precedes
  simp only [horder, List.pairwise_append, List.pairwise_cons, List.forall_mem_cons] at hpairs
  obtain ⟨hfront, ⟨⟨-, hbehind⟩, hbehind', hback⟩, hcross⟩ := hpairs
  -- Higher priorities come first as before, and ties are what the hypotheses are about.
  have hswap : registry.Precedes s' r' := .inl (by omega)
  have hbehinds : ∀ t ∈ post, registry.Precedes s' t := by
    intro t ht
    rcases hbehind' t ht with hlower | ⟨hequal, -⟩
    · exact .inl (by omega)
    · exact .inl (by omega)
  have hbehindr : ∀ t ∈ post, registry.Precedes r' t := by
    intro t ht
    rcases hbehind' t ht with hlower | ⟨hequal, -⟩
    · exact .inl (by omega)
    · exact .inr ⟨hequal.trans hr'.symm, hr ▸ hpost t ht hequal⟩
  have hbefores : ∀ t ∈ pre, registry.Precedes t s' := by
    intro t ht
    rcases (hcross t ht).1 with hlower | ⟨hequal, -⟩
    · exact .inl (by omega)
    · exact .inr ⟨hs'.trans hequal, hs ▸ hpre t ht hequal.symm⟩
  have hbeforer : ∀ t ∈ pre, registry.Precedes t r' := by
    intro t ht
    rcases (hcross t ht).1 with hlower | ⟨hequal, -⟩
    · exact .inl (by omega)
    · exact .inl (by omega)
  have hperm := List.perm_middle.trans ((List.perm_middle.cons s').trans hrules.symm)
  refine (eq_ordered hperm ?_).symm
  simp only [precedes_congr hids, List.pairwise_append, List.pairwise_cons, List.forall_mem_cons]
  exact ⟨hfront, ⟨⟨hswap, hbehinds⟩, hbehindr, hback⟩,
    fun t ht => ⟨hbefores t ht, hbeforer t ht, (hcross t ht).2.2⟩⟩

end Registry

namespace Session

/-- A session that has moved on to a context: otherwise only observations and reports differ, and
other contexts. -/
structure Moved (name : String) (context : Context) (s t : Session β) : Prop where
  context_eq : t.context name = context
  registry_eq : t.registry = s.registry
  evaluating_eq : t.evaluating = s.evaluating
  evaluated_eq : t.evaluated = s.evaluated

/-- A listener that returns and changes nothing. -/
def Bystander (h : Handlers β) (name : String) (listener : String) : Prop :=
  ∀ (event : Event β) (s : Session β), ∃ t,
    (h.listener listener event).perform name s = (.ok (), t) ∧ Moved name (s.context name) s t

/-- A session all of whose listeners stand by. -/
def Unattended (h : Handlers β) (name : String) (s : Session β) : Prop :=
  ∀ listener ∈ s.evaluating ++ s.evaluated, Bystander h name listener

/-- Sessions with the same identifiers whose contexts bind the same data, all numbers among them
finite, and whose listeners stand by. -/
structure Concordant (h : Handlers β) (name : String) (s t : Session β) : Prop where
  facts : ∃ f g, s.context name = .facts f ∧ t.context name = .facts g ∧ f.AgreeOff [] g ∧
    f.IsFinite
  ids : s.registry.rules.map Rule.id = t.registry.rules.map Rule.id
  left : s.Unattended h name
  right : t.Unattended h name

variable {s t u s' t' : Session β} {c c' : Context}

namespace Moved

theorem refl (s : Session β) : Moved name (s.context name) s s := ⟨rfl, rfl, rfl, rfl⟩

theorem trans (hst : Moved name c s t) (htu : Moved name c' t u) : Moved name c' s u :=
  ⟨htu.context_eq, htu.registry_eq.trans hst.registry_eq,
    htu.evaluating_eq.trans hst.evaluating_eq, htu.evaluated_eq.trans hst.evaluated_eq⟩

theorem unattended (hst : Moved name c s t) (hs : s.Unattended h name) : t.Unattended h name := by
  rw [Unattended, hst.evaluating_eq, hst.evaluated_eq]
  exact hs

end Moved

namespace Concordant

theorem of_moved {f g : Facts} (hst : Concordant h name s t) (hs : Moved name (.facts f) s s')
    (ht : Moved name (.facts g) t t') (hfg : f.AgreeOff [] g) (hf : f.IsFinite) :
    Concordant h name s' t' :=
  ⟨⟨f, g, hs.context_eq, ht.context_eq, hfg, hf⟩,
    by rw [hs.registry_eq, ht.registry_eq, hst.ids], hs.unattended hst.left,
    ht.unattended hst.right⟩

/-- Sessions that have moved on to the contexts that they had. -/
theorem of_still (hst : Concordant h name s t) (hs : Moved name (s.context name) s s')
    (ht : Moved name (t.context name) t t') : Concordant h name s' t' := by
  obtain ⟨f, g, hsf, htg, hfg, hf⟩ := hst.facts
  rw [hsf] at hs
  rw [htg] at ht
  exact hst.of_moved hs ht hfg hf

end Concordant

/-! ## Turns of rules -/

/-- Listeners that stand by all return. -/
theorem exists_notified (event : Event β) {listeners : List String}
    (hlisteners : ∀ listener ∈ listeners, Bystander h name listener) (s : Session β) :
    ∃ t, Notified h name event listeners s t ∧ Moved name (s.context name) s t := by
  induction listeners generalizing s with
  | nil => exact ⟨s, .nil s, .refl s⟩
  | cons l ls ih =>
    rw [List.forall_mem_cons] at hlisteners
    obtain ⟨t, ht, hmoved⟩ := hlisteners.1 event
      (s.observe (.notified l event.rule.id (event.result.map (·.status))))
    obtain ⟨u, hu, hmoved'⟩ := ih hlisteners.2 t
    rw [hmoved.context_eq] at hmoved'
    exact ⟨u, .cons ht hu, ⟨hmoved'.context_eq, hmoved'.registry_eq.trans hmoved.registry_eq,
      hmoved'.evaluating_eq.trans hmoved.evaluating_eq,
      hmoved'.evaluated_eq.trans hmoved.evaluated_eq⟩⟩

theorem Unattended.exists_evaluating (hs : s.Unattended h name) (event : Event β) :
    ∃ t, Notified h name event s.evaluating s t ∧ Moved name (s.context name) s t :=
  exists_notified event (fun l hl => hs l (List.mem_append_left _ hl)) s

theorem Unattended.exists_evaluated (hs : s.Unattended h name) (event : Event β) :
    ∃ t, Notified h name event s.evaluated s t ∧ Moved name (s.context name) s t :=
  exists_notified event (fun l hl => hs l (List.mem_append_right _ hl)) s

theorem evaluateRule_declarative (h : Handlers β) (env : Environment) (mode : Mode) (name : String)
    (s : Session β) (d : RuleDefinition) :
    ∃ t, s.evaluateRule h env mode name (.declarative d) =
        ((d.runPlain env (s.context name)).result, t) ∧
      Moved name (d.runPlain env (s.context name)).context s t := by
  cases mode <;> exact ⟨_, rfl, context_withContext .., rfl, rfl, rfl⟩

theorem evaluateRule_foreach (h : Handlers β) (env : Environment) (mode : Mode) (name : String)
    (s : Session β) (d : RuleDefinition) (collection : String) :
    ∃ t, s.evaluateRule h env mode name (.foreach d collection) =
        ((d.runEach env (s.context name) collection).result, t) ∧
      Moved name (d.runEach env (s.context name) collection).context s t := by
  cases mode <;> exact ⟨_, rfl, context_withContext .., rfl, rfl, rfl⟩

/-- The turn of a rule of a definition that does not iterate. -/
theorem exists_turn (env : Environment) (mode : Mode) (hs : s.Unattended h name)
    (d : RuleDefinition) :
    ∃ t, Rounds h env mode name [.declarative d] s [(d.runPlain env (s.context name)).result] t ∧
      Moved name (d.runPlain env (s.context name)).context s t := by
  obtain ⟨s₁, hbefore, hs₁⟩ := hs.exists_evaluating ⟨.declarative d, none⟩
  obtain ⟨s₂, hrule, hs₂⟩ := evaluateRule_declarative h env mode name s₁ d
  rw [hs₁.context_eq] at hrule hs₂
  have hs₂ := hs₁.trans hs₂
  obtain ⟨s₃, hafter, hs₃⟩ := (hs₂.unattended hs).exists_evaluated ⟨.declarative d, some _⟩
  rw [hs₂.context_eq] at hs₃
  exact ⟨s₃, .cons hbefore hrule hafter (.nil _), hs₂.trans hs₃⟩

theorem Rounds.append {rules rules' : List (Rule β)} {results results' : List RuleResult}
    (hst : Rounds h env mode name rules s results t)
    (htu : Rounds h env mode name rules' t results' u) :
    Rounds h env mode name (rules ++ rules') s (results ++ results') u := by
  induction hst with
  | nil s => exact htu
  | cons hbefore hrule hafter _ ih => exact .cons hbefore hrule hafter (ih htu)

theorem Rounds.length_eq {rules : List (Rule β)} {results : List RuleResult}
    (hrounds : Rounds h env mode name rules s results t) : results.length = rules.length := by
  induction hrounds with
  | nil s => rfl
  | cons _ _ _ _ ih => rw [List.length_cons, List.length_cons, ih]

end Session

open Session

/-! ## Rules that see their context as a mapping -/

namespace Rule

/-- A rule that sees its context as a mapping: where the same data are bound, it gives the same
result and binds the same. -/
def Regular (h : Handlers β) (env : Environment) (mode : Mode) (name : String) (rule : Rule β) :
    Prop :=
  ∀ s t : Session β, Concordant h name s t →
    (s.evaluateRule h env mode name rule).1 = (t.evaluateRule h env mode name rule).1 ∧
      Concordant h name (s.evaluateRule h env mode name rule).2
        (t.evaluateRule h env mode name rule).2

theorem regular_declarative (d : RuleDefinition) :
    (declarative d : Rule β).Regular h env mode name := by
  intro s t hst
  obtain ⟨s', hs, hs'⟩ := evaluateRule_declarative h env mode name s d
  obtain ⟨t', ht, ht'⟩ := evaluateRule_declarative h env mode name t d
  obtain ⟨f, g, hsf, htg, hfg, hf⟩ := hst.facts
  obtain ⟨result, log, f', g', hf', hg', hfg', hleads⟩ :=
    RuleDefinition.runPlain_congr env d.ignores_nil hf hfg
  rw [hsf, hf'] at hs hs'
  rw [htg, hg'] at ht ht'
  rw [hs, ht]
  exact ⟨rfl, hst.of_moved hs' ht' hfg' (hleads.finite hf)⟩

theorem regular_foreach (d : RuleDefinition) (collection : String) :
    (Rule.foreach d collection : Rule β).Regular h env mode name := by
  intro s t hst
  obtain ⟨s', hs, hs'⟩ := evaluateRule_foreach h env mode name s d collection
  obtain ⟨t', ht, ht'⟩ := evaluateRule_foreach h env mode name t d collection
  obtain ⟨f, g, hsf, htg, hfg, hf⟩ := hst.facts
  obtain ⟨hresult, f', g', hf', hg', hfg', hfinite⟩ :=
    RuleDefinition.runEach_congr env d collection hfg
  rw [hsf] at hs hs'
  rw [htg] at ht ht'
  rw [hf'] at hs'
  rw [hg'] at ht'
  rw [hs, ht]
  exact ⟨hresult, hst.of_moved hs' ht' hfg' (hfinite hf)⟩

/-- **Rules of definitions are regular.** -/
theorem regular_ofDefinition (d : RuleDefinition) :
    (ofDefinition d : Rule β).Regular h env mode name := by
  rw [ofDefinition]
  split
  · exact regular_foreach d _
  · exact regular_declarative d

end Rule

/-! ## Rules that may stand for others -/

/-- Lists of rules that give the same results by identifier and bind the same. -/
def Interchangeable (h : Handlers β) (env : Environment) (mode : Mode) (name : String)
    (rules rules' : List (Rule β)) : Prop :=
  ∀ s t : Session β, Concordant h name s t → ∃ results results' u v,
    Rounds h env mode name rules s results u ∧ Rounds h env mode name rules' t results' v ∧
      ((rules.map Rule.id).zip results).Perm ((rules'.map Rule.id).zip results') ∧
        Concordant h name u v

namespace Interchangeable

variable {rules rules' rest rest' : List (Rule β)}

theorem append (hrules : Interchangeable h env mode name rules rules')
    (hrest : Interchangeable h env mode name rest rest') :
    Interchangeable h env mode name (rules ++ rest) (rules' ++ rest') := by
  intro s t hst
  obtain ⟨results, results', s₁, t₁, hs₁, ht₁, hperm, hst₁⟩ := hrules s t hst
  obtain ⟨others, others', s₂, t₂, hs₂, ht₂, hperm', hst₂⟩ := hrest s₁ t₁ hst₁
  refine ⟨_, _, s₂, t₂, hs₁.append hs₂, ht₁.append ht₂, ?_, hst₂⟩
  rw [List.map_append, List.map_append, List.zip_append (by rw [List.length_map, hs₁.length_eq]),
    List.zip_append (by rw [List.length_map, ht₁.length_eq])]
  exact hperm.append hperm'

theorem of_regular {rule : Rule β} (hrule : rule.Regular h env mode name) :
    Interchangeable h env mode name [rule] [rule] := by
  intro s t hst
  obtain ⟨s₁, hbefores, hs₁⟩ := hst.left.exists_evaluating ⟨rule, none⟩
  obtain ⟨t₁, hbeforet, ht₁⟩ := hst.right.exists_evaluating ⟨rule, none⟩
  obtain ⟨hresult, hst₂⟩ := hrule s₁ t₁ (hst.of_still hs₁ ht₁)
  rcases hrules : s₁.evaluateRule h env mode name rule with ⟨result, s₂⟩
  rcases hrulet : t₁.evaluateRule h env mode name rule with ⟨result', t₂⟩
  rw [hrules, hrulet] at hresult hst₂
  obtain rfl : result = result' := hresult
  obtain ⟨s₃, hafters, hs₃⟩ := hst₂.left.exists_evaluated ⟨rule, some result⟩
  obtain ⟨t₃, haftert, ht₃⟩ := hst₂.right.exists_evaluated ⟨rule, some result⟩
  exact ⟨_, _, s₃, t₃, .cons hbefores hrules hafters (.nil _),
    .cons hbeforet hrulet haftert (.nil _), .rfl, hst₂.of_still hs₃ ht₃⟩

theorem of_forall_regular (hrules : ∀ rule ∈ rules, rule.Regular h env mode name) :
    Interchangeable h env mode name rules rules := by
  induction rules with
  | nil => exact fun s t hst => ⟨[], [], s, t, .nil s, .nil t, .rfl, hst⟩
  | cons rule rest ih =>
    rw [List.forall_mem_cons] at hrules
    exact (of_regular hrules.1).append (ih hrules.2)

/-- **Independent rules may have their turns the other way round**, with other priorities too. -/
theorem of_independent {a b : RuleDefinition} (ha : a.Spaced) (hb : b.Spaced)
    (hab : a.Independent b) (p q : Int) :
    Interchangeable h env mode name [.declarative a, .declarative b]
      [.declarative { b with priority := p }, .declarative { a with priority := q }] := by
  intro s t hst
  obtain ⟨f, g, hsf, htg, hfg, hf⟩ := hst.facts
  obtain ⟨ra, rb, la, lb, fa, fab, gb, gba, hfa, hfab, hgb, hgba, hagree, hfinite⟩ :=
    RuleDefinition.runPlain_commute env ha hb hab hf hfg
  obtain ⟨s₁, hsa, hs₁⟩ := exists_turn env mode hst.left a
  rw [hsf, hfa] at hsa hs₁
  obtain ⟨s₂, hsb, hs₂⟩ := exists_turn env mode (hs₁.unattended hst.left) b
  rw [hs₁.context_eq, hfab] at hsb hs₂
  obtain ⟨t₁, htb, ht₁⟩ := exists_turn env mode hst.right
    { b with priority := p }
  rw [htg, show RuleDefinition.runPlain env (.facts g) { b with priority := p } = _ from hgb]
    at htb ht₁
  obtain ⟨t₂, hta, ht₂⟩ := exists_turn env mode (ht₁.unattended hst.right)
    { a with priority := q }
  rw [ht₁.context_eq,
    show RuleDefinition.runPlain env (.facts gb) { a with priority := q } = _ from hgba] at hta ht₂
  exact ⟨_, _, s₂, t₂, hsa.append hsb, htb.append hta, .swap .., hst.of_moved (hs₁.trans hs₂)
    (ht₁.trans ht₂) hagree hfinite⟩

end Interchangeable

/-! ## The exchange -/

namespace Session

variable {s : Session β} {a b : RuleDefinition} {pre post : List (Rule β)}

/-- The session in which two rules have exchanged their priorities.  Each of them is added again,
which keeps its place among the rules. -/
def exchange (s : Session β) (a b : RuleDefinition) : Session β :=
  (s.addRule (.declarative { a with priority := b.priority })).addRule
    (.declarative { b with priority := a.priority })

theorem concordant_exchange {f : Facts} (hcontext : s.context name = .facts f) (hf : f.IsFinite)
    (hs : s.Unattended h name)
    (horder : s.registry.ordered = pre ++ .declarative a :: .declarative b :: post) :
    Concordant h name s (s.exchange a b) := by
  refine ⟨⟨f, f, hcontext, hcontext, .refl [] f, hf⟩, ?_, hs, hs⟩
  have hperm := s.registry.ordered_perm.symm
  rw [horder] at hperm
  refine (Registry.rules_exchange hperm ?_ ?_).2.symm <;> rfl

/-- **Independent rules may exchange their priorities**, unless that moves one of them past a third
rule. -/
theorem interchangeable_exchange (ha : a.Spaced) (hb : b.Spaced) (hab : a.Independent b)
    (horder : s.registry.ordered = pre ++ .declarative a :: .declarative b :: post)
    (hregular : ∀ r ∈ pre ++ post, r.Regular h env mode name)
    (hpre : ∀ r ∈ pre, r.priority = a.priority → s.registry.Earlier r.id b.id)
    (hpost : ∀ r ∈ post, r.priority = b.priority → s.registry.Earlier a.id r.id) :
    Interchangeable h env mode name s.registry.ordered (s.exchange a b).registry.ordered := by
  rw [List.forall_mem_append] at hregular
  have hle : b.priority ≤ a.priority := by
    have hsorted := s.registry.ordered_sorted
    rw [horder, List.pairwise_append, List.pairwise_cons] at hsorted
    exact hsorted.2.1.1 _ List.mem_cons_self
  rcases hle.lt_or_eq with hlt | heq
  · have hexchanged : (s.exchange a b).registry.ordered = pre ++
        .declarative { b with priority := a.priority } ::
          .declarative { a with priority := b.priority } :: post :=
      Registry.ordered_exchange horder rfl rfl rfl rfl hlt hpre hpost
    rw [hexchanged, horder]
    exact (Interchangeable.of_forall_regular hregular.1).append
      ((Interchangeable.of_independent ha hb hab _ _).append
        (Interchangeable.of_forall_regular hregular.2))
  · -- Rules of one priority stay where they are.
    have ha' : ({ a with priority := b.priority } : RuleDefinition) = a := by rw [heq]
    have hb' : ({ b with priority := a.priority } : RuleDefinition) = b := by rw [← heq]
    have hsame : (s.exchange a b).registry.ordered = s.registry.ordered := by
      rw [exchange, ha', hb', horder]
      exact Registry.ordered_readd horder
    rw [hsame, horder]
    refine Interchangeable.of_forall_regular fun r hr => ?_
    rw [List.mem_append, List.mem_cons, List.mem_cons] at hr
    rcases hr with hr | rfl | rfl | hr
    · exact hregular.1 r hr
    · exact Rule.regular_declarative a
    · exact Rule.regular_declarative b
    · exact hregular.2 r hr

end Session

/-! ## Commutation -/

namespace RuleDefinition

variable {a b : RuleDefinition}

/-- **Independent rules commute.**  Run one after the other in facts that bind the same data, either
way round, each gives the same result, and the facts that are left bind the same data, also if a
rule is skipped or fails midway.  In an engine two such neighbours may exchange their priorities:
each rule of the engine gives the result that it gave before, and the same data are bound in the
end, if the exchange moves the two past no third rule, the other rules are compiled from definitions
or at least do not look at the order of what is bound, and the listeners stand by. -/
theorem independent_commute (ha : a.Spaced) (hb : b.Spaced) (hab : a.Independent b) :
    (∀ (env : Environment) (f g : Facts), f.IsFinite → (∀ n, f.get? n = g.get? n) →
      (b.runPlain env (.facts g)).result =
          (b.runPlain env (a.runPlain env (.facts f)).context).result ∧
        (a.runPlain env (b.runPlain env (.facts g)).context).result =
          (a.runPlain env (.facts f)).result ∧
        ∃ f' g', (b.runPlain env (a.runPlain env (.facts f)).context).context = .facts f' ∧
          (a.runPlain env (b.runPlain env (.facts g)).context).context = .facts g' ∧
            ∀ n, f'.get? n = g'.get? n) ∧
    ∀ (h : Handlers β) (env : Environment) (mode : Mode) (name : String) (s : Session β) (f : Facts)
      (pre post : List (Rule β)), s.context name = .facts f → f.IsFinite → s.Unattended h name →
      s.registry.ordered = pre ++ .declarative a :: .declarative b :: post →
      (∀ r ∈ pre ++ post, (∃ d, r = .ofDefinition d) ∨ r.Regular h env mode name) →
      (∀ r ∈ pre, r.priority = a.priority → s.registry.Earlier r.id b.id) →
      (∀ r ∈ post, r.priority = b.priority → s.registry.Earlier a.id r.id) →
      ∃ results results' t t' f' g',
        s.evaluate h env mode (some name) = (.ok results, t) ∧
        (s.exchange a b).evaluate h env mode (some name) = (.ok results', t') ∧
        results.length = s.registry.size ∧ results'.length = s.registry.size ∧
        ((s.registry.ordered.map Rule.id).zip results).Perm
          (((s.exchange a b).registry.ordered.map Rule.id).zip results') ∧
        t.context name = .facts f' ∧ t'.context name = .facts g' ∧ ∀ n, f'.get? n = g'.get? n := by
  constructor
  · intro env f g hf hfg
    obtain ⟨ra, rb, la, lb, fa, fab, gb, gba, hfa, hfab, hgb, hgba, hagree, -⟩ :=
      runPlain_commute env ha hb hab hf fun n _ => hfg n
    rw [hfa, hgb, hfab, hgba]
    exact ⟨rfl, rfl, fab, gba, rfl, rfl, fun n => hagree n List.not_mem_nil⟩
  · intro h env mode name s f pre post hcontext hf hs horder hothers hpre hpost
    have hregular : ∀ r ∈ pre ++ post, r.Regular h env mode name := by
      intro r hr
      rcases hothers r hr with ⟨d, rfl⟩ | hregular
      · exact Rule.regular_ofDefinition d
      · exact hregular
    have hconcordant := concordant_exchange hcontext hf hs horder
    obtain ⟨results, results', t, t', ht, ht', hperm, hconcordant'⟩ :=
      interchangeable_exchange ha hb hab horder hregular hpre hpost _ _ hconcordant
    obtain ⟨f', g', hf', hg', hagree, -⟩ := hconcordant'.facts
    have htarget : s.target? (some name) = some name := by
      rw [target?, Option.filter_some, hcontext]
      rfl
    have hsize : (s.exchange a b).registry.size = s.registry.size := by
      simpa [Registry.size] using (congrArg List.length hconcordant.ids).symm
    refine ⟨results, results', t, t', f', g', ?_, ?_, ?_, ?_, hperm, hf', hg',
      fun n => hagree n List.not_mem_nil⟩
    · rw [evaluate, htarget]
      exact evaluateRules_eq_ok_iff.2 ht
    · rw [evaluate, show (s.exchange a b).target? (some name) = some name from htarget]
      exact evaluateRules_eq_ok_iff.2 ht'
    · rw [ht.length_eq, s.registry.ordered_perm.length_eq, Registry.size]
    · rw [ht'.length_eq, Registry.ordered_perm .. |>.length_eq, ← hsize, Registry.size]

end RuleDefinition

namespace Session

/-- A rule that computes. -/
def computing (id : String) (priority : Int) (texts : List String) : RuleDefinition :=
  ⟨id, id, "", priority, none, some (texts.map .compute), none⟩

/-- A body that succeeds if `a` was bound first, and listeners that take notes, except for one that
binds `c`. -/
def exchangeHandlers : Handlers Unit where
  body _ := .read fun
    | .facts ⟨("a", _) :: _⟩ => .done .done
    | _ => .done (.failed "a was not bound first")
  listener l _ :=
    if l = "binder" then
      .read fun context => .write (.facts (context.known.set "c" (.int 1))) (.done ())
    else .note "called" (.done ())

/-- A session with rules and a listener. -/
def engineOf (listener : String) (bindings : List (String × Datum)) (rules : List (Rule Unit)) :
    Session Unit :=
  (rules.foldl addRule (start [("c", .facts ⟨bindings⟩)])).listen .evaluated listener

/-- Which rules of a session succeed, in the order of evaluation. -/
def successes (s : Session Unit) : Except Fault (List (String × Bool)) :=
  (s.evaluate exchangeHandlers [] .sync (some "c")).1.map fun results =>
    (s.registry.ordered.map Rule.id).zip (results.map RuleResult.success)

theorem successes_eq {s : Session Unit} {rules : List (Rule Unit)}
    (hrules : rules.Perm s.registry.rules) (horder : rules.Pairwise s.registry.Precedes)
    (htarget : s.target? (some "c") = some "c") :
    successes s = (evaluateRules exchangeHandlers [] .sync "c" rules s).1.map fun results =>
      (rules.map Rule.id).zip (results.map RuleResult.success) := by
  rw [successes, evaluate, htarget, ← Registry.eq_ordered hrules horder]

/-- A rule that fails midway. -/
def failingRule : RuleDefinition := computing "failing" 2 ["x = (u + 1) * 2", "x += lost"]

/-- A rule with a comparison and a choice. -/
def choosingRule : RuleDefinition :=
  ⟨"choosing", "choosing", "", 1, some ⟨none, some [⟨"u", .gt, .int 2⟩]⟩,
    some [.choose "u > 2 and (u + 1) < 5" (some "y = (u - 1)") none], none⟩

def lastRule : RuleDefinition := computing "last" 1 ["z = x + y"]

/-- The two rules in an engine with a third one of the second one's priority. -/
def neighbours : Session Unit :=
  engineOf "l" [("u", .int 3)]
    [.declarative failingRule, .declarative choosingRule, .declarative lastRule]

/-- The two rules pass each other, and the third one succeeds in any case. -/
theorem independent_commute_neighbours :
    (choosingRule.runPlain [] (failingRule.runPlain [] (.facts ⟨[("u", .int 3)]⟩)).context).result =
        (choosingRule.runPlain [] (.facts ⟨[("u", .int 3)]⟩)).result ∧
      successes neighbours = .ok [("failing", false), ("choosing", true), ("last", true)] ∧
      successes (neighbours.exchange failingRule choosingRule) =
        .ok [("choosing", true), ("failing", false), ("last", true)] ∧
      ∃ results results' t t' f' g',
        neighbours.evaluate exchangeHandlers [] .sync (some "c") = (.ok results, t) ∧
        (neighbours.exchange failingRule choosingRule).evaluate exchangeHandlers [] .sync
          (some "c") = (.ok results', t') ∧
        ((neighbours.registry.ordered.map Rule.id).zip results).Perm
          (((neighbours.exchange failingRule choosingRule).registry.ordered.map Rule.id).zip
            results') ∧
        t.context "c" = .facts f' ∧ t'.context "c" = .facts g' ∧ ∀ n, f'.get? n = g'.get? n := by
  have hfailing : failingRule.Spaced := .of_isChain (by decide +kernel) (by decide +kernel)
  have hchoosing : choosingRule.Spaced := .of_isChain (by decide +kernel) (by decide +kernel)
  have hfinite : Facts.IsFinite ⟨[("u", .int 3)]⟩ := by
    intro n x hx
    obtain ⟨d, hd, hvalue⟩ := Context.exists_of_values hx
    simp only [Context.lookup, Facts.get?, List.lookup] at hd
    split at hd
    · cases hd
      cases hvalue
      exact Decimal.isFinite_finite ..
    · cases hd
  have hlisteners : neighbours.Unattended exchangeHandlers "c" := by
    intro l hl event s
    obtain rfl := List.mem_singleton.1 hl
    exact ⟨s.observe (.note "called"), rfl, rfl, rfl, rfl, rfl⟩
  have horder : neighbours.registry.ordered = neighbours.registry.rules :=
    (Registry.eq_ordered .rfl (by decide)).symm
  have hothers : ∀ r ∈ [] ++ [(.declarative lastRule : Rule Unit)],
      (∃ d, r = .ofDefinition d) ∨ r.Regular exchangeHandlers [] .sync "c" := by
    intro r hr
    obtain rfl := List.mem_singleton.1 hr
    exact .inl ⟨lastRule, rfl⟩
  have hlast : ∀ r ∈ [(.declarative lastRule : Rule Unit)],
      r.priority = choosingRule.priority → neighbours.registry.Earlier failingRule.id r.id := by
    intro r hr _
    obtain rfl := List.mem_singleton.1 hr
    unfold Registry.Earlier
    decide
  obtain ⟨hplain, hengine⟩ :=
    RuleDefinition.independent_commute (β := Unit) hfailing hchoosing (by decide +kernel)
  obtain ⟨results, results', t, t', f', g', ht, ht', -, -, hperm, hagree⟩ :=
    hengine exchangeHandlers [] .sync "c" neighbours _ [] [.declarative lastRule] rfl hfinite
      hlisteners horder hothers (by simp) hlast
  exact ⟨(hplain [] _ _ hfinite fun _ => rfl).1.symm,
    (successes_eq .rfl (by decide) rfl).trans (by decide +kernel),
    (successes_eq (.swap _ _ _) (by decide) rfl).trans (by decide +kernel),
    results, results', t, t', f', g', ht, ht', hperm, hagree⟩

/-- Two rules that have nothing in common. -/
def firstRule : RuleDefinition := computing "first" 1 ["a = 1"]

def secondRule : RuleDefinition := computing "second" 0 ["b = 1"]

/-- An engine with a third rule that was added before the first one, with its priority, and reads
what the second one binds. -/
def tied : Session Unit :=
  engineOf "l" [] [.declarative secondRule, .declarative (computing "reader" 1 ["x = b"]),
    .declarative firstRule]

/-- An engine with a third rule whose body looks at the order of what is bound. -/
def ordering : Session Unit :=
  engineOf "l" [] [.declarative firstRule, .declarative secondRule,
    .custom ⟨"reader", "reader", "", -1⟩ () none]

/-- A rule that reads what a listener binds, and an engine with this listener. -/
def bindingRule : RuleDefinition := computing "second" 0 ["b = c"]

def meddled : Session Unit :=
  engineOf "binder" [] [.declarative firstRule, .declarative bindingRule]

/-- A text without a group, which gets two when the assignment is written out, and a rule that binds
the name that they then run together to. -/
def unbalancedRule : RuleDefinition := computing "first" 1 ["x += a)b(c"]

def runningRule : RuleDefinition := computing "second" 0 ["trueb5 = 7"]

def unbalanced : Session Unit :=
  engineOf "l" [("x", .int 1), ("a", .bool true), ("c", .int 5)]
    [.declarative unbalancedRule, .declarative runningRule]

/-- Exchanges of independent neighbours that matter: one moves them past a third rule, in one a body
looks at the order of what is bound, in one a listener binds something, and in one the groups of a
text only touch something once it is written out. -/
theorem exchange_matters :
    (firstRule.Spaced ∧ secondRule.Spaced ∧ firstRule.Independent secondRule ∧
      successes tied = .ok [("reader", false), ("first", true), ("second", true)] ∧
      successes (tied.exchange firstRule secondRule) =
        .ok [("second", true), ("reader", true), ("first", true)] ∧
      successes ordering = .ok [("first", true), ("second", true), ("reader", true)] ∧
      successes (ordering.exchange firstRule secondRule) =
        .ok [("second", true), ("first", true), ("reader", false)]) ∧
    (bindingRule.Spaced ∧ firstRule.Independent bindingRule ∧
      successes meddled = .ok [("first", true), ("second", true)] ∧
      successes (meddled.exchange firstRule bindingRule) =
        .ok [("second", false), ("first", true)]) ∧
    ((∀ text ∈ unbalancedRule.expressions, Expression.Apart (Expression.mask text.toList)) ∧
      runningRule.Spaced ∧ unbalancedRule.Independent runningRule ∧
      successes unbalanced = .ok [("first", false), ("second", true)] ∧
      successes (unbalanced.exchange unbalancedRule runningRule) =
        .ok [("second", true), ("first", true)]) := by
  refine ⟨⟨.of_isChain (by decide +kernel) (by decide +kernel),
    .of_isChain (by decide +kernel) (by decide +kernel), by decide +kernel, ?_, ?_, ?_, ?_⟩,
    ⟨.of_isChain (by decide +kernel) (by decide +kernel), by decide +kernel, ?_, ?_⟩,
    ⟨?_, .of_isChain (by decide +kernel) (by decide +kernel), by decide +kernel, ?_, ?_⟩⟩
  · exact (successes_eq (((List.Perm.swap _ _ _).cons _).trans (.swap _ _ _)) (by decide) rfl).trans
      (by decide +kernel)
  · exact (successes_eq .rfl (by decide) rfl).trans (by decide +kernel)
  · exact (successes_eq .rfl (by decide) rfl).trans (by decide +kernel)
  · exact (successes_eq (.swap _ _ _) (by decide) rfl).trans (by decide +kernel)
  · exact (successes_eq .rfl (by decide) rfl).trans (by decide +kernel)
  · exact (successes_eq (.swap _ _ _) (by decide) rfl).trans (by decide +kernel)
  · intro text htext
    obtain rfl := List.mem_singleton.1 htext
    rintro front inside back h -
    -- The only parenthesis that opens stands behind the one that closes.
    have hsublist : ['(', ')'].Sublist (front ++ '(' :: (inside ++ ')' :: back)) :=
      ((List.singleton_sublist.2 (by simp)).cons_cons '(').trans (List.sublist_append_right ..)
    exact absurd (h ▸ hsublist) (by decide +kernel)
  · exact (successes_eq .rfl (by decide) rfl).trans (by decide +kernel)
  · exact (successes_eq (.swap _ _ _) (by decide) rfl).trans (by decide +kernel)

end Session
end BusinessRules
