import Mathlib.Data.List.Forall2
import BusinessRules.Proofs.Engine.History
import BusinessRules.Proofs.Engine.Run

/-!
# Asynchronous evaluation agrees with synchronous evaluation

Where every asynchronous body does the same as the synchronous body beside it, the two ways to
evaluate a context call the same listeners and rules in the same order, leave the same context and
the same rules, and give the same results or raise the same fault.  Only the failed result of a
rule that has an asynchronous body words the fault of the rule differently.  Listeners are told
this result, so the agreement needs listeners that do not mind the wording, but for notes that they
leave; and since rules added in one context have their turn in the next one, several contexts need
that such rules have matching bodies as well.

## Main definitions

* `Rule.Paired`: a rule whose asynchronous body does the same as its synchronous one
* `Handlers.Deaf`: listeners that do not mind how faults are worded
* `Session.Alike`: sessions that differ only in notes and in how faults are worded in their logs
* `Session.Concur`: outcomes that are the same, up to a relation of their results
* `Session.Attempts`, `Session.Matched`: results that come of the same attempts of rules

## Main statements

* `Procedure.perform_agree`, `callListeners_agree`: bodies and listeners do not see the log
* `evaluateRule_agree`: the turn of one rule in the two modes
* `evaluateRules_agree`: the turns of rules in the two modes
* `evaluate_asynchronously`: evaluations in the two modes agree
-/

namespace BusinessRules

variable {β : Type}

/-- A rule whose asynchronous body, if it has one, does the same as its synchronous one. -/
def Rule.Paired (h : Handlers β) : Rule β → Prop
  | delegate _ body (some asyncBody) | custom _ body (some asyncBody) =>
    ∀ name s, (h.body asyncBody).perform name s = (h.body body).perform name s
  | _ => True

/-- A procedure that adds only rules with a property. -/
def Procedure.Adds {α : Type} (P : Rule β → Prop) : Procedure β α → Prop
  | done _ | raise _ => True
  | note _ next | write _ next | clearRules next | listen _ _ next => next.Adds P
  | read next => ∀ context, (next context).Adds P
  | removeRule _ next | unlisten _ next => ∀ found, (next found).Adds P
  | addRule rule next => P rule ∧ next.Adds P

/-- Bodies and listeners that add only rules with a property. -/
structure Handlers.Adds (P : Rule β → Prop) (h : Handlers β) : Prop where
  body : ∀ code, (h.body code).Adds P
  listener : ∀ listener event, (h.listener listener event).Adds P

/-- The same entry, or the warnings about one fault in its two wordings. -/
inductive LogEntry.Reworded : LogEntry → LogEntry → Prop
  | same (e : LogEntry) : Reworded e e
  | failure (id : String) (f : Fault) :
      Reworded (.ruleFailed id (evaluationFailed f)) (.ruleFailed id (asyncEvaluationFailed f))

/-- The same observation, or notes that are related. -/
inductive Observation.Reworded (N : String → String → Prop) : Observation → Observation → Prop
  | same (o : Observation) : Reworded N o o
  | note {text text' : String} : N text text' → Reworded N (.note text) (.note text')

namespace Session

/-- The calls of listeners and rules that have been observed. -/
def calls (s : Session β) : List Observation :=
  s.observed.filter fun o => !o matches .note _

/-- Sessions that differ only in how faults are worded in their logs, and in notes that are
related. -/
def Alike (N : String → String → Prop) (s t : Session β) : Prop :=
  ∃ observed log, t = { s with observed, log } ∧
    List.Forall₂ (Observation.Reworded N) s.observed observed ∧
    List.Forall₂ LogEntry.Reworded s.log log

/-- Outcomes in sessions that are alike: related results, or the same fault. -/
inductive Concur (N : String → String → Prop) {α : Type} (R : α → α → Prop) :
    Except Fault α × Session β → Except Fault α × Session β → Prop
  | ok {a b : α} {s t : Session β} : R a b → Alike N s t → Concur N R (.ok a, s) (.ok b, t)
  | error {s t : Session β} (f : Fault) : Alike N s t → Concur N R (.error f, s) (.error f, t)

/-- Listeners that do the same in whichever of the two ways the fault of a rule with an
asynchronous body is worded, up to notes that are related. -/
def Deaf (N : String → String → Prop) (h : Handlers β) : Prop :=
  ∀ listener (rule : Rule β) f name s t, rule.isAsync = true → Alike N s t →
    Concur N (· = ·)
      ((h.listener listener ⟨rule, some (.failed (evaluationFailed f))⟩).perform name s)
      ((h.listener listener ⟨rule, some (.failed (asyncEvaluationFailed f))⟩).perform name t)

/-- What rules attempt in their turns during a synchronous evaluation. -/
inductive Attempts (h : Handlers β) (env : Environment) (name : String) :
    List (Rule β) → Session β → List (Except Fault RuleResult) → Prop
  | nil (s : Session β) : Attempts h env name [] s []
  | cons {rule : Rule β} {rest : List (Rule β)} {outcome : Except Fault RuleResult}
      {outcomes : List (Except Fault RuleResult)} {result : RuleResult} {s t u v : Session β} :
      Notified h name ⟨rule, none⟩ s.evaluating s t →
      (rule.attempt h env .sync name (t.observe (.evaluated rule.id))).1 = outcome →
      t.evaluateRule h env .sync name rule = (result, u) →
      Notified h name ⟨rule, some result⟩ u.evaluated u v →
      Attempts h env name rest v outcomes →
      Attempts h env name (rule :: rest) s (outcome :: outcomes)

/-- The results in the two modes that come of the same attempts. -/
def Matched (h : Handlers β) (env : Environment) (name : String) (rules : List (Rule β))
    (s : Session β) (results results' : List RuleResult) : Prop :=
  ∃ outcomes, Attempts h env name rules s outcomes ∧
    results = List.zipWith (Rule.worded .sync) rules outcomes ∧
    results' = List.zipWith (Rule.worded .async) rules outcomes

/-- The results in the two modes for several contexts one after the other: the same keys, and for
each context results that match. -/
inductive MatchedEach {κ : Type} (h : Handlers β) (env : Environment) :
    List (κ × Option String) → Session β → List (κ × List RuleResult) →
    List (κ × List RuleResult) → Prop
  | nil (s : Session β) : MatchedEach h env [] s [] []
  | cons {key : κ} {name : Option String} {n : String} {rest : List (κ × Option String)}
      {results results' : List RuleResult} {all all' : List (κ × List RuleResult)}
      {s t : Session β} :
      s.target? name = some n →
      Matched h env n s.registry.ordered s results results' →
      s.evaluate h env .sync name = (.ok results, t) →
      MatchedEach h env rest t all all' →
      MatchedEach h env ((key, name) :: rest) s ((key, results) :: all) ((key, results') :: all')

/-! ## Sessions that are alike -/

namespace Alike

variable {N : String → String → Prop} {s t : Session β}

theorem refl (N : String → String → Prop) (s : Session β) : Alike N s s :=
  ⟨s.observed, s.log, rfl, List.forall₂_same.2 fun o _ => .same o,
    List.forall₂_same.2 fun e _ => .same e⟩

theorem context_eq (hst : Alike N s t) (name : String) : t.context name = s.context name := by
  obtain ⟨observed, log, rfl, -⟩ := hst
  rfl

theorem registry_eq (hst : Alike N s t) : t.registry = s.registry := by
  obtain ⟨observed, log, rfl, -⟩ := hst
  rfl

theorem listeners_eq (hst : Alike N s t) (moment : Moment) :
    t.listeners moment = s.listeners moment := by
  obtain ⟨observed, log, rfl, -⟩ := hst
  rfl

theorem target?_eq (hst : Alike N s t) (name : Option String) :
    t.target? name = s.target? name := by
  obtain ⟨observed, log, rfl, -⟩ := hst
  rfl

/-- The same listeners and rules have been called, in the same order. -/
theorem calls_eq (hst : Alike N s t) : t.calls = s.calls := by
  obtain ⟨observed, log, rfl, hobserved, -⟩ := hst
  rw [calls, calls]
  generalize s.observed = before at hobserved
  induction hobserved with
  | nil => rfl
  | cons ho _ ih =>
    cases ho with
    | same o => rw [List.filter_cons, List.filter_cons, ih]
    | note h => exact ih

theorem report (hst : Alike N s t) {entries entries' : List LogEntry}
    (hentries : List.Forall₂ LogEntry.Reworded entries entries') :
    Alike N (s.report entries) (t.report entries') := by
  obtain ⟨observed, log, rfl, hobserved, hlog⟩ := hst
  exact ⟨observed, log ++ entries', rfl, hobserved, List.rel_append hlog hentries⟩

theorem report_same (hst : Alike N s t) (entries : List LogEntry) :
    Alike N (s.report entries) (t.report entries) :=
  hst.report (List.forall₂_same.2 fun e _ => .same e)

theorem observe (hst : Alike N s t) {o o' : Observation} (ho : o.Reworded N o') :
    Alike N (s.observe o) (t.observe o') := by
  obtain ⟨observed, log, rfl, hobserved, hlog⟩ := hst
  exact ⟨observed ++ [o'], log, rfl, List.rel_append hobserved (.cons ho .nil), hlog⟩

theorem withContext (hst : Alike N s t) (name : String) (c : Context) :
    Alike N (s.withContext name c) (t.withContext name c) := by
  obtain ⟨observed, log, rfl, hlogs⟩ := hst
  exact ⟨observed, log, rfl, hlogs⟩

theorem withRegistry (hst : Alike N s t) (registry : Registry β) :
    Alike N { s with registry } { t with registry } := by
  obtain ⟨observed, log, rfl, hlogs⟩ := hst
  exact ⟨observed, log, rfl, hlogs⟩

theorem addRule (hst : Alike N s t) (rule : Rule β) :
    Alike N (s.addRule rule) (t.addRule rule) := by
  rw [Session.addRule, Session.addRule, hst.registry_eq]
  exact (hst.withRegistry _).report_same _

theorem removeRule (hst : Alike N s t) (id : String) :
    (t.removeRule id).1 = (s.removeRule id).1 ∧
      Alike N (s.removeRule id).2 (t.removeRule id).2 := by
  rw [Session.removeRule, Session.removeRule, hst.registry_eq]
  split
  · exact ⟨rfl, (hst.withRegistry _).report_same _⟩
  · exact ⟨rfl, hst⟩

theorem clearRules (hst : Alike N s t) : Alike N s.clearRules t.clearRules :=
  (hst.withRegistry _).report_same _

theorem listen (hst : Alike N s t) (moment : Moment) (listener : String) :
    Alike N (s.listen moment listener) (t.listen moment listener) := by
  obtain ⟨observed, log, rfl, hlogs⟩ := hst
  cases moment <;> exact ⟨observed, log, rfl, hlogs⟩

theorem unlisten (hst : Alike N s t) (listener : String) :
    (t.unlisten listener).1 = (s.unlisten listener).1 ∧
      Alike N (s.unlisten listener).2 (t.unlisten listener).2 := by
  obtain ⟨observed, log, rfl, hlogs⟩ := hst
  exact ⟨rfl, observed, log, rfl, hlogs⟩

end Alike

variable {N : String → String → Prop}

/-- What outcomes that agree look like. -/
theorem Concur.cases {α : Type} {R : α → α → Prop} {x y : Except Fault α × Session β}
    (hxy : Concur N R x y) :
    (∃ a b s t, x = (.ok a, s) ∧ y = (.ok b, t) ∧ R a b ∧ Alike N s t) ∨
      ∃ f s t, x = (.error f, s) ∧ y = (.error f, t) ∧ Alike N s t := by
  cases hxy with
  | ok hab hst => exact .inl ⟨_, _, _, _, rfl, rfl, hab, hst⟩
  | error f hst => exact .inr ⟨f, _, _, rfl, rfl, hst⟩

theorem Concur.imp {α : Type} {R R' : α → α → Prop} {x y : Except Fault α × Session β}
    (hxy : Concur N R x y) (hR : ∀ a b, R a b → R' a b) : Concur N R' x y := by
  cases hxy with
  | ok hab hst => exact .ok (hR _ _ hab) hst
  | error f hst => exact .error f hst

end Session

open Session

variable {N : String → String → Prop}

/-- **Bodies and listeners do not see the log.** -/
theorem Procedure.perform_agree {α : Type} (name : String) (procedure : Procedure β α)
    {s t : Session β} (hst : Alike N s t) :
    Concur N (· = ·) (procedure.perform name s) (procedure.perform name t) := by
  induction procedure generalizing s t with
  | done a => exact .ok rfl hst
  | raise f => exact .error f hst
  | note text next ih => exact ih (hst.observe (.same _))
  | read next ih =>
    rw [perform, perform, hst.context_eq]
    exact ih _ hst
  | write c next ih => exact ih (hst.withContext name c)
  | addRule rule next ih => exact ih (hst.addRule rule)
  | removeRule id next ih =>
    obtain ⟨hremoved, hafter⟩ := hst.removeRule id
    change Concur N _ _ ((next (t.removeRule id).1).perform name _)
    rw [hremoved]
    exact ih _ hafter
  | clearRules next ih => exact ih hst.clearRules
  | listen moment listener next ih => exact ih (hst.listen moment listener)
  | unlisten listener next ih =>
    obtain ⟨hremoved, hafter⟩ := hst.unlisten listener
    change Concur N _ _ ((next (t.unlisten listener).1).perform name _)
    rw [hremoved]
    exact ih _ hafter

/-! ## Turns of rules -/

namespace Rule

variable {h : Handlers β} {env : Environment} {mode : Mode} {name : String} {rule : Rule β}

theorem Paired.attempt_async (hrule : rule.Paired h) (s : Session β) :
    rule.attempt h env .async name s = rule.attempt h env .sync name s := by
  cases rule with
  | declarative d => rfl
  | «foreach» d collection => rfl
  | delegate info body asyncBody | custom info body asyncBody =>
    cases asyncBody with
    | none => rfl
    | some asyncBody => exact hrule name s

/-- Rules do not see the log. -/
theorem attempt_agree (h : Handlers β) (env : Environment) (mode : Mode) (name : String)
    (rule : Rule β) {s t : Session β} (hst : Alike N s t) :
    Concur N (· = ·) (rule.attempt h env mode name s) (rule.attempt h env mode name t) := by
  cases rule with
  | declarative d =>
    rw [attempt, attempt, hst.context_eq]
    exact .ok rfl ((hst.withContext name _).report_same _)
  | «foreach» d collection =>
    rw [attempt, attempt, hst.context_eq]
    exact .ok rfl ((hst.withContext name _).report_same _)
  | delegate info body asyncBody | custom info body asyncBody =>
    exact (h.body (mode.body body asyncBody)).perform_agree name hst

theorem status_worded (rule : Rule β) (outcome : Except Fault RuleResult) :
    (rule.worded .async outcome).status = (rule.worded .sync outcome).status := by
  cases outcome <;> rfl

/-- The failures in the two modes are reworded if the rule has an asynchronous body, and the same
if it has none. -/
theorem warning_worded (rule : Rule β) (outcome : Except Fault RuleResult) :
    List.Forall₂ LogEntry.Reworded (warning rule (rule.worded .sync outcome))
      (warning rule (rule.worded .async outcome)) := by
  cases outcome with
  | ok result => exact List.forall₂_same.2 fun e _ => .same e
  | error f =>
    cases hasync : rule.isAsync with
    | false =>
      have hsame : rule.worded .async (.error f) = rule.worded .sync (.error f) := by
        simp [worded, describeFault, hasync]
      rw [hsame]
      exact List.forall₂_same.2 fun e _ => .same e
    | true =>
      have hworded : rule.worded .async (.error f) = .failed (asyncEvaluationFailed f) := by
        simp [worded, describeFault, hasync]
      rw [hworded]
      exact .cons (.failure rule.id f) .nil

end Rule

namespace Session

variable {h : Handlers β} {env : Environment} {name : String} {s t : Session β}

/-- **The turn of one rule** in the two modes: one attempt, worded in each mode's way. -/
theorem evaluateRule_agree {rule : Rule β} (hrule : rule.Paired h) (env : Environment)
    (name : String) (hst : Alike N s t) :
    ∃ outcome u v, (rule.attempt h env .sync name (s.observe (.evaluated rule.id))).1 = outcome ∧
      s.evaluateRule h env .sync name rule = (rule.worded .sync outcome, u) ∧
      t.evaluateRule h env .async name rule = (rule.worded .async outcome, v) ∧ Alike N u v := by
  obtain ⟨x, hx, hsync⟩ := evaluateRule_eq h env .sync name rule s
  obtain ⟨y, hy, hasync⟩ := evaluateRule_eq h env .async name rule t
  have hagree := rule.attempt_agree h env .sync name (hst.observe (.same (.evaluated rule.id)))
  rw [hrule.attempt_async] at hy
  rw [← hx, ← hy] at hagree
  rw [← hx, hsync, hasync]
  have houtcome : y.1 = x.1 ∧ Alike N x.2 y.2 := by
    cases hagree with
    | ok heq hst => exact ⟨congrArg Except.ok heq.symm, hst⟩
    | error f hst => exact ⟨rfl, hst⟩
  rw [houtcome.1]
  exact ⟨x.1, _, _, rfl, rfl, rfl, houtcome.2.report (rule.warning_worded x.1)⟩

/-- **Listeners called with two events** that make no difference to them. -/
theorem callListeners_agree (event event' : Event β) (hid : event'.rule.id = event.rule.id)
    (hstatus : event'.result.map (·.status) = event.result.map (·.status))
    (hsame : ∀ l s t, Alike N s t → Concur N (· = ·) ((h.listener l event).perform name s)
      ((h.listener l event').perform name t))
    (ls : List String) (hst : Alike N s t) :
    Concur N (fun _ _ => True) (callListeners h name event ls s)
      (callListeners h name event' ls t) := by
  induction ls generalizing s t with
  | nil => exact .ok trivial hst
  | cons l ls ih =>
    have hcall := hsame l _ _
      (hst.observe (.same (.notified l event.rule.id (event.result.map (·.status)))))
    rcases hcall.cases with ⟨_, _, u, v, hu, hv, -, huv⟩ | ⟨f, u, v, hu, hv, huv⟩
    · simp only [callListeners, hid, hstatus, hu, hv]
      exact ih huv
    · simp only [callListeners, hid, hstatus, hu, hv]
      exact .error f huv

/-- Listeners that do not mind the wording, told of one attempt in the two modes. -/
theorem notify_agree (hdeaf : Deaf N h) (name : String) (rule : Rule β)
    (outcome : Except Fault RuleResult) (hst : Alike N s t) :
    Concur N (fun _ _ => True) (s.notify h name .evaluated ⟨rule, some (rule.worded .sync outcome)⟩)
      (t.notify h name .evaluated ⟨rule, some (rule.worded .async outcome)⟩) := by
  rw [notify, notify, hst.listeners_eq]
  refine callListeners_agree ⟨rule, some (rule.worded .sync outcome)⟩
    ⟨rule, some (rule.worded .async outcome)⟩ rfl ?_ ?_ _ hst
  · exact congrArg some (rule.status_worded outcome)
  · intro l u v huv
    cases outcome with
    | ok result => exact Procedure.perform_agree name _ huv
    | error f =>
      rw [Rule.worded, Rule.worded, describeFault, describeFault]
      cases hasync : rule.isAsync with
      | false => exact Procedure.perform_agree name _ huv
      | true => exact hdeaf l rule f name u v hasync huv

/-- **The turns of rules in the two modes agree.** -/
theorem evaluateRules_agree (hdeaf : Deaf N h) (env : Environment) (name : String)
    {rules : List (Rule β)} (hrules : ∀ r ∈ rules, r.Paired h) (hst : Alike N s t) :
    Concur N (Matched h env name rules s) (evaluateRules h env .sync name rules s)
      (evaluateRules h env .async name rules t) := by
  induction rules generalizing s t with
  | nil => exact .ok ⟨[], .nil s, rfl, rfl⟩ hst
  | cons rule rest ih =>
    rw [List.forall_mem_cons] at hrules
    have hfirst : Concur N (fun _ _ => True) (s.notify h name .evaluating ⟨rule, none⟩)
        (t.notify h name .evaluating ⟨rule, none⟩) := by
      rw [notify, notify, hst.listeners_eq]
      exact callListeners_agree _ _ rfl rfl (fun l _ _ => (h.listener l _).perform_agree name) _ hst
    rcases hfirst.cases with ⟨⟨⟩, ⟨⟩, s₁, t₁, hs₁, ht₁, -, h₁⟩ | ⟨f, s₁, t₁, hs₁, ht₁, h₁⟩
    case inr =>
      simp only [evaluateRules, hs₁, ht₁]
      exact .error f h₁
    obtain ⟨outcome, s₂, t₂, houtcome, hs₂, ht₂, h₂⟩ := evaluateRule_agree hrules.1 env name h₁
    have hsecond := notify_agree hdeaf name rule outcome h₂
    rcases hsecond.cases with ⟨⟨⟩, ⟨⟩, s₃, t₃, hs₃, ht₃, -, h₃⟩ | ⟨f, s₃, t₃, hs₃, ht₃, h₃⟩
    case inr =>
      simp only [evaluateRules, hs₁, ht₁, hs₂, ht₂, hs₃, ht₃]
      exact .error f h₃
    rcases (ih hrules.2 h₃).cases with
      ⟨results, results', s₄, t₄, hs₄, ht₄, hmatched, h₄⟩ | ⟨f, s₄, t₄, hs₄, ht₄, h₄⟩
    · simp only [evaluateRules, hs₁, ht₁, hs₂, ht₂, hs₃, ht₃, hs₄, ht₄]
      obtain ⟨outcomes, hattempts, rfl, rfl⟩ := hmatched
      refine .ok ⟨outcome :: outcomes, ?_, rfl, rfl⟩ h₄
      exact .cons (callListeners_eq_ok_iff.1 hs₁) houtcome hs₂ (callListeners_eq_ok_iff.1 hs₃)
        hattempts
    · simp only [evaluateRules, hs₁, ht₁, hs₂, ht₂, hs₃, ht₃, hs₄, ht₄]
      exact .error f h₄

/-! ## Rules that are added meanwhile -/

variable {P : Rule β → Prop}

/-- What a procedure leaves if it adds only rules with a property. -/
theorem HoldsOnly.perform {α : Type} (hs : s.HoldsOnly P) (name : String)
    {procedure : Procedure β α} (hadds : procedure.Adds P) :
    (procedure.perform name s).2.HoldsOnly P := by
  induction procedure generalizing s with
  | done a => exact hs
  | raise f => exact hs
  | note text next ih => exact ih (s := s.observe _) hs hadds
  | read next ih => exact ih _ hs (hadds _)
  | write c next ih => exact ih (s := s.withContext name c) hs hadds
  | addRule rule next ih => exact ih (hs.addRule hadds.1) hadds.2
  | removeRule id next ih => exact ih _ (hs.removeRule id) (hadds _)
  | clearRules next ih => exact ih (holdsOnly_clearRules P s) hadds
  | listen moment listener next ih =>
    refine ih (s := s.listen moment listener) ?_ hadds
    cases moment <;> exact hs
  | unlisten listener next ih => exact ih _ (s := (s.unlisten listener).2) hs (hadds _)

theorem HoldsOnly.evaluateRule (hs : s.HoldsOnly P) (hadds : h.Adds P) (env : Environment)
    (mode : Mode) (name : String) (rule : Rule β) :
    (s.evaluateRule h env mode name rule).2.HoldsOnly P := by
  obtain ⟨x, hx, heq⟩ := evaluateRule_eq h env mode name rule s
  have hattempt : x.2.HoldsOnly P := by
    rw [hx]
    cases rule with
    | declarative d => exact hs
    | «foreach» d collection => exact hs
    | delegate info body asyncBody | custom info body asyncBody =>
      exact HoldsOnly.perform (s := s.observe _) hs name (hadds.body _)
  rw [heq]
  exact hattempt

theorem HoldsOnly.notified (hs : s.HoldsOnly P) (hadds : h.Adds P) {event : Event β}
    {ls : List String} (hcalls : Notified h name event ls s t) : t.HoldsOnly P := by
  induction hcalls with
  | nil s => exact hs
  | @cons l ls s t u hl _ ih =>
    have hcall := HoldsOnly.perform (s := s.observe (.notified l event.rule.id
      (event.result.map (·.status)))) hs name (hadds.listener l event)
    rw [hl] at hcall
    exact ih hcall

/-- What the turns of rules leave if bodies and listeners add only rules with a property. -/
theorem HoldsOnly.rounds (hs : s.HoldsOnly P) (hadds : h.Adds P) {mode : Mode}
    {rules : List (Rule β)} {results : List RuleResult}
    (hrounds : Rounds h env mode name rules s results t) : t.HoldsOnly P := by
  induction hrounds with
  | nil s => exact hs
  | @cons rule rest result results s t u v w hbefore hrule hafter _ ih =>
    have hturn := (hs.notified hadds hbefore).evaluateRule hadds env mode name rule
    rw [hrule] at hturn
    exact ih (hturn.notified hadds hafter)

/-! ## Evaluations -/

/-- Rules that stand in their order are evaluated as they stand. -/
theorem evaluate_of_ordered {mode : Mode} {n : String} {c : Option String}
    (hrules : s.registry.rules.Pairwise s.registry.Precedes) (htarget : s.target? c = some n) :
    s.evaluate h env mode c = evaluateRules h env mode n s.registry.rules s := by
  rw [evaluate, htarget, ← Registry.eq_ordered .rfl hrules]

/-- **Evaluations of one context agree.** -/
theorem evaluate_agree (hdeaf : Deaf N h) (env : Environment) (hs : s.HoldsOnly (Rule.Paired h))
    (hst : Alike N s t) (name : Option String) :
    Concur N (fun results results' => ∃ n, s.target? name = some n ∧
        Matched h env n s.registry.ordered s results results')
      (s.evaluate h env .sync name) (t.evaluate h env .async name) := by
  rw [evaluate, evaluate, hst.target?_eq, hst.registry_eq]
  cases s.target? name with
  | none => exact .error _ hst
  | some n =>
    have hrules : ∀ r ∈ s.registry.ordered, r.Paired h :=
      fun r hr => hs r (Registry.mem_ordered.1 hr)
    exact (evaluateRules_agree hdeaf env n hrules hst).imp fun _ _ hmatched => ⟨n, rfl, hmatched⟩

/-- **Evaluations of several contexts agree**, if rules that are added meanwhile have matching
bodies. -/
theorem evaluateEach_agree {κ : Type} (hdeaf : Deaf N h) (hadds : h.Adds (Rule.Paired h))
    (env : Environment) (entries : List (κ × Option String)) (hs : s.HoldsOnly (Rule.Paired h))
    (hst : Alike N s t) :
    Concur N (MatchedEach h env entries s) (evaluateEach h env .sync entries s)
      (evaluateEach h env .async entries t) := by
  induction entries generalizing s t with
  | nil => exact .ok (.nil s) hst
  | cons entry rest ih =>
    obtain ⟨key, name⟩ := entry
    rcases (evaluate_agree hdeaf env hs hst name).cases with
      ⟨results, results', s₁, t₁, hs₁, ht₁, ⟨n, htarget, hmatched⟩, h₁⟩ | ⟨f, s₁, t₁, hs₁, ht₁, h₁⟩
    case inr =>
      simp only [evaluateEach, hs₁, ht₁]
      exact .error f h₁
    have hafter : s₁.HoldsOnly (Rule.Paired h) := by
      have hrun := hs₁
      rw [evaluate, htarget] at hrun
      exact hs.rounds hadds (evaluateRules_eq_ok_iff.1 hrun)
    rcases (ih hafter h₁).cases with
      ⟨all, all', s₂, t₂, hs₂, ht₂, heach, h₂⟩ | ⟨f, s₂, t₂, hs₂, ht₂, h₂⟩
    · simp only [evaluateEach, hs₁, ht₁, hs₂, ht₂]
      exact .ok (.cons htarget hmatched hs₁ heach) h₂
    · simp only [evaluateEach, hs₁, ht₁, hs₂, ht₂]
      exact .error f h₂

/-- **Evaluations in the two modes agree.**  Where asynchronous bodies do the same as the
synchronous ones beside them, and listeners do not mind how the faults of such rules are worded, an
asynchronous evaluation ends as the synchronous one does: in a session that differs at most in the
wording of its log, and with the same fault or with results that come of the same attempts of
rules.  For several contexts this needs that rules added meanwhile have matching bodies as well. -/
theorem evaluate_asynchronously (N : String → String → Prop) (h : Handlers β) (env : Environment)
    (s : Session β) (hdeaf : Deaf N h) (hs : s.HoldsOnly (Rule.Paired h)) :
    (∀ name, Concur N (fun results results' => ∃ n, s.target? name = some n ∧
          Matched h env n s.registry.ordered s results results')
        (s.evaluate h env .sync name) (s.evaluate h env .async name)) ∧
      (h.Adds (Rule.Paired h) → ∀ batch,
        Concur N (fun all all' => ∃ b : Batch, batch = some b ∧
            MatchedEach h env b.entries s all all')
          (s.evaluateMany h env .sync batch) (s.evaluateMany h env .async batch)) := by
  refine ⟨evaluate_agree hdeaf env hs (.refl N s), fun hadds batch => ?_⟩
  cases batch with
  | none => exact .error _ (.refl N s)
  | some b =>
    have heach := evaluateEach_agree hdeaf hadds env b.entries hs (.refl N s)
    exact heach.imp fun _ _ hmatched => ⟨b, rfl, hmatched⟩

/-- A body that adds a rule and then raises a fault, or else succeeds, and listeners that note the
text of an error. -/
def noting : Handlers Bool where
  body raises :=
    if raises then .addRule (.delegate ⟨"late", "Late", "", 0⟩ false (some false))
      (.raise (.raised "gone"))
    else .done .done
  listener _ event := .note ((event.result.bind (·.error)).getD "") (.done ())

/-- Two rules with such a body, one of them asynchronous, and a listener. -/
def failing : Session Bool :=
  (((start [("c", .empty), ("d", .empty)]).addRule
    (.delegate ⟨"first", "First", "", 5⟩ true (some true))).addRule
    (.custom ⟨"second", "Second", "", 1⟩ true none)).listen .evaluated "l"

/-- Only the rule with an asynchronous body words its fault in another way, and only the notes of
the listener tell. -/
theorem evaluate_asynchronously_failing :
    (∃ results t results' t',
      failing.evaluate noting [] .sync (some "c") = (.ok results, t) ∧
        failing.evaluate noting [] .async (some "c") = (.ok results', t') ∧
        t'.calls = t.calls ∧ t'.registry = t.registry ∧
        results.map (·.error) =
          [some "Rule evaluation failed: gone", some "Rule evaluation failed: gone"] ∧
        results'.map (·.error) =
          [some "Async rule evaluation failed: gone", some "Rule evaluation failed: gone"]) ∧
      Concur (fun _ _ => True)
        (fun all all' => ∃ b, some (Batch.listed [some "c", some "d"]) = some b ∧
          MatchedEach noting [] b.entries failing all all')
        (failing.evaluateMany noting [] .sync (some (.listed [some "c", some "d"])))
        (failing.evaluateMany noting [] .async (some (.listed [some "c", some "d"]))) := by
  have hdeaf : Deaf (fun _ _ => True) noting :=
    fun _ _ _ _ _ _ _ hst => .ok rfl (hst.observe (.note trivial))
  have hpaired : failing.HoldsOnly (Rule.Paired noting) :=
    List.forall_mem_cons.2 ⟨fun _ _ => rfl, List.forall_mem_singleton.2 trivial⟩
  have hadds : noting.Adds (Rule.Paired noting) := by
    refine ⟨fun raises => ?_, fun _ _ => trivial⟩
    cases raises with
    | false => trivial
    | true => exact ⟨fun _ _ => rfl, trivial⟩
  obtain ⟨hone, hmany⟩ := evaluate_asynchronously (fun _ _ => True) noting [] failing hdeaf hpaired
  refine ⟨?_, hmany hadds _⟩
  have hevaluate : ∀ mode, failing.evaluate noting [] mode (some "c") =
      evaluateRules noting [] mode "c" failing.registry.rules failing :=
    fun mode => evaluate_of_ordered (by decide) rfl
  have hsync : (failing.evaluate noting [] .sync (some "c")).1.map (List.map (·.error)) =
      .ok [some "Rule evaluation failed: gone", some "Rule evaluation failed: gone"] := by
    rw [hevaluate]
    decide +kernel
  have hasync : (failing.evaluate noting [] .async (some "c")).1.map (List.map (·.error)) =
      .ok [some "Async rule evaluation failed: gone", some "Rule evaluation failed: gone"] := by
    rw [hevaluate]
    decide +kernel
  rcases (hone (some "c")).cases with
    ⟨results, results', t, t', hs, ht, -, hst⟩ | ⟨f, t, t', hs, -, -⟩
  · rw [hs] at hsync
    rw [ht] at hasync
    exact ⟨results, t, results', t', hs, ht, hst.calls_eq, hst.registry_eq, Except.ok.inj hsync,
      Except.ok.inj hasync⟩
  · rw [hs] at hsync
    cases hsync

/-- A body that raises a fault, and listeners that raise one if they are told the asynchronous
wording of it. -/
def hearing : Handlers Unit where
  body _ := .raise (.raised "gone")
  listener _ event :=
    if event.result.bind (·.error) = some (asyncEvaluationFailed (.raised "gone")) then
      .raise (.raised "heard")
    else .done ()

/-- A rule with such a body for both modes, and a listener. -/
def heard : Session Unit :=
  ((start [("c", .empty)]).addRule (.delegate ⟨"r", "R", "", 0⟩ () (some ()))).listen .evaluated "l"

/-- A rule that succeeds synchronously and fails asynchronously. -/
def late : Rule (Option Bool) := .delegate ⟨"late", "Late", "", 0⟩ (some true) (some (some false))

/-- Bodies that succeed or fail, and one that adds this rule. -/
def adding : Handlers (Option Bool) where
  body
    | some true => .done .done
    | some false => .done (.failed "no")
    | none => .addRule late (.done .done)
  listener _ _ := .done ()

/-- A rule that adds another one. -/
def added : Session (Option Bool) :=
  (start [("c", .empty), ("d", .empty)]).addRule (.custom ⟨"first", "First", "", 1⟩ none none)

/-- The session after this has happened. -/
def joined : Session (Option Bool) := (added.observe (.evaluated "first")).addRule late

/-- Matching bodies alone are not enough: a listener that minds the wording ends only the
asynchronous evaluation, and a rule that is added in one context without matching bodies fails only
asynchronously in the next one. -/
theorem asynchrony_matters :
    (heard.HoldsOnly (Rule.Paired hearing) ∧
      (∃ results t, heard.evaluate hearing [] .sync (some "c") = (.ok results, t)) ∧
      ∃ f t, heard.evaluate hearing [] .async (some "c") = (.error f, t)) ∧
    added.HoldsOnly (Rule.Paired adding) ∧ ∃ all t all' t',
      added.evaluateMany adding [] .sync (some (.listed [some "c", some "d"])) = (.ok all, t) ∧
      added.evaluateMany adding [] .async (some (.listed [some "c", some "d"])) = (.ok all', t') ∧
      (all.map fun entry => entry.2.map (·.success)) = [[true], [true, true]] ∧
      (all'.map fun entry => entry.2.map (·.success)) = [[true], [true, false]] := by
  constructor
  · have hevaluate : ∀ mode, heard.evaluate hearing [] mode (some "c") =
        evaluateRules hearing [] mode "c" heard.registry.rules heard :=
      fun mode => evaluate_of_ordered (by decide) rfl
    rw [hevaluate, hevaluate]
    exact ⟨List.forall_mem_singleton.2 fun _ _ => rfl, ⟨_, _, rfl⟩, _, _, rfl⟩
  · have hfirst : ∀ mode, added.evaluate adding [] mode (some "c") = (.ok [.done], joined) := by
      intro mode
      rw [evaluate_of_ordered (by decide) rfl]
      cases mode <;> rfl
    have hsecond : ∀ mode, ∃ t, joined.evaluate adding [] mode (some "d") =
        (.ok [.done, if mode = .sync then .done else .failed "no"], t) := by
      intro mode
      rw [evaluate_of_ordered (by decide) rfl]
      cases mode <;> exact ⟨_, rfl⟩
    have hmany : ∀ mode, ∃ t,
        added.evaluateMany adding [] mode (some (.listed [some "c", some "d"])) =
          (.ok [(.int 0, [.done]),
            (.int 1, [.done, if mode = .sync then .done else .failed "no"])], t) := by
      intro mode
      obtain ⟨t, ht⟩ := hsecond mode
      refine ⟨t, ?_⟩
      change evaluateEach adding [] mode [(Datum.int 0, some "c"), (.int 1, some "d")] added = _
      simp only [evaluateEach, hfirst, ht]
    obtain ⟨t, ht⟩ := hmany .sync
    obtain ⟨t', ht'⟩ := hmany .async
    exact ⟨List.forall_mem_singleton.2 trivial, _, t, _, t', ht, ht', rfl, rfl⟩

end Session

end BusinessRules
