import BusinessRules.Proofs.Engine.History
import BusinessRules.Proofs.Engine.Trace

/-!
# The protocol of observers

An evaluation calls the listeners registered before each rule, then evaluates the rule, then calls
the listeners registered for its result.  Which listeners these are is settled when a notification
starts: registrations and removals in the course of it count from the next one on.  If a listener
raises a fault, nothing more is called, and what has been bound stays bound.  All this holds after
any sequence of registrations, removals, changes of rules and evaluations, and whatever rules and
listeners do meanwhile.

## Main definitions

* `Session.callHappenings`, `Session.rulesHappenings`: what happens during an evaluation
* `Notification`: the calls of one notification
* `Course`: the turns of rules, to the end or up to the listener that raises a fault
* `Command`: what a program does with an engine
* `Session.KeepsProtocol`: an engine that keeps to the protocol, given what has happened in it

## Main statements

* `notify_happens`: what happens during a notification
* `evaluateRules_happens`: what happens during an evaluation is a course of turns, and accounts for
  what becomes of it
* `keepsProtocol_run`: engines keep to the protocol, whatever is done with them
-/

namespace BusinessRules

variable {β : Type}

/-! ## What happens during an evaluation -/

namespace Session

/-- What happens while listeners are called. -/
def callHappenings (h : Handlers β) (name : String) (event : Event β) :
    List String → Session β → List (Happening β)
  | [], _ => []
  | l :: ls, s =>
    let s := s.observe (.notified l event.rule.id (event.result.map (·.status)))
    .called l event :: ((h.listener l event).happenings name s ++
      match (h.listener l event).perform name s with
      | (.ok _, s) => callHappenings h name event ls s
      | (.error f, _) => [.raised f])

/-- What happens while the listeners of a moment are called. -/
def notifyHappenings (h : Handlers β) (name : String) (moment : Moment) (event : Event β)
    (s : Session β) : List (Happening β) :=
  callHappenings h name event (s.listeners moment) s

/-- What happens while a rule is evaluated. -/
def ruleHappenings (h : Handlers β) (env : Environment) (mode : Mode) (name : String)
    (rule : Rule β) (s : Session β) : List (Happening β) :=
  .ran rule (s.evaluateRule h env mode name rule).1 ::
    rule.happenings h env mode name (s.observe (.evaluated rule.id))

/-- What happens while rules are evaluated one after the other. -/
def rulesHappenings (h : Handlers β) (env : Environment) (mode : Mode) (name : String) :
    List (Rule β) → Session β → List (Happening β)
  | [], _ => []
  | rule :: rest, s =>
    let before := s.notifyHappenings h name .evaluating ⟨rule, none⟩
    match s.notify h name .evaluating ⟨rule, none⟩ with
    | (.error _, _) => before
    | (.ok _, s) =>
      let during := s.ruleHappenings h env mode name rule
      let (result, s) := s.evaluateRule h env mode name rule
      let after := s.notifyHappenings h name .evaluated ⟨rule, some result⟩
      match s.notify h name .evaluated ⟨rule, some result⟩ with
      | (.error _, _) => before ++ during ++ after
      | (.ok _, s) => before ++ during ++ after ++ rulesHappenings h env mode name rest s

/-- What happens while all rules are evaluated. -/
def evaluationHappenings (h : Handlers β) (env : Environment) (mode : Mode)
    (name : Option String) (s : Session β) : List (Happening β) :=
  match s.target? name with
  | none => []
  | some name => rulesHappenings h env mode name s.registry.ordered s

end Session

/-- What a program does with an engine. -/
inductive Command (β : Type) where
  | supply (name : String) (context : Context)
  | change (change : Change β)
  | listen (moment : Moment) (listener : String)
  | unlisten (listener : String)
  | evaluate (mode : Mode) (name : Option String)

namespace Session

/-- The session after a command. -/
def obey (h : Handlers β) (env : Environment) (s : Session β) : Command β → Session β
  | .supply name context => s.withContext name context
  | .change change => s.change change
  | .listen moment listener => s.listen moment listener
  | .unlisten listener => (s.unlisten listener).2
  | .evaluate mode name => (s.evaluate h env mode name).2

/-- What happens during a command. -/
def happening (h : Handlers β) (env : Environment) (s : Session β) :
    Command β → List (Happening β)
  | .listen moment listener => [.registered moment listener]
  | .unlisten listener => [.unregistered listener (s.unlisten listener).1]
  | .evaluate mode name => s.evaluationHappenings h env mode name
  | .supply .. | .change _ => []

/-- The session after commands, one after the other. -/
def run (h : Handlers β) (env : Environment) : List (Command β) → Session β → Session β
  | [], s => s
  | op :: ops, s => run h env ops (s.obey h env op)

/-- What happens during commands, one after the other. -/
def happened (h : Handlers β) (env : Environment) :
    List (Command β) → Session β → List (Happening β)
  | [], _ => []
  | op :: ops, s => s.happening h env op ++ happened h env ops (s.obey h env op)

end Session

/-! ## The protocol -/

/-- The calls of one notification: every listener once, in order, or up to one that raises a fault,
and nothing happens after that. -/
def Notification (event : Event β) (listeners : List String) :
    Except Fault Unit → List (Happening β) → Prop
  | .ok _, τ => protocol τ = listeners.map (.called · event)
  | .error f, τ => ∃ before listener after σ, listeners = before ++ listener :: after ∧
      τ = σ ++ [.raised f] ∧ protocol σ = (before ++ [listener]).map (.called · event)

/-- The turns of rules after what happened in the past: for each rule the listeners that are
registered when its turn starts are called, then the rule is evaluated, then the listeners that are
registered after that are called with its result.  This goes on to the last rule, or up to a
listener that raises a fault. -/
inductive Course : List (Happening β) → List (Rule β) → Except Fault (List RuleResult) →
    List (Happening β) → Prop
  | nil (past : List (Happening β)) : Course past [] (.ok []) []
  | evaluating {past before : List (Happening β)} {rule : Rule β} {rest : List (Rule β)}
      {f : Fault} :
      Notification ⟨rule, none⟩ (listening .evaluating past) (.error f) before →
      Course past (rule :: rest) (.error f) before
  | evaluated {past before during after : List (Happening β)} {rule : Rule β}
      {rest : List (Rule β)} {result : RuleResult} {f : Fault} :
      Notification ⟨rule, none⟩ (listening .evaluating past) (.ok ()) before →
      protocol during = [.ran rule result] →
      Notification ⟨rule, some result⟩ (listening .evaluated (past ++ (before ++ during)))
        (.error f) after →
      Course past (rule :: rest) (.error f) (before ++ during ++ after)
  | turn {past before during after τ : List (Happening β)} {rule : Rule β}
      {rest : List (Rule β)} {result : RuleResult} {outcome : Except Fault (List RuleResult)} :
      Notification ⟨rule, none⟩ (listening .evaluating past) (.ok ()) before →
      protocol during = [.ran rule result] →
      Notification ⟨rule, some result⟩ (listening .evaluated (past ++ (before ++ during)))
        (.ok ()) after →
      Course (past ++ (before ++ during ++ after)) rest outcome τ →
      Course past (rule :: rest) (outcome.map (result :: ·)) (before ++ during ++ after ++ τ)

/-- An engine that keeps to the protocol of its observers, after what happened in the past. -/
structure Session.KeepsProtocol (h : Handlers β) (env : Environment) (past : List (Happening β))
    (s : Session β) : Prop where
  /-- The listeners are those of the standing registrations. -/
  registered : s.Registered past
  /-- A standing registration was made, and its number tells when. -/
  made : ∀ moment, ∀ r ∈ standing moment past, past[r.1]? = some (.registered moment r.2)
  /-- Standing registrations are in the order in which they were made. -/
  ordered : ∀ moment, (standing moment past).Pairwise fun r r' => r.1 < r'.1
  /-- Everyone who unregistered a listener has learnt whether it was registered. -/
  answered : Answered [] past
  unlisten_iff : ∀ listener,
    (s.unlisten listener).1 = true ↔ ∃ moment i, (i, listener) ∈ standing moment past
  /-- The earliest registration goes, for each moment. -/
  unlisten_listeners : ∀ listener moment,
    ((∀ i, (i, listener) ∉ standing moment past) ∧
        (s.unlisten listener).2.listeners moment = s.listeners moment) ∨
      ∃ before i after, standing moment past = before ++ (i, listener) :: after ∧
        (∀ j, (j, listener) ∈ standing moment past → i ≤ j) ∧
        (s.unlisten listener).2.listeners moment = (before ++ after).map Prod.snd
  /-- Evaluations take their course. -/
  evaluate : ∀ mode name,
    match s.target? name with
    | none => s.evaluate h env mode name = (.error (.absent "context"), s)
    | some n =>
      Accounts n past s (s.evaluationHappenings h env mode name) (s.evaluate h env mode name).2 ∧
        Course past s.registry.ordered (s.evaluate h env mode name).1
          (s.evaluationHappenings h env mode name)

/-! ## Evaluations -/

theorem protocol_append (τ τ' : List (Happening β)) :
    protocol (τ ++ τ') = protocol τ ++ protocol τ' := List.filter_append ..

theorem Notification.cons {event : Event β} {l : String} {ls : List String} {x : Except Fault Unit}
    {τ τ' : List (Happening β)} (hτ : protocol τ = [])
    (hcalls : Notification event ls x τ') :
    Notification event (l :: ls) x (.called l event :: (τ ++ τ')) := by
  have hcalled : ∀ σ, protocol (.called l event :: (τ ++ σ)) = .called l event :: protocol σ := by
    intro σ
    change .called l event :: protocol (τ ++ σ) = _
    rw [protocol_append, hτ, List.nil_append]
  cases x with
  | ok u =>
    change protocol _ = _
    rw [hcalled, show protocol τ' = _ from hcalls, List.map_cons]
  | error f =>
    obtain ⟨before, listener, after, σ, rfl, rfl, hσ⟩ := hcalls
    refine ⟨l :: before, listener, after, .called l event :: (τ ++ σ), rfl, ?_, ?_⟩
    · rw [List.cons_append, List.append_assoc]
    · rw [hcalled, hσ, List.cons_append, List.map_cons]

namespace Session

variable {h : Handlers β} {env : Environment} {mode : Mode} {name : String}

/-- **What happens while listeners are called** accounts for what becomes of it, and is one
notification of them. -/
theorem callListeners_happens (h : Handlers β) (name : String) (event : Event β)
    (ls : List String) (past : List (Happening β)) (s : Session β) :
    Accounts name past s (callHappenings h name event ls s)
        (callListeners h name event ls s).2 ∧
      Notification event ls (callListeners h name event ls s).1
        (callHappenings h name event ls s) := by
  induction ls generalizing past s with
  | nil => exact ⟨.refl name past s, rfl⟩
  | cons l ls ih =>
    obtain ⟨t, ht⟩ : ∃ t, s.observe
        (.notified l event.rule.id (event.result.map (·.status))) = t := ⟨_, rfl⟩
    have hcall : Accounts name past s [.called l event] t :=
      ht ▸ .single (fun _ _ _ => rfl) rfl rfl rfl
    have haccounts := hcall.trans ((h.listener l event).accounts name _ t)
    have hown := (h.listener l event).protocol_happenings name t
    rcases hperform : (h.listener l event).perform name t with ⟨f | ⟨⟩, u⟩
    all_goals
      rw [hperform] at haccounts
      simp only [callListeners, callHappenings, ht, hperform]
    · -- The fault of this listener is the last thing that happens.
      refine ⟨haccounts.trans (.single (fun _ _ _ => rfl) rfl (List.append_nil _).symm rfl), ?_⟩
      refine ⟨[], l, ls, _, rfl, (List.cons_append ..).symm, ?_⟩
      change .called l event :: protocol _ = _
      rw [hown]
      rfl
    · obtain ⟨hrest, hnotification⟩ := ih _ u
      exact ⟨haccounts.trans hrest, hnotification.cons hown⟩

/-- **What happens during a notification** accounts for what becomes of it, and calls the
listeners that are registered when it starts. -/
theorem notify_happens {past : List (Happening β)} {s : Session β} (hs : s.Registered past)
    (h : Handlers β) (name : String) (moment : Moment) (event : Event β) :
    Accounts name past s (s.notifyHappenings h name moment event)
        (s.notify h name moment event).2 ∧
      Notification event (listening moment past) (s.notify h name moment event).1
        (s.notifyHappenings h name moment event) := by
  rw [← hs moment]
  exact callListeners_happens h name event (s.listeners moment) past s

/-- What happens while a rule is evaluated is one step of the engine. -/
theorem protocol_ruleHappenings (h : Handlers β) (env : Environment) (mode : Mode) (name : String)
    (rule : Rule β) (s : Session β) :
    protocol (s.ruleHappenings h env mode name rule) =
      [.ran rule (s.evaluateRule h env mode name rule).1] := by
  have hown := rule.protocol_happenings h env mode name (s.observe (.evaluated rule.id))
  rw [ruleHappenings]
  change .ran rule _ :: protocol _ = _
  rw [hown]

theorem evaluateRule_accounts (h : Handlers β) (env : Environment) (mode : Mode) (name : String)
    (rule : Rule β) (past : List (Happening β)) (s : Session β) :
    Accounts name past s (s.ruleHappenings h env mode name rule)
      (s.evaluateRule h env mode name rule).2 := by
  have hran : Accounts name past s [.ran rule (s.evaluateRule h env mode name rule).1]
      (s.observe (.evaluated rule.id)) := .single (fun _ _ _ => rfl) rfl rfl rfl
  have hown := hran.trans (rule.accounts h env mode name _ (s.observe (.evaluated rule.id)))
  obtain ⟨x, hx, heq⟩ := evaluateRule_eq h env mode name rule s
  rw [← hx] at hown
  rw [heq] at hown ⊢
  rw [ruleHappenings, heq]
  exact hown.report _

/-- **What happens during an evaluation** accounts for what becomes of it, and is a course of
turns. -/
theorem evaluateRules_happens (h : Handlers β) (env : Environment) (mode : Mode) (name : String)
    (rules : List (Rule β)) {past : List (Happening β)} {s : Session β} (hs : s.Registered past) :
    Accounts name past s (rulesHappenings h env mode name rules s)
        (evaluateRules h env mode name rules s).2 ∧
      Course past rules (evaluateRules h env mode name rules s).1
        (rulesHappenings h env mode name rules s) := by
  -- The accounts of each step carry the registrations to the next one.
  induction rules generalizing past s with
  | nil => exact ⟨.refl name past s, .nil past⟩
  | cons rule rest ih =>
    obtain ⟨hfirst, hcalls⟩ := notify_happens hs h name .evaluating ⟨rule, none⟩
    rcases hbefore : s.notify h name .evaluating ⟨rule, none⟩ with ⟨f | ⟨⟩, t⟩
    all_goals rw [hbefore] at hfirst hcalls
    · simp only [evaluateRules, rulesHappenings, hbefore]
      exact ⟨hfirst, .evaluating hcalls⟩
    have hsecond := hfirst.trans (evaluateRule_accounts h env mode name rule _ t)
    have hran := protocol_ruleHappenings h env mode name rule t
    rcases hrule : t.evaluateRule h env mode name rule with ⟨result, u⟩
    rw [hrule] at hsecond hran
    obtain ⟨hthird, hcalls'⟩ :=
      notify_happens (hsecond.registered hs) h name .evaluated ⟨rule, some result⟩
    rcases hafter : u.notify h name .evaluated ⟨rule, some result⟩ with ⟨f | ⟨⟩, v⟩
    all_goals
      rw [hafter] at hthird hcalls'
      have hturn := hsecond.trans hthird
    · simp only [evaluateRules, rulesHappenings, hbefore, hrule, hafter]
      exact ⟨hturn, .evaluated hcalls hran hcalls'⟩
    obtain ⟨hlast, hcourse⟩ := ih (hturn.registered hs)
    rcases hrest : evaluateRules h env mode name rest v with ⟨f | results, w⟩
    all_goals
      rw [hrest] at hlast hcourse
      simp only [evaluateRules, rulesHappenings, hbefore, hrule, hafter, hrest]
      exact ⟨hturn.trans hlast, .turn hcalls hran hcalls' hcourse⟩

/-! ## Runs -/

variable {past : List (Happening β)} {s : Session β}

/-- **Engines keep to the protocol** as long as their listeners are those of the standing
registrations. -/
theorem Registered.keepsProtocol (hs : s.Registered past) (hpast : Answered [] past)
    (h : Handlers β) (env : Environment) : s.KeepsProtocol h env past := by
  constructor
  case registered => exact hs
  case made => exact fun moment r hr => getElem?_of_mem_standing hr
  case ordered => exact fun moment => standing_pairwise moment past
  case answered => exact hpast
  case unlisten_iff => exact hs.unlisten_iff
  case unlisten_listeners =>
    intro listener moment
    have hafter := hs.unlisten listener true moment
    rw [listening] at hafter
    rcases standing_unregistered moment past listener true with
      ⟨hnone, hsame⟩ | ⟨before, i, after, hstanding, hearliest, hdropped⟩
    · rw [hsame, ← listening, ← hs moment] at hafter
      exact .inl ⟨hnone, hafter⟩
    · rw [hdropped] at hafter
      exact .inr ⟨before, i, after, hstanding, hearliest, hafter⟩
  case evaluate =>
    intro mode name
    rw [Session.evaluate, evaluationHappenings]
    cases s.target? name with
    | none => rfl
    | some n => exact evaluateRules_happens h env mode n s.registry.ordered hs

/-- **One command** leaves the listeners those of the standing registrations, and unregistering
is answered. -/
theorem Registered.obey (hs : s.Registered past) (h : Handlers β) (env : Environment)
    (op : Command β) :
    (s.obey h env op).Registered (past ++ s.happening h env op) ∧
      Answered past (s.happening h env op) := by
  have haccounts : ∀ name {τ t}, Accounts name past s τ t →
      t.Registered (past ++ τ) ∧ Answered past τ :=
    fun _ _ _ hst => ⟨hst.registered hs, hst.answered hs⟩
  cases op with
  | supply name context =>
    refine ⟨?_, .nil past⟩
    rw [happening, List.append_nil]
    exact hs
  | change change =>
    cases change with
    | add rule => exact haccounts "" (.addRule s rule)
    | remove id => exact haccounts "" (.removeRule s id)
    | clear => exact haccounts "" (.clearRules s)
  | listen moment listener => exact haccounts "" (.listen s moment listener)
  | unlisten listener => exact haccounts "" (.unlisten s listener)
  | evaluate mode name =>
    rw [Session.obey, happening, Session.evaluate, evaluationHappenings]
    cases s.target? name with
    | none => exact haccounts "" (.refl "" past s)
    | some n => exact haccounts n (evaluateRules_happens h env mode n s.registry.ordered hs).1

/-- **Engines keep to the protocol of their observers**, whatever is done with them. -/
theorem keepsProtocol_run (h : Handlers β) (env : Environment) (contexts : List (String × Context))
    (commands : List (Command β)) :
    ((start contexts).run h env commands).KeepsProtocol h env
      ((start contexts).happened h env commands) := by
  have hrun : ∀ (past : List (Happening β)) (s : Session β), s.Registered past →
      Answered [] past → (s.run h env commands).KeepsProtocol h env
        (past ++ s.happened h env commands) := by
    induction commands with
    | nil =>
      intro past s hs hpast
      rw [happened, List.append_nil]
      exact hs.keepsProtocol hpast h env
    | cons op ops ih =>
      intro past s hs hpast
      obtain ⟨hafter, hanswered⟩ := hs.obey h env op
      rw [happened, ← List.append_assoc]
      exact ih _ _ hafter (hpast.append hanswered)
  exact hrun [] (start contexts) (fun moment => by cases moment <;> rfl) (.nil [])

/-- The first of two listeners unregisters both, which counts from the next notification on. -/
example :
    let h : Handlers Unit := ⟨fun _ => .done .done,
      fun _ _ => .unlisten "a" fun _ => .unlisten "b" fun _ => .done ()⟩
    let s := ((start []).listen .evaluating "a").listen .evaluating "b"
    let rule := fun id => Rule.custom ⟨id, id, "", 0⟩ () none
    (evaluateRules h [] .sync "c" [rule "r", rule "s"] s).2.observed =
      [.notified "a" "r" none, .notified "b" "r" none, .evaluated "r", .evaluated "s"] := by
  decide +kernel

end Session

end BusinessRules
