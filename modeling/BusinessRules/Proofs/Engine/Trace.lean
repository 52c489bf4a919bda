import Mathlib.Data.List.Induction
import BusinessRules.Proofs.Engine.Run

/-!
# What happens in an engine

While an engine works, listeners come and go: they are registered and unregistered between
evaluations, and also by rules and listeners in the middle of one.  The trace of all that happens
tells which registrations stand at any moment, and the lists of listeners of the engine are exactly
these.  A registration has a number, its place in the trace; unregistering a listener drops the
earliest of its standing registrations for each moment.

## Main definitions

* `Happening`: what happens in an engine, one thing at a time
* `standing`, `listening`: the registrations that stand after a trace, and their listeners
* `Procedure.happenings`, `Rule.happenings`: what happens while bodies, listeners and rules run
* `Session.Accounts`: a trace that accounts for what a session has become

## Main statements

* `standing_unregistered`: unregistering drops the earliest registration, if there is one
* `Procedure.accounts`, `Rule.accounts`: what happens accounts for what bodies and rules do
-/

namespace BusinessRules

variable {β : Type}

/-- What happens in an engine. -/
inductive Happening (β : Type) where
  /-- A listener is called. -/
  | called (listener : String) (event : Event β)
  /-- A rule is evaluated; in the end it has this result. -/
  | ran (rule : Rule β) (result : RuleResult)
  /-- The listener that was called last raises a fault. -/
  | raised (f : Fault)
  /-- A listener is registered. -/
  | registered (moment : Moment) (listener : String)
  /-- A listener is unregistered, and was found or not. -/
  | unregistered (listener : String) (found : Bool)
  /-- The context that is evaluated is changed. -/
  | bound (context : Context)
  /-- A note is left. -/
  | noted (text : String)

namespace Happening

/-- What is observed of it. -/
def observation? : Happening β → Option Observation
  | called listener event =>
    some (.notified listener event.rule.id (event.result.map (·.status)))
  | ran rule _ => some (.evaluated rule.id)
  | noted text => some (.note text)
  | _ => none

/-- The context that it leaves, if it changes the context. -/
def context? : Happening β → Option Context
  | bound context => some context
  | _ => none

/-- Whether it is a step of the engine itself and not of a rule or listener that it calls. -/
def byEngine : Happening β → Bool
  | called .. | ran .. | raised _ => true
  | _ => false

/-- What it does to the registrations for a moment; its number becomes that of a registration. -/
def register (moment : Moment) (registrations : List (Nat × String)) :
    Happening β × Nat → List (Nat × String)
  | (registered m listener, i) =>
    if m = moment then registrations ++ [(i, listener)] else registrations
  | (unregistered listener _, _) => registrations.eraseP (·.2 = listener)
  | _ => registrations

end Happening

/-- The registrations for a moment that stand after a trace, in order: their numbers and their
listeners. -/
def standing (moment : Moment) (past : List (Happening β)) : List (Nat × String) :=
  past.zipIdx.foldl (Happening.register moment) []

/-- The listeners whose registrations stand after a trace, once for each registration. -/
def listening (moment : Moment) (past : List (Happening β)) : List String :=
  (standing moment past).map Prod.snd

/-- The steps of the engine itself: the calls of listeners and rules, and the fault that ends
them. -/
def protocol (τ : List (Happening β)) : List (Happening β) := τ.filter (·.byEngine)

/-- What happens while a procedure is performed. -/
def Procedure.happenings {α : Type} (name : String) :
    Procedure β α → Session β → List (Happening β)
  | done _, _ | raise _, _ => []
  | note text next, s => .noted text :: next.happenings name (s.observe (.note text))
  | read next, s => (next (s.context name)).happenings name s
  | write c next, s => .bound c :: next.happenings name (s.withContext name c)
  | addRule rule next, s => next.happenings name (s.addRule rule)
  | removeRule id next, s =>
    let (removed, s) := s.removeRule id
    (next removed).happenings name s
  | clearRules next, s => next.happenings name s.clearRules
  | listen moment listener next, s =>
    .registered moment listener :: next.happenings name (s.listen moment listener)
  | unlisten listener next, s =>
    let (found, s) := s.unlisten listener
    .unregistered listener found :: (next found).happenings name s

/-- What happens while a rule is evaluated on its own. -/
def Rule.happenings (h : Handlers β) (env : Environment) (mode : Mode) (name : String)
    (rule : Rule β) (s : Session β) : List (Happening β) :=
  match rule with
  | declarative d => [.bound (d.runPlain env (s.context name)).context]
  | «foreach» d collection => [.bound (d.runEach env (s.context name) collection).context]
  | delegate _ body asyncBody | custom _ body asyncBody =>
    (h.body (mode.body body asyncBody)).happenings name s

/-- Whether everyone who unregisters a listener learns whether it was registered for either
moment. -/
def Answered (past τ : List (Happening β)) : Prop :=
  ∀ before listener found after, τ = before ++ .unregistered listener found :: after →
    (found = true ↔ ∃ moment i, (i, listener) ∈ standing moment (past ++ before))

namespace Session

/-- A session whose listeners are those of the standing registrations. -/
def Registered (past : List (Happening β)) (s : Session β) : Prop :=
  ∀ moment, s.listeners moment = listening moment past

/-- What happens in a session accounts for what becomes of it: for its listeners, its observations,
and the context of a name. -/
structure Accounts (name : String) (past : List (Happening β)) (s : Session β)
    (τ : List (Happening β)) (t : Session β) : Prop where
  registered : s.Registered past → t.Registered (past ++ τ)
  answered : s.Registered past → Answered past τ
  observed_eq : t.observed = s.observed ++ τ.filterMap Happening.observation?
  context_eq : t.context name = (τ.filterMap Happening.context?).getLast?.getD (s.context name)

end Session

/-! ## Standing registrations -/

theorem standing_concat (moment : Moment) (past : List (Happening β)) (x : Happening β) :
    standing moment (past ++ [x]) =
      Happening.register moment (standing moment past) (x, past.length) := by
  simp [standing, List.zipIdx_append]

/-- A standing registration is one that was made, and its number tells when. -/
theorem getElem?_of_mem_standing {moment : Moment} {past : List (Happening β)}
    {r : Nat × String} (hr : r ∈ standing moment past) :
    past[r.1]? = some (.registered moment r.2) := by
  induction past using List.reverseRecOn with
  | nil => cases hr
  | append_singleton past x ih =>
    have hkept : r ∈ standing moment past →
        (past ++ [x])[r.1]? = some (.registered moment r.2) := by
      intro hr
      have hget := ih hr
      rw [List.getElem?_append_left (List.getElem?_eq_some_iff.1 hget).1, hget]
    rw [standing_concat] at hr
    cases x with
    | registered m listener =>
      rw [Happening.register] at hr
      split at hr
      · next hm =>
        rcases List.mem_append.1 hr with hr | hr
        · exact hkept hr
        · rw [List.mem_singleton.1 hr, hm, List.getElem?_concat_length]
      · exact hkept hr
    | unregistered listener found => exact hkept (List.mem_of_mem_eraseP hr)
    | called | ran | raised | bound | noted => exact hkept hr

/-- Standing registrations are in the order in which they were made. -/
theorem standing_pairwise (moment : Moment) (past : List (Happening β)) :
    (standing moment past).Pairwise fun r r' => r.1 < r'.1 := by
  induction past using List.reverseRecOn with
  | nil => exact .nil
  | append_singleton past x ih =>
    rw [standing_concat]
    cases x with
    | registered m listener =>
      rw [Happening.register]
      split
      · refine List.pairwise_append.2 ⟨ih, List.pairwise_singleton .., ?_⟩
        intro r hr r' hr'
        rw [List.mem_singleton.1 hr']
        exact (List.getElem?_eq_some_iff.1 (getElem?_of_mem_standing hr)).1
      · exact ih
    | unregistered listener found => exact ih.sublist List.eraseP_sublist
    | called | ran | raised | bound | noted => exact ih

/-- **Unregistering a listener drops the earliest of its standing registrations**, if it has one,
and nothing else. -/
theorem standing_unregistered (moment : Moment) (past : List (Happening β)) (listener : String)
    (found : Bool) :
    ((∀ i, (i, listener) ∉ standing moment past) ∧
        standing moment (past ++ [.unregistered listener found]) = standing moment past) ∨
      ∃ before i after, standing moment past = before ++ (i, listener) :: after ∧
        (∀ j, (j, listener) ∈ standing moment past → i ≤ j) ∧
        standing moment (past ++ [.unregistered listener found]) = before ++ after := by
  rw [standing_concat, Happening.register]
  rcases List.exists_or_eq_self_of_eraseP (fun r : Nat × String => decide (r.2 = listener))
    (standing moment past) with hself | ⟨⟨i, l⟩, before, after, hbefore, hl, hstanding, herased⟩
  · left
    refine ⟨fun i hi => ?_, hself⟩
    have hlength := List.length_eraseP_of_mem hi (p := fun r => decide (r.2 = listener))
      (decide_eq_true rfl)
    have hpos := List.length_pos_of_mem hi
    rw [hself] at hlength
    omega
  · right
    obtain rfl : l = listener := of_decide_eq_true hl
    refine ⟨before, i, after, hstanding, fun j hj => ?_, herased⟩
    have hpairs := hstanding ▸ standing_pairwise moment past
    rw [hstanding, List.mem_append, List.mem_cons] at hj
    rcases hj with hj | hj | hj
    · exact absurd (decide_eq_true rfl) (hbefore _ hj)
    · cases hj
      exact Nat.le_refl _
    · exact Nat.le_of_lt ((List.pairwise_cons.1 (List.pairwise_append.1 hpairs).2.1).1 _ hj)

/-! ## Answers -/

namespace Answered

variable {past τ τ' : List (Happening β)}

theorem nil (past : List (Happening β)) : Answered past [] := by
  intro before listener found after hsplit
  cases before <;> cases hsplit

theorem append (hτ : Answered past τ) (hτ' : Answered (past ++ τ) τ') :
    Answered past (τ ++ τ') := by
  intro before listener found after hsplit
  rcases List.append_eq_append_iff.1 hsplit with ⟨rest, rfl, hrest⟩ | ⟨rest, rfl, hrest⟩
  · rw [← List.append_assoc]
    exact hτ' rest listener found after hrest
  · cases rest with
    | nil =>
      -- The split is between the two parts.
      have hanswer := hτ' [] listener found after hrest.symm
      rw [List.append_nil, List.append_nil] at hanswer
      exact hanswer
    | cons x rest =>
      obtain ⟨rfl, -⟩ := List.cons.inj hrest
      exact hτ before listener found rest rfl

theorem singleton {x : Happening β}
    (hx : ∀ listener found, x = .unregistered listener found →
      (found = true ↔ ∃ moment i, (i, listener) ∈ standing moment past)) :
    Answered past [x] := by
  intro before listener found after hsplit
  cases before with
  | nil =>
    rw [List.append_nil]
    exact hx listener found (List.cons.inj hsplit).1
  | cons y before => cases before <;> cases hsplit

end Answered

/-! ## Accounts -/

namespace Session

variable {name : String} {past τ τ' : List (Happening β)} {s t u : Session β}

theorem Registered.mem_iff (hs : s.Registered past) (moment : Moment) (listener : String) :
    listener ∈ s.listeners moment ↔ ∃ i, (i, listener) ∈ standing moment past := by
  simp [hs moment, listening]

/-- What unregistering a listener answers. -/
theorem Registered.unlisten_iff (hs : s.Registered past) (listener : String) :
    (s.unlisten listener).1 = true ↔ ∃ moment i, (i, listener) ∈ standing moment past := by
  have hanswer : (s.unlisten listener).1 = true ↔ ∃ moment, listener ∈ s.listeners moment := by
    rw [unlisten, Bool.or_eq_true, List.contains_iff_mem, List.contains_iff_mem]
    constructor
    · rintro (h | h)
      · exact ⟨.evaluating, h⟩
      · exact ⟨.evaluated, h⟩
    · rintro ⟨_ | _, h⟩
      · exact .inl h
      · exact .inr h
  simp only [hanswer, hs.mem_iff]

theorem listeners_listen (s : Session β) (moment m : Moment) (listener : String) :
    (s.listen m listener).listeners moment =
      if m = moment then s.listeners moment ++ [listener] else s.listeners moment := by
  cases m <;> cases moment <;> rfl

theorem listeners_unlisten (s : Session β) (moment : Moment) (listener : String) :
    (s.unlisten listener).2.listeners moment = (s.listeners moment).erase listener := by
  cases moment <;> rfl

/-- **Registering a listener adds a registration.** -/
theorem Registered.listen (hs : s.Registered past) (m : Moment) (listener : String) :
    (s.listen m listener).Registered (past ++ [.registered m listener]) := by
  intro moment
  rw [listeners_listen, listening, standing_concat, Happening.register, hs moment, listening]
  split
  · rw [List.map_append, List.map_singleton]
  · rfl

/-- **Unregistering a listener drops a registration for each moment.** -/
theorem Registered.unlisten (hs : s.Registered past) (listener : String) (found : Bool) :
    (s.unlisten listener).2.Registered (past ++ [.unregistered listener found]) := by
  intro moment
  rw [listeners_unlisten, listening, standing_concat, Happening.register, hs moment, listening,
    List.erase_eq_eraseP, List.eraseP_map]
  congr 2
  funext r
  simp [Function.comp, eq_comm, beq_eq_decide]

/-- What changes no registration. -/
theorem Registered.other {x : Happening β} (hs : s.Registered past)
    (hx : ∀ moment registrations i,
      Happening.register moment registrations (x, i) = registrations)
    (hlisteners : t.listeners = s.listeners) : t.Registered (past ++ [x]) := by
  intro moment
  rw [hlisteners, hs moment, listening, listening, standing_concat, hx]

namespace Accounts

theorem refl (name : String) (past : List (Happening β)) (s : Session β) :
    Accounts name past s [] s := by
  refine ⟨fun hs => ?_, fun _ => .nil past, (List.append_nil _).symm, rfl⟩
  rwa [List.append_nil]

/-- **Accounts are put together**, in the order of what happens. -/
theorem trans (hst : Accounts name past s τ t) (htu : Accounts name (past ++ τ) t τ' u) :
    Accounts name past s (τ ++ τ') u := by
  constructor
  case registered =>
    intro hs
    rw [← List.append_assoc]
    exact htu.registered (hst.registered hs)
  case answered => exact fun hs => (hst.answered hs).append (htu.answered (hst.registered hs))
  case observed_eq =>
    rw [htu.observed_eq, hst.observed_eq, List.filterMap_append, List.append_assoc]
  case context_eq =>
    rw [htu.context_eq, hst.context_eq, List.filterMap_append, List.getLast?_append]
    cases (τ'.filterMap Happening.context?).getLast? <;> rfl

/-- What nobody takes notice of. -/
theorem silent (hlisteners : t.listeners = s.listeners) (hobserved : t.observed = s.observed)
    (hcontexts : t.contexts = s.contexts) : Accounts name past s [] t := by
  refine ⟨fun hs => ?_, fun _ => .nil past, ?_, ?_⟩
  · rw [List.append_nil]
    intro moment
    rw [hlisteners, hs moment]
  · rw [hobserved, List.filterMap_nil, List.append_nil]
  · rw [context, context, hcontexts]
    rfl

theorem addRule (s : Session β) (rule : Rule β) : Accounts name past s [] (s.addRule rule) :=
  silent rfl rfl rfl

theorem removeRule (s : Session β) (id : String) :
    Accounts name past s [] (s.removeRule id).2 := by
  rw [Session.removeRule]
  split
  · exact silent rfl rfl rfl
  · exact .refl name past s

theorem clearRules (s : Session β) : Accounts name past s [] s.clearRules := silent rfl rfl rfl

/-- Reports are no concern of observers. -/
theorem report (hst : Accounts name past s τ t) (entries : List LogEntry) :
    Accounts name past s τ (t.report entries) :=
  ⟨hst.registered, hst.answered, hst.observed_eq, hst.context_eq⟩

/-- One thing that happens and leaves all registrations. -/
theorem single {x : Happening β}
    (hx : ∀ moment registrations i,
      Happening.register moment registrations (x, i) = registrations)
    (hlisteners : t.listeners = s.listeners)
    (hobserved : t.observed = s.observed ++ x.observation?.toList)
    (hcontext : t.context name = x.context?.getD (s.context name)) :
    Accounts name past s [x] t := by
  constructor
  case registered => exact fun hs => hs.other hx hlisteners
  case answered =>
    intro _
    refine .singleton fun listener found heq => ?_
    -- Unregistering would drop a registration.
    have hdrop := hx .evaluating [(0, listener)] 0
    simp [heq, Happening.register] at hdrop
  case observed_eq =>
    rw [hobserved]
    cases h : x.observation? <;> simp [h]
  case context_eq =>
    rw [hcontext]
    cases h : x.context? <;> simp [h]

theorem listen (s : Session β) (moment : Moment) (listener : String) :
    Accounts name past s [.registered moment listener] (s.listen moment listener) := by
  constructor
  case registered => exact fun hs => hs.listen moment listener
  case answered => exact fun _ => .singleton fun _ _ heq => by cases heq
  case observed_eq => cases moment <;> exact (List.append_nil _).symm
  case context_eq => cases moment <;> rfl

theorem unlisten (s : Session β) (listener : String) :
    Accounts name past s [.unregistered listener (s.unlisten listener).1]
      (s.unlisten listener).2 := by
  constructor
  case registered => exact fun hs => hs.unlisten listener _
  case answered =>
    intro hs
    refine .singleton fun l found heq => ?_
    cases heq
    exact hs.unlisten_iff listener
  case observed_eq => exact (List.append_nil _).symm
  case context_eq => rfl

end Accounts

end Session

open Session

/-- **What happens accounts for what a procedure does.** -/
theorem Procedure.accounts {α : Type} (name : String) (procedure : Procedure β α)
    (past : List (Happening β)) (s : Session β) :
    Accounts name past s (procedure.happenings name s) (procedure.perform name s).2 := by
  induction procedure generalizing past s with
  | done a => exact .refl name past s
  | raise f => exact .refl name past s
  | note text next ih =>
    have hnote : Accounts name past s [.noted text] (s.observe (.note text)) :=
      .single (fun _ _ _ => rfl) rfl rfl rfl
    exact hnote.trans (ih _ _)
  | read next ih => exact ih _ past s
  | write c next ih =>
    have hwrite : Accounts name past s [.bound c] (s.withContext name c) :=
      .single (fun _ _ _ => rfl) rfl (List.append_nil _).symm (context_withContext ..)
    exact hwrite.trans (ih _ _)
  | addRule rule next ih => exact (Accounts.addRule s rule).trans (ih _ _)
  | removeRule id next ih => exact (Accounts.removeRule s id).trans (ih _ _ _)
  | clearRules next ih => exact (Accounts.clearRules s).trans (ih _ _)
  | listen moment listener next ih => exact (Accounts.listen s moment listener).trans (ih _ _)
  | unlisten listener next ih => exact (Accounts.unlisten s listener).trans (ih _ _ _)

/-- Bodies and listeners take no step of the engine. -/
theorem Procedure.protocol_happenings {α : Type} (name : String) (procedure : Procedure β α)
    (s : Session β) : protocol (procedure.happenings name s) = [] := by
  induction procedure generalizing s with
  | done a => rfl
  | raise f => rfl
  | read next ih => exact ih _ s
  | note text next ih | write c next ih | addRule rule next ih | clearRules next ih
  | listen moment listener next ih => exact ih _
  | removeRule id next ih | unlisten listener next ih => exact ih _ _

/-- **What happens accounts for what a rule does.** -/
theorem Rule.accounts (h : Handlers β) (env : Environment) (mode : Mode) (name : String)
    (rule : Rule β) (past : List (Happening β)) (s : Session β) :
    Accounts name past s (rule.happenings h env mode name s)
      (rule.attempt h env mode name s).2 := by
  have hrun : ∀ run : Run, Accounts name past s [.bound run.context] (s.settleRun name run).2 :=
    fun run => .single (fun _ _ _ => rfl) rfl (List.append_nil _).symm (context_withContext ..)
  cases rule with
  | declarative d => exact hrun _
  | «foreach» d collection => exact hrun _
  | delegate info body asyncBody | custom info body asyncBody =>
    exact (h.body (mode.body body asyncBody)).accounts name past s

/-- Rules take no step of the engine. -/
theorem Rule.protocol_happenings (h : Handlers β) (env : Environment) (mode : Mode) (name : String)
    (rule : Rule β) (s : Session β) : protocol (rule.happenings h env mode name s) = [] := by
  cases rule with
  | declarative d => rfl
  | «foreach» d collection => rfl
  | delegate info body asyncBody | custom info body asyncBody =>
    exact (h.body (mode.body body asyncBody)).protocol_happenings name s

end BusinessRules
