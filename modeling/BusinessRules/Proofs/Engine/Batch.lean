import BusinessRules.Proofs.Engine.Compiled

/-!
# Contexts of one batch

An engine of compiled rules that evaluates several contexts in one call treats each of them as if it
were alone: its results and what is bound in it in the end are those of an evaluation of this
context, whatever else the batch holds and in whatever order.  Only a context that the batch holds
several times is affected, by the evaluations of itself that came before.

## Main definitions

* `Session.evaluateTimes`: the session after a context has been evaluated a number of times
* `Session.occurrences`: how often a batch holds a context

## Main statements

* `Compiled.evaluateTimes`: evaluations of one context alone
* `Compiled.evaluateEach`: what the entries of a batch see of each other
* `evaluateMany_separate`: the contexts of a batch do not influence each other
-/

namespace BusinessRules.Session

open RuleDefinition

variable {β κ : Type} {s : Session β} {env : Environment} {mode : Mode} {name : String}

/-- The session after the context of a name has been evaluated a number of times. -/
def evaluateTimes (h : Handlers β) (env : Environment) (mode : Mode) (name : String) :
    Nat → Session β → Session β
  | 0, s => s
  | k + 1, s => evaluateTimes h env mode name k (s.evaluate h env mode (some name)).2

/-- How often the context of a name occurs in a batch. -/
def occurrences (name : String) (entries : List (κ × Option String)) : Nat :=
  (entries.map Prod.snd).count (some name)

theorem occurrences_cons (name : String) (e : κ × Option String)
    (entries : List (κ × Option String)) :
    occurrences name (e :: entries) =
      occurrences name entries + if e.2 = some name then 1 else 0 := by
  rw [occurrences, List.map_cons, List.count_cons, occurrences]
  simp only [beq_iff_eq]

/-- In a batch of distinct contexts an entry is the first one and the only one of its context. -/
theorem occurrences_of_nodup {entries : List (κ × Option String)} {i : Nat} {key : κ}
    (hnodup : (entries.map Prod.snd).Nodup) (hentry : entries[i]? = some (key, some name)) :
    occurrences name (entries.take i) = 0 ∧ occurrences name entries = 1 := by
  have hget : (entries.map Prod.snd)[i]? = some (some name) := by
    rw [List.getElem?_map, hentry]
    rfl
  rw [occurrences, occurrences, List.map_take]
  constructor
  · have hprefix : ((entries.map Prod.snd).take (i + 1)).Nodup :=
      hnodup.sublist (List.take_sublist _ _)
    rw [List.take_add_one, hget, Option.toList_some, List.nodup_append] at hprefix
    rw [List.count_eq_zero]
    exact fun hmem => hprefix.2.2 _ hmem _ (List.mem_singleton_self _) rfl
  · exact List.count_eq_one_of_mem hnodup (List.mem_of_getElem? hget)

/-! ## One context -/

/-- **Evaluations of one context alone** run all definitions again and again. -/
theorem Compiled.evaluateTimes (hs : s.Compiled) {f : Facts} (hcontext : s.context name = .facts f)
    {ds : List RuleDefinition} (hds : s.registry.ordered = ds.map Rule.ofDefinition)
    (h : Handlers β) (env : Environment) (mode : Mode) (k : Nat) :
    Advanced name ((fun c => (runAll env ds c).2)^[k] (.facts f)) s
      (s.evaluateTimes h env mode name k) := by
  induction k generalizing s f with
  | zero => exact hcontext ▸ .refl s
  | succ k ih =>
    obtain ⟨t, hevaluate, ht⟩ := hs.evaluate hcontext hds h env mode
    obtain ⟨f', hf'⟩ := exists_facts_runAll env ds f
    have hagain := ih (ht.compiled hs) (ht.context_eq.trans hf') (ht.registry_eq ▸ hds)
    rw [Session.evaluateTimes, hevaluate, Function.iterate_succ_apply, hf']
    exact ht.trans hagain

theorem exists_facts_iterate (env : Environment) (ds : List RuleDefinition) (f : Facts) (k : Nat) :
    ∃ f', (fun c => (runAll env ds c).2)^[k] (.facts f) = .facts f' := by
  induction k generalizing f with
  | zero => exact ⟨f, rfl⟩
  | succ k ih =>
    obtain ⟨f', hf'⟩ := exists_facts_runAll env ds f
    rw [Function.iterate_succ_apply, hf']
    exact ih f'

/-! ## Several contexts -/

/-- **What the entries of a batch see of each other**: only evaluations of their own context. -/
theorem Compiled.evaluateEach (hs : s.Compiled) {entries : List (κ × Option String)}
    (hcontexts : ∀ e ∈ entries, ∃ n f, e.2 = some n ∧ s.context n = .facts f)
    {ds : List RuleDefinition} (hds : s.registry.ordered = ds.map Rule.ofDefinition)
    (h : Handlers β) (env : Environment) (mode : Mode) :
    ∃ answers t, evaluateEach h env mode entries s = (.ok answers, t) ∧
      answers.map Prod.fst = entries.map Prod.fst ∧
      (∀ (i : Nat) key n, entries[i]? = some (key, some n) →
        answers[i]? = some (key, (runAll env ds ((fun c => (runAll env ds c).2)^[
          occurrences n (entries.take i)] (s.context n))).1)) ∧
      ∀ n, t.context n =
        (fun c => (runAll env ds c).2)^[occurrences n entries] (s.context n) := by
  induction entries generalizing s with
  | nil => exact ⟨[], s, rfl, rfl, fun _ _ _ hentry => absurd hentry (by simp), fun _ => rfl⟩
  | cons e rest ih =>
    rw [List.forall_mem_cons] at hcontexts
    obtain ⟨⟨name, f, hname, hcontext⟩, hrest⟩ := hcontexts
    obtain ⟨key, _⟩ := e
    obtain rfl : _ = some name := hname
    obtain ⟨t, hevaluate, ht⟩ := hs.evaluate hcontext hds h env mode
    -- The first entry moves its own context on, and no other.
    have hmoved : ∀ n, t.context n =
        if name = n then (runAll env ds (s.context n)).2 else s.context n := by
      intro n
      split
      · next hn => rw [← hn, ht.context_eq, hcontext]
      · next hn => exact ht.context_of_ne n (Ne.symm hn)
    have hfacts : ∀ e ∈ rest, ∃ n f, e.2 = some n ∧ t.context n = .facts f := by
      intro e he
      obtain ⟨n, g, hn, hg⟩ := hrest e he
      obtain ⟨g', hg'⟩ := exists_facts_runAll env ds g
      refine ⟨n, if name = n then g' else g, hn, ?_⟩
      rw [hmoved n, hg, hg']
      split <;> rfl
    obtain ⟨answers, u, heach, hkeys, hanswers, hcontexts⟩ :=
      ih (ht.compiled hs) hfacts (ht.registry_eq ▸ hds)
    have hiterate : ∀ n k, (fun c => (runAll env ds c).2)^[k] (t.context n) =
        (fun c => (runAll env ds c).2)^[k + if some name = some n then 1 else 0]
          (s.context n) := by
      intro n k
      rw [hmoved n]
      by_cases hn : name = n
      · rw [if_pos hn, if_pos (congrArg some hn), Function.iterate_succ_apply]
      · rw [if_neg hn, if_neg (fun hsome => hn (Option.some.inj hsome)), Nat.add_zero]
    refine ⟨(key, (runAll env ds (.facts f)).1) :: answers, u, ?_, ?_, fun i key' n hentry => ?_,
      fun n => ?_⟩
    · simp only [Session.evaluateEach, hevaluate, heach]
    · rw [List.map_cons, List.map_cons, hkeys]
    · cases i with
      | zero =>
        cases hentry
        rw [List.getElem?_cons_zero, List.take_zero, ← hcontext]
        rfl
      | succ i =>
        rw [List.getElem?_cons_succ] at hentry ⊢
        rw [hanswers i key' n hentry, hiterate, List.take_succ_cons, occurrences_cons]
    · rw [hcontexts n, hiterate, occurrences_cons]

/-- The answers to a batch and the session that is left, if each entry is told by evaluations of its
own context alone. -/
structure Separate (h : Handlers β) (env : Environment) (mode : Mode) (s : Session β)
    (entries : List (κ × Option String)) (answers : List (κ × List RuleResult)) (t : Session β) :
    Prop where
  keys : answers.map Prod.fst = entries.map Prod.fst
  answer : ∀ (i : Nat) key n, entries[i]? = some (key, some n) → ∃ results u,
    (s.evaluateTimes h env mode n (occurrences n (entries.take i))).evaluate h env mode (some n) =
        (.ok results, u) ∧ answers[i]? = some (key, results)
  context : ∀ n, t.context n = (s.evaluateTimes h env mode n (occurrences n entries)).context n

theorem Compiled.separate (hs : s.Compiled) (h : Handlers β) (env : Environment) (mode : Mode)
    {entries : List (κ × Option String)}
    (hcontexts : ∀ c ∈ entries.map Prod.snd, ∃ n f, c = some n ∧ s.context n = .facts f) :
    ∃ answers t, Session.evaluateEach h env mode entries s = (.ok answers, t) ∧
      Separate h env mode s entries answers t := by
  obtain ⟨ds, hds⟩ := hs.exists_definitions
  rw [List.forall_mem_map] at hcontexts
  obtain ⟨answers, t, heach, hkeys, hanswers, hends⟩ := hs.evaluateEach hcontexts hds h env mode
  refine ⟨answers, t, heach, hkeys, fun i key n hentry => ?_, fun n => ?_⟩
  · obtain ⟨_, f, ⟨⟩, hn⟩ := hcontexts _ (List.mem_of_getElem? hentry)
    have htimes := hs.evaluateTimes hn hds h env mode (occurrences n (entries.take i))
    obtain ⟨f', hf'⟩ := exists_facts_iterate env ds f (occurrences n (entries.take i))
    obtain ⟨u, hu, -⟩ := (htimes.compiled hs).evaluate (htimes.context_eq.trans hf')
      (htimes.registry_eq ▸ hds) h env mode
    refine ⟨_, u, hu, ?_⟩
    rw [hanswers i key n hentry, hn, hf']
  · rw [hends n]
    by_cases hmem : some n ∈ entries.map Prod.snd
    · obtain ⟨e, he, hname⟩ := List.mem_map.1 hmem
      obtain ⟨m, f, hm, hf⟩ := hcontexts e he
      obtain rfl : m = n := Option.some.inj (hm.symm.trans hname)
      rw [(hs.evaluateTimes hf hds h env mode _).context_eq, hf]
    · -- A context that the batch does not hold is not evaluated.
      rw [occurrences, List.count_eq_zero.2 hmem]
      rfl

/-- In a batch of distinct contexts each is answered as if it were alone. -/
theorem Separate.alone {h : Handlers β} {entries : List (κ × Option String)}
    {answers : List (κ × List RuleResult)} {t : Session β}
    (hseparate : Separate h env mode s entries answers t)
    (hnodup : (entries.map Prod.snd).Nodup) {i : Nat} {key : κ}
    (hentry : entries[i]? = some (key, some name)) :
    ∃ results u, s.evaluate h env mode (some name) = (.ok results, u) ∧
      answers[i]? = some (key, results) ∧ t.context name = u.context name := by
  obtain ⟨hbefore, honce⟩ := occurrences_of_nodup hnodup hentry
  obtain ⟨results, u, hevaluate, hanswer⟩ := hseparate.answer i key name hentry
  rw [hbefore] at hevaluate
  change s.evaluate h env mode (some name) = (.ok results, u) at hevaluate
  refine ⟨results, u, hevaluate, hanswer, ?_⟩
  rw [hseparate.context, honce, Session.evaluateTimes, hevaluate, Session.evaluateTimes]

theorem contexts_listed (names : List (Option String)) :
    (Batch.listed names).entries.map Prod.snd = names := by
  rw [Batch.entries, List.map_map]
  exact List.zipIdx_map_fst ..

theorem keys_listed (names : List (Option String)) :
    (Batch.listed names).entries.map Prod.fst =
      (List.range names.length).map fun (i : Nat) => .int i := by
  rw [Batch.entries, List.map_map, List.range_eq_range', ← List.zipIdx_map_snd 0 names,
    List.map_map]
  rfl

theorem getElem?_listed {names : List (Option String)} {i : Nat} {c : Option String}
    (hi : names[i]? = some c) : (Batch.listed names).entries[i]? = some (.int i, c) := by
  rw [Batch.entries, List.getElem?_map, List.getElem?_zipIdx, hi]
  simp

/-- **The contexts of a batch do not influence each other.**  An engine of compiled rules gives one
answer for each context of a batch, under its key, or under its position in a list.  A context that
occurs several times is answered each time as its evaluations before have left it.  If all are
distinct, the answer and what is bound in the end are those that the context gives on its own, and a
permuted list of them has the same answers, permuted, and leaves the same bindings. -/
theorem evaluateMany_separate (hs : s.Compiled) (h : Handlers β) (env : Environment) (mode : Mode)
    (batch : Batch)
    (hcontexts : ∀ c ∈ batch.entries.map Prod.snd, ∃ n f, c = some n ∧ s.context n = .facts f) :
    ∃ answers t, s.evaluateMany h env mode (some batch) = (.ok answers, t) ∧
      Separate h env mode s batch.entries answers t ∧
      (∀ names, batch = .listed names →
        answers.map Prod.fst = (List.range names.length).map fun (i : Nat) => .int i) ∧
      ((batch.entries.map Prod.snd).Nodup →
        (∀ (i : Nat) key n, batch.entries[i]? = some (key, some n) →
          ∃ results u, s.evaluate h env mode (some n) = (.ok results, u) ∧
            answers[i]? = some (key, results) ∧ t.context n = u.context n) ∧
        ∀ names names', batch = .listed names → names.Perm names' →
          ∃ answers' t', s.evaluateMany h env mode (some (.listed names')) = (.ok answers', t') ∧
            (∀ (i j : Nat) n, names[i]? = some (some n) → names'[j]? = some (some n) →
              ∃ results, answers[i]? = some (.int i, results) ∧
                answers'[j]? = some (.int j, results)) ∧
            ∀ n, t'.context n = t.context n) := by
  obtain ⟨answers, t, heach, hseparate⟩ := hs.separate h env mode hcontexts
  refine ⟨answers, t, heach, hseparate, ?_, fun hnodup =>
    ⟨fun i key n hentry => hseparate.alone hnodup hentry, ?_⟩⟩
  · rintro names rfl
    rw [hseparate.keys, keys_listed]
  · rintro names names' rfl hperm
    rw [contexts_listed] at hcontexts hnodup
    have hcontexts' : ∀ c ∈ (Batch.listed names').entries.map Prod.snd,
        ∃ n f, c = some n ∧ s.context n = .facts f := by
      rw [contexts_listed]
      exact fun c hc => hcontexts c (hperm.symm.subset hc)
    obtain ⟨answers', t', heach', hseparate'⟩ := hs.separate h env mode hcontexts'
    refine ⟨answers', t', heach', fun i j n hi hj => ?_, fun n => ?_⟩
    · obtain ⟨results, u, hevaluate, hanswer, -⟩ :=
        hseparate.alone (by rwa [contexts_listed]) (getElem?_listed hi)
      obtain ⟨results', u', hevaluate', hanswer', -⟩ :=
        hseparate'.alone (by rw [contexts_listed]; exact hperm.nodup_iff.1 hnodup)
          (getElem?_listed hj)
      rw [hevaluate] at hevaluate'
      cases hevaluate'
      exact ⟨results, hanswer, hanswer'⟩
    · rw [hseparate.context, hseparate'.context, occurrences, occurrences, contexts_listed,
        contexts_listed, hperm.count_eq]

/-- A rule that counts, and one that acts once the count has come to two. -/
def countingRules : List RuleDefinition :=
  [⟨"count", "count", "", 1, none, some [.compute "n = n + 1"], none⟩,
    ⟨"full", "full", "", 0, some ⟨some [⟨"n", .ge, .int 2⟩], none⟩, some [.compute "full = true"],
      none⟩]

/-- An engine with these rules and two contexts. -/
def counting : Session Empty :=
  (start [("c", .facts ⟨[("n", .int 0)]⟩), ("d", .facts ⟨[("n", .int 5)]⟩)]).addDefinitions
    countingRules

/-- A context that occurs twice counts on, and is not affected by the one in between; distinct
contexts have the same answers the other way round. -/
theorem evaluateMany_counting :
    (∃ answers t results u,
      counting.evaluateMany plainHandlers [] .sync
          (some (.listed [some "c", some "d", some "c"])) = (.ok answers, t) ∧
        (counting.evaluate plainHandlers [] .sync (some "c")).2.evaluate plainHandlers [] .sync
          (some "c") = (.ok results, u) ∧
        answers[2]? = some (.int 2, results) ∧
        results.map RuleResult.status = [.matched, .matched]) ∧
    ∃ answers t answers' t' results,
      counting.evaluateMany plainHandlers [] .sync (some (.listed [some "c", some "d"])) =
          (.ok answers, t) ∧
        counting.evaluateMany plainHandlers [] .sync (some (.listed [some "d", some "c"])) =
          (.ok answers', t') ∧
        answers[0]? = some (.int 0, results) ∧ answers'[1]? = some (.int 1, results) ∧
        ∀ n, t'.context n = t.context n := by
  have hcompiled : counting.Compiled := compiled_addDefinitions ..
  have hordered : counting.registry.ordered = countingRules.map Rule.ofDefinition :=
    (Registry.eq_ordered .rfl (by decide)).symm
  have hc : ∃ n f, some "c" = some n ∧ counting.context n = .facts f := ⟨"c", _, rfl, rfl⟩
  have hd : ∃ n f, some "d" = some n ∧ counting.context n = .facts f := ⟨"d", _, rfl, rfl⟩
  have hrepeated : ∀ c ∈ (Batch.listed [some "c", some "d", some "c"]).entries.map Prod.snd,
      ∃ n f, c = some n ∧ counting.context n = .facts f :=
    List.forall_mem_cons.2 ⟨hc, List.forall_mem_cons.2 ⟨hd, List.forall_mem_singleton.2 hc⟩⟩
  have hdistinct : ∀ c ∈ (Batch.listed [some "c", some "d"]).entries.map Prod.snd,
      ∃ n f, c = some n ∧ counting.context n = .facts f :=
    List.forall_mem_cons.2 ⟨hc, List.forall_mem_singleton.2 hd⟩
  constructor
  · obtain ⟨answers, t, hmany, hseparate, -⟩ :=
      evaluateMany_separate hcompiled plainHandlers [] .sync _ hrepeated
    obtain ⟨results, u, hevaluate, hanswer⟩ := hseparate.answer 2 (.int 2) "c" rfl
    rw [List.forall_mem_map] at hrepeated
    obtain ⟨answers', t', heach, -, hanswers, -⟩ :=
      hcompiled.evaluateEach hrepeated hordered plainHandlers [] .sync
    obtain ⟨hsame, -⟩ := Prod.mk.inj (hmany.symm.trans heach)
    have hresults := hanswer.symm.trans (Except.ok.inj hsame ▸ hanswers 2 (.int 2) "c" rfl)
    refine ⟨answers, t, results, u, hmany, hevaluate, hanswer, ?_⟩
    rw [(Prod.mk.inj (Option.some.inj hresults)).2]
    decide +kernel
  · obtain ⟨answers, t, hmany, -, -, hseparate⟩ :=
      evaluateMany_separate hcompiled plainHandlers [] .sync _ hdistinct
    obtain ⟨-, hpermuted⟩ := hseparate (by decide)
    obtain ⟨answers', t', hmany', hanswers, hcontext⟩ :=
      hpermuted [some "c", some "d"] [some "d", some "c"] rfl (.swap _ _ _)
    obtain ⟨results, hanswer, hanswer'⟩ := hanswers 0 1 "c" rfl rfl
    exact ⟨answers, t, answers', t', results, hmany, hmany', hanswer, hanswer', hcontext⟩

end BusinessRules.Session
