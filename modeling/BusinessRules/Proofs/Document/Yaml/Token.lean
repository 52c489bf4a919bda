import BusinessRules.Document.Yaml.Token
import BusinessRules.Proofs.Outcome

/-!
# Why texts with indentation cannot be cut into tokens

A text in the notation with indentation that breaks the rules of the notation is refused, always
for the same reason, and so is one that has a number or an escape beyond all bounds.  A text that
cannot be cut to its end is a list of tokens all the same, and its last token holds the reason.

## Main definitions

* `Yaml.Unreadable`: the faults of such texts
* `Yaml.Sound`: tokens that hold no other faults
* `Yaml.Scan.Keeps`: steps that keep tokens sound

## Main statements

* `Yaml.Scan.keeps_step`, `Yaml.Scan.sound_run`: what one step keeps, and what a run keeps
* `Yaml.sound_ofText`: the tokens of a text are sound
-/

namespace BusinessRules.Yaml

/-- The faults of texts in the notation with indentation. -/
inductive Unreadable : Fault → Prop
  | invalid : Unreadable .invalidYaml
  | tooLong (digits : Nat) : Unreadable (.numberTooLong digits)
  | escapeOutOfRange : Unreadable .escapeOutOfRange
  | escapeTooLarge : Unreadable .escapeTooLarge

variable {f : Fault}

namespace Quoted

theorem unreadable_escaped {n : Nat} (h : escaped n = .error f) : Unreadable f := by
  rw [escaped] at h
  split at h
  · cases h
  · split at h
    · cases h
      exact .escapeOutOfRange
    · cases h
      exact .escapeTooLarge

theorem unreadable_readEscape {cs : List Char} (h : readEscape cs = .error f) : Unreadable f := by
  rw [readEscape.eq_def] at h
  split at h
  · cases h
    exact .invalid
  · split at h
    · split at h
      · cases h
      · cases h
        exact .invalid
    · split at h
      · cases h
      · split at h
        · exact unreadable_escaped (error_of_map h)
        · cases h
          exact .invalid
      · cases h
        exact .invalid

theorem unreadable_read (double : Bool) (cs : List Char) (h : read double cs = .error f) :
    Unreadable f := by
  rw [read.eq_def] at h
  split at h
  · cases h
    exact .invalid
  · next c r =>
    split at h
    · have hless : (r.dropWhile isSpace).length < (c :: r).length :=
        Nat.lt_succ_of_le (List.dropWhile_suffix isSpace).length_le
      split at h
      · next hread =>
        cases h
        exact unreadable_read double _ hread
      · cases h
    · split at h
      · split at h
        · cases h
          exact .invalid
        · next r' _ =>
          have hless : r'.1.length < (c :: r).length := Nat.lt_succ_of_le r'.2
          split at h
          · next hread =>
            cases h
            exact unreadable_read double _ hread
          · cases h
      · split at h
        · split at h
          · next hescape =>
            cases h
            exact unreadable_readEscape hescape
          · next r' _ =>
            have hless : r'.1.length < (c :: r).length := Nat.lt_succ_of_lt r'.2
            split at h
            · next hread =>
              cases h
              exact unreadable_read double _ hread
            · cases h
        · by_cases hquote : c = if double then '"' else '\''
          · rw [if_pos hquote] at h
            split at h
            · exact unreadable_read false _ (error_of_map h)
            · cases h
          · rw [if_neg hquote] at h
            exact unreadable_read double r (error_of_map h)
termination_by cs.length

end Quoted

/-! ## Tokens -/

/-- Tokens that end, if they do, only for the faults of texts. -/
def Sound (ts : List Token) : Prop := ∀ f, Token.broken f ∈ ts → Unreadable f

variable {ts ts' : List Token} {t : Token}

theorem sound_nil : Sound [] := fun _ hf => absurd hf List.not_mem_nil

theorem Sound.of_subset (h : Sound ts) (hsub : ts' ⊆ ts) : Sound ts' := fun f hf => h f (hsub hf)

theorem Sound.tail (h : Sound (t :: ts)) : Sound ts := h.of_subset (List.subset_cons_self t ts)

theorem Sound.cons (h : Sound ts) (ht : ∀ f, t ≠ .broken f) : Sound (t :: ts) := by
  intro f hf
  rcases List.mem_cons.1 hf with heq | hf
  · exact absurd heq.symm (ht f)
  · exact h f hf

theorem Sound.append (h : Sound ts) (h' : Sound ts') : Sound (ts ++ ts') := by
  intro f hf
  rcases List.mem_append.1 hf with hf | hf
  · exact h f hf
  · exact h' f hf

theorem sound_broken (h : Unreadable f) : Sound [.broken f] := by
  intro g hg
  obtain rfl := Token.broken.inj (List.mem_singleton.1 hg)
  exact h

theorem sound_closing (n : Nat) : Sound (List.replicate n .closeBlock) := by
  intro f hf
  cases (List.mem_replicate.1 hf).2

namespace Scan

variable {s s' : Scan}

theorem sound_emitAt (h : Sound s.tokens) (position : Nat) (ht : ∀ f, t ≠ .broken f) :
    Sound (s.emitAt position t).tokens :=
  (h.of_subset (List.take_subset ..)).append ((h.of_subset (List.drop_subset ..)).cons ht)

theorem sound_closeTo (h : Sound s.tokens) (column : Nat) : Sound (s.closeTo column).tokens := by
  rw [closeTo]
  split
  · exact h
  · exact (sound_closing _).append h

theorem sound_closeAll (h : Sound s.tokens) : Sound s.closeAll.tokens := by
  rw [closeAll]
  split
  · exact h
  · exact (sound_closing _).append h

theorem sound_openBlock (h : Sound s.tokens) (ht : ∀ f, t ≠ .broken f) :
    Sound (s.openBlock t).tokens := by
  rw [openBlock]
  split
  · exact h.cons ht
  · exact h

theorem tokens_of_forgetStale? (h : s.forgetStale? = some s') : s'.tokens = s.tokens := by
  simp only [forgetStale?, Option.bind_eq_bind, Option.bind_eq_some_iff] at h
  obtain ⟨_, -, _, -, h⟩ := h
  rw [← Option.some.inj h]

theorem tokens_of_forget? (h : s.forget? = some s') : s'.tokens = s.tokens := by
  rw [forget?] at h
  split at h
  · cases h
  · rw [← Option.some.inj h]

theorem tokens_of_remember? (h : s.remember? = some s') : s'.tokens = s.tokens := by
  rw [remember?] at h
  split at h
  · rw [← Option.some.inj h]
  · obtain ⟨r, hr, rfl⟩ := Option.map_eq_some_iff.1 h
    have htokens := tokens_of_forget? hr
    exact htokens

theorem sound_stopped (h : Sound s.tokens) (hf : Unreadable f) : Sound (s.stopped f) := by
  refine Sound.append (h.of_subset ?_) (sound_broken hf)
  exact fun _ ht => List.mem_reverse.1 (List.take_subset _ _ ht)

theorem sound_document? (h : Sound s.tokens) (hstep : s.document? t = some s')
    (ht : ∀ f, t ≠ .broken f) : Sound s'.tokens := by
  obtain ⟨r, hr, rfl⟩ := Option.map_eq_some_iff.1 hstep
  refine Sound.cons ?_ ht
  rw [tokens_of_forget? hr]
  exact sound_closeAll h

theorem sound_openFlow? (h : Sound s.tokens) (hstep : s.openFlow? t = some s')
    (ht : ∀ f, t ≠ .broken f) : Sound s'.tokens := by
  obtain ⟨r, hr, rfl⟩ := Option.map_eq_some_iff.1 hstep
  rw [← tokens_of_remember? hr] at h
  exact h.cons ht

theorem sound_closeFlow? (h : Sound s.tokens) (hstep : s.closeFlow? t = some s')
    (ht : ∀ f, t ≠ .broken f) : Sound s'.tokens := by
  obtain ⟨r, hr, hclose⟩ := Option.bind_eq_some_iff.1 hstep
  rw [← tokens_of_forget? hr] at h
  split at hclose
  · cases hclose
  · rw [← Option.some.inj hclose]
    exact h.cons ht

theorem sound_comma? (h : Sound s.tokens) (hstep : s.comma? = some s') : Sound s'.tokens := by
  obtain ⟨r, hr, rfl⟩ := Option.map_eq_some_iff.1 hstep
  rw [← tokens_of_forget? hr] at h
  exact h.cons nofun

theorem sound_entry? (h : Sound s.tokens) (hstep : s.entry? = some s') : Sound s'.tokens := by
  rw [ entry?] at hstep
  split at hstep
  · cases hstep
  · obtain ⟨r, hr, rfl⟩ := Option.map_eq_some_iff.1 hstep
    refine Sound.cons ?_ nofun
    rw [tokens_of_forget? hr]
    exact sound_openBlock h nofun

theorem sound_key? (h : Sound s.tokens) (hstep : s.key? = some s') : Sound s'.tokens := by
  rw [key?] at hstep
  split at hstep
  · cases hstep
  · obtain ⟨r, hr, rfl⟩ := Option.map_eq_some_iff.1 hstep
    refine Sound.cons ?_ nofun
    rw [tokens_of_forget? hr]
    exact sound_openBlock h nofun

theorem sound_value? (h : Sound s.tokens) (hstep : s.value? = some s') : Sound s'.tokens := by
  rw [value?] at hstep
  split at hstep
  · next c _ =>
    rw [← Option.some.inj hstep]
    refine Sound.cons ?_ nofun
    have hkey := sound_emitAt (s := { s with candidate := none, keyAllowed := false }) h c.position
      (t := .key) nofun
    split
    · exact sound_emitAt hkey c.position nofun
    · exact hkey
  · split at hstep
    · cases hstep
    · rw [← Option.some.inj hstep]
      refine Sound.cons (t := .value) ?_ nofun
      exact sound_openBlock (t := .openPairs) h nofun

theorem sound_block? (h : Sound s.tokens) {folded : Bool} {cs : List Char}
    (hstep : s.block? folded cs = some s') : Sound s'.tokens := by
  simp only [block?, Option.bind_eq_bind, Option.bind_eq_some_iff] at hstep
  obtain ⟨r, hr, _, -, hstep⟩ := hstep
  rw [← tokens_of_forget? hr] at h
  rw [← Option.some.inj hstep]
  exact h.cons nofun

theorem sound_plain? (h : Sound s.tokens) (hstep : s.plain? = some s') : Sound s'.tokens := by
  simp only [plain?, Option.bind_eq_bind, Option.bind_eq_some_iff] at hstep
  obtain ⟨r, hr, hstep⟩ := hstep
  rw [← tokens_of_remember? hr] at h
  rw [← Option.some.inj hstep]
  exact h.cons nofun

/-- What a choice leads to, one of its branches leads to. -/
theorem or_of_ite {α : Type} {p : Prop} [Decidable p] {o o' : Option α} {a : α}
    (h : (if p then o else o') = some a) : o = some a ∨ o' = some a := by
  split at h
  · exact .inl h
  · exact .inr h

/-- **One step keeps tokens sound**, whatever it is that begins with a character. -/
theorem sound_stepUnquoted? (h : Sound s.tokens) {c : Char} {r : List Char}
    (hstep : s.stepUnquoted? c r = some s') : Sound s'.tokens := by
  rw [stepUnquoted?] at hstep
  rcases or_of_ite hstep with hstep | hstep
  · refine sound_document? h hstep ?_
    split <;> exact nofun
  rcases or_of_ite hstep with hstep | hstep
  · exact sound_openFlow? h hstep nofun
  rcases or_of_ite hstep with hstep | hstep
  · exact sound_openFlow? h hstep nofun
  rcases or_of_ite hstep with hstep | hstep
  · exact sound_closeFlow? h hstep nofun
  rcases or_of_ite hstep with hstep | hstep
  · exact sound_closeFlow? h hstep nofun
  rcases or_of_ite hstep with hstep | hstep
  · exact sound_comma? h hstep
  rcases or_of_ite hstep with hstep | hstep
  · exact sound_entry? h hstep
  rcases or_of_ite hstep with hstep | hstep
  · exact sound_key? h hstep
  rcases or_of_ite hstep with hstep | hstep
  · exact sound_value? h hstep
  rcases or_of_ite hstep with hstep | hstep
  · exact sound_block? h hstep
  rcases or_of_ite hstep with hstep | hstep
  · exact sound_block? h hstep
  rcases or_of_ite hstep with hstep | hstep
  · exact sound_plain? h hstep
  · cases hstep

/-- What a step that may fail keeps: its tokens are sound, or it fails for a fault of texts. -/
def Keeps (o : Outcome Scan) : Prop :=
  match o with
  | .error f => Unreadable f
  | .ok s => Sound s.tokens

theorem keeps_quoted (h : Sound s.tokens) (double : Bool) (cs : List Char) :
    Keeps (s.quoted double cs) := by
  rw [quoted]
  split
  · exact Unreadable.invalid
  · next r hr =>
    rw [← tokens_of_remember? hr] at h
    cases hread : Quoted.read double cs with
    | error f => exact Quoted.unreadable_read double cs hread
    | ok found => exact h.cons nofun

/-- **One step** keeps tokens sound, or fails for a fault of texts. -/
theorem keeps_step (h : Sound s.tokens) : Keeps s.step := by
  rw [step]
  split
  · exact Unreadable.invalid
  · split
    · exact keeps_quoted h false _
    · split
      · exact keeps_quoted h true _
      · split
        · next hunquoted => exact sound_stepUnquoted? h hunquoted
        · exact Unreadable.invalid

/-- **A run keeps tokens sound**, step by step. -/
theorem sound_run (s : Scan) (h : Sound s.tokens) : Sound s.run := by
  rw [run]
  split
  · next before after hbefore hafter =>
    have hstopped : ∀ f, Unreadable f → Sound (before.stopped f) := fun f hf =>
      sound_stopped ((tokens_of_forgetStale? hbefore).symm ▸ h) hf
    have hnext : Sound (after.closeTo after.cursor.column).tokens := by
      refine sound_closeTo ?_ _
      rw [tokens_of_forgetStale? hafter]
      exact h
    dsimp only
    split
    · split
      · next last hlast =>
        split at hlast
        · cases hlast
        · refine Sound.of_subset ?_ fun _ ht => List.mem_reverse.1 ht
          rw [tokens_of_forget? hlast]
          exact sound_closeAll hnext
      · exact hstopped _ .invalid
    · have hkeeps := keeps_step hnext
      generalize (after.closeTo after.cursor.column).step = o at hkeeps ⊢
      cases o with
      | error f => exact hstopped f hkeeps
      | ok s' =>
        dsimp only
        split
        · exact sound_run s' hkeeps
        · exact hstopped _ .invalid
  · exact sound_stopped h .invalid
termination_by s.rest.length

end Scan

theorem sound_ofText (cs : List Char) : Sound (Token.ofText cs) := by
  rw [Token.ofText]
  split
  · exact sound_broken .invalid
  · split
    · exact sound_nil
    · exact Scan.sound_run _ sound_nil

end BusinessRules.Yaml
