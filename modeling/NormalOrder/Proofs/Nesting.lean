import NormalOrder.Proofs.ViablePrefix

/-!
# Levels matter only when they run out

With fewer levels, every rule of the grammar does what it does with more of them, or it gives up
because too many rules are nested in each other (`Shadows`).  This is proved rule by rule, for any
two functions that read nested terms in this way, and then by induction on the levels.

So a program that is rejected within some levels, for another reason than its nesting, is rejected
for that reason however many levels there are (`parse_eq_error_of_parseWithin`).
-/

namespace NormalOrder

namespace Grammar

/-- One rule does what another does, unless it gives up for want of levels. -/
def Shadows {α : Type} (rule rule' : Rule α) : Prop :=
  ∀ tokens, (∃ rest, rule tokens = .error ⟨.levels, rest⟩) ∨ rule tokens = rule' tokens

section

variable {α β : Type}

theorem Shadows.refl (rule : Rule α) : Shadows rule rule := fun _ => .inr rfl

theorem Shadows.bind {rule rule' : Rule α} {next next' : α → Rule β} (hrule : Shadows rule rule')
    (hnext : ∀ a, Shadows (next a) (next' a)) : Shadows (rule >>= next) (rule' >>= next') := by
  intro tokens
  rw [Rule.bind_apply, Rule.bind_apply]
  rcases hrule tokens with ⟨rest, hdeep⟩ | heq
  · rw [hdeep]
    exact .inl ⟨rest, rfl⟩
  · rw [← heq]
    cases rule tokens with
    | error failure => exact .inr rfl
    | ok found => exact hnext found.1 found.2

theorem Shadows.bind_right (rule : Rule α) {next next' : α → Rule β}
    (hnext : ∀ a, Shadows (next a) (next' a)) : Shadows (rule >>= next) (rule >>= next') :=
  (Shadows.refl rule).bind hnext

end

/-! ### The rules -/

section

variable {nested nested' : Scope → Rule Term}
  (hnested : ∀ scope, Shadows (nested scope) (nested' scope)) (scope : Scope)

include hnested

theorem shadows_bracketed : Shadows (bracketed nested scope) (bracketed nested' scope) :=
  (hnested scope).bind fun _ => .refl _

theorem shadows_atom : Shadows (atom nested scope) (atom nested' scope) := by
  intro tokens
  cases tokens with
  | nil => exact .inr rfl
  | cons token rest =>
    rw [atom, atom]
    split
    · exact .inr rfl
    · exact .inr rfl
    · exact shadows_bracketed hnested scope rest
    · exact .inr rfl

theorem shadows_arguments (budget : List Token) (fn : Term) :
    Shadows (arguments nested scope budget fn) (arguments nested' scope budget fn) := by
  induction budget generalizing fn with
  | nil => exact .refl _
  | cons _ budget ih =>
    intro tokens
    rw [arguments, arguments]
    split
    · rcases shadows_atom hnested scope tokens with ⟨rest, hdeep⟩ | heq
      · rw [hdeep]
        exact .inl ⟨rest, rfl⟩
      · rw [← heq]
        cases atom nested scope tokens with
        | error failure => exact .inr rfl
        | ok found => exact ih _ found.2
    · exact .inr rfl

theorem shadows_application : Shadows (application nested scope) (application nested' scope) :=
  (shadows_atom hnested scope).bind fun fn tokens =>
    shadows_arguments hnested scope tokens fn tokens

theorem shadows_abstraction : Shadows (abstraction nested scope) (abstraction nested' scope) :=
  .bind_right _ fun _ => .bind_right _ fun _ => .bind_right _ fun _ => .bind_right _ fun _ =>
    (hnested _).bind fun _ => .refl _

theorem shadows_letIn : Shadows (letIn nested scope) (letIn nested' scope) :=
  .bind_right _ fun _ => .bind_right _ fun _ => .bind_right _ fun _ =>
    (hnested scope).bind fun _ => .bind_right _ fun _ => (hnested _).bind fun _ => .refl _

end

/-- **A term is read with fewer levels as it is with more**, unless they run out. -/
theorem shadows_term {levels more : Nat} (h : levels ≤ more) (scope : Scope) :
    Shadows (term levels scope) (term more scope) := by
  induction levels using Nat.strongRecOn generalizing more scope with
  | ind levels ih =>
    intro tokens
    match levels, more, h, ih with
    | 0, _, _, _ => exact .inl ⟨tokens, rfl⟩
    | 1, _, _, _ => exact .inl ⟨tokens, rfl⟩
    | 2, _, _, _ => exact .inl ⟨tokens, rfl⟩
    | levels + 3, more + 3, h, ih =>
      rw [term, term]
      split
      · exact shadows_abstraction (ih (levels + 1) (by omega) (by omega)) scope tokens
      · exact shadows_letIn (ih (levels + 1) (by omega) (by omega)) scope tokens
      · exact shadows_application (ih levels (by omega) (by omega)) scope tokens

theorem shadows_program {levels more : Nat} (h : levels ≤ more) (scope : Scope) :
    Shadows (program levels scope) (program more scope) :=
  (shadows_term h scope).bind fun _ => .refl _

end Grammar

open Grammar

/-! ### Rejections -/

/-- The rejection says what is wrong with the text of the source: it comes from the scanner, or from
the grammar for another reason than the nesting. -/
def Rejection.IsSyntaxError : Rejection → Prop
  | .lexical _ => True
  | .grammatical e => e.complaint ≠ .tooDeep
  | .digits _ => False

instance (rejection : Rejection) : Decidable rejection.IsSyntaxError :=
  match rejection with
  | .lexical _ => isTrue trivial
  | .grammatical e => inferInstanceAs (Decidable (e.complaint ≠ .tooDeep))
  | .digits _ => isFalse id

/-- Some tokens are rejected with more levels as they are with fewer, but for the nesting. -/
theorem parseTokens_mono {levels more : Nat} (hle : levels ≤ more) {length : Nat}
    {tokens : List Token} {rejection : Rejection} (herror : rejection.IsSyntaxError)
    (h : parseTokens levels length tokens = .error rejection) :
    parseTokens more length tokens = .error rejection := by
  rw [parseTokens] at h ⊢
  rcases shadows_program hle [] tokens with ⟨rest, hdeep⟩ | heq
  · rw [hdeep] at h
    obtain rfl := Except.error.inj h
    exact absurd rfl herror
  · rwa [← heq]

/-- More levels than there can be rules nested in each other change nothing. -/
theorem parseTokens_of_enough {levels length : Nat} {tokens : List Token}
    (hlevels : 3 * tokens.length + 3 ≤ levels) :
    parseTokens (3 * tokens.length + 3) length tokens = parseTokens levels length tokens := by
  rw [parseTokens, parseTokens]
  rcases shadows_program hlevels [] tokens with ⟨rest, hdeep⟩ | heq
  · have hexplains := recognizes_program (3 * tokens.length + 3) [] tokens
    rw [hdeep] at hexplains
    cases hexplains with
    | @exhausted read _ htokens _ hexhausted =>
      have hlength := congrArg List.length htokens
      rw [List.length_append] at hlength
      omega
  · rw [heq]

/-- **A syntax error does not depend on the levels.**  A program that is rejected within some levels
for its text is rejected for the same reason without a bound. -/
theorem parse_eq_error_of_parseWithin {levels : Nat} {source : String} {rejection : Rejection}
    (herror : rejection.IsSyntaxError) (h : parseWithin levels source = .error rejection) :
    parse source = .error rejection := by
  rw [parseWithin] at h
  rw [parse]
  cases hfound : tokenize source with
  | error e =>
    rw [hfound] at h
    exact h
  | ok tokens =>
    rw [hfound] at h
    have hmore := parseTokens_mono (Nat.le_max_left levels (3 * tokens.length + 3)) herror h
    exact (parseTokens_of_enough (Nat.le_max_right _ _)).trans hmore

end NormalOrder
