import Mathlib.Data.Nat.Digits.Lemmas
import NormalOrder.Bounded.Refusal
import NormalOrder.Proofs.Numeral
import NormalOrder.Proofs.Parsing
import NormalOrder.Proofs.RunDepth
import NormalOrder.Proofs.Tiling
import NormalOrder.Proofs.Walk

/-!
# The numerals in a run can be written as numbers

A number can be read if it does not have too many digits, so a numeral can be printed as a number
and read again only if it is not too large.  All numerals that a run comes across are small enough.

* In a program, a numeral is a number of the source, or an abstraction of its own, with one pair of
  brackets in the source for each application in its body (`Derivation.shallow`).
* Later in the run, a numeral is one from the program, or no deeper than a step may descend
  (`oldOrShallow_of_evaluateWithin`).

So `numeralsBelow_of_run`.
-/

namespace NormalOrder

open Grammar

namespace Term

/-! ### Numerals in a term -/

theorem eq_abs_of_numeral? {t : Term} {n : Nat} (h : t.numeral? = some n) :
    ∃ hint hint', t = abs hint (abs hint' (spine (bound 0) n)) := by
  unfold numeral? at h
  split at h
  · rename_i hint hint' body
    obtain ⟨k, hn, rfl⟩ := spineLength?_eq_some_iff.1 h
    rw [Nat.zero_add] at hn
    subst hn
    exact ⟨hint, hint', rfl⟩
  · cases h

theorem depth_spine (n : Nat) : (spine (bound 0) n).depth = n + 1 := by
  induction n with
  | zero => rfl
  | succ n ih =>
    rw [spine_succ, depth, ih, depth]
    omega

theorem step_spine (n : Nat) : (spine (bound 0) n).step = none := by
  induction n with
  | zero => rfl
  | succ n ih =>
    rw [spine_succ, step_app (by simp), ih]
    rfl

theorem spine_ne_abs (n : Nat) {hint : String} {body : Term} :
    spine (bound 0) n ≠ abs hint body := by
  cases n with
  | zero => simp [spine]
  | succ n => simp [spine_succ]

theorem numeral?_of_mem_spine {n : Nat} :
    ∀ s ∈ (spine (bound 0) n).preorder, s.numeral? = none := by
  induction n with
  | zero => exact List.forall_mem_singleton.2 rfl
  | succ n ih =>
    rw [spine_succ]
    exact List.forall_mem_cons.2 ⟨rfl, List.forall_mem_cons.2 ⟨rfl, ih⟩⟩

theorem lt_depth_of_mem_subterms {s t : Term} {n : Nat} (hs : s ∈ t.subterms)
    (hn : s.Alike (numeral n)) : n < t.depth := by
  rw [subterms_eq_preorder] at hs
  have hle := depth_le_of_mem_preorder hs
  obtain ⟨hint, hint', rfl⟩ := eq_abs_of_numeral? (numeral?_eq_some_iff.2 hn)
  rw [depth, depth, depth_spine] at hle
  omega

theorem numerals_lt_of_depth_le {t : Term} (h : t.depth ≤ Text.Integer.maxDigits) :
    ∀ s ∈ t.subterms, ∀ n, s.Alike (numeral n) → n < 10 ^ Text.Integer.maxDigits := by
  intro s hs n hn
  calc
    n < t.depth := lt_depth_of_mem_subterms hs hn
    _ ≤ Text.Integer.maxDigits := h
    _ < 10 ^ Text.Integer.maxDigits := Nat.lt_pow_self (by decide)

/-- The number of last arguments that are nested in each other. -/
def chain : Term → Nat
  | app _ arg => arg.chain + 1
  | _ => 0

theorem chain_spine (n : Nat) : (spine (bound 0) n).chain = n := by
  induction n with
  | zero => rfl
  | succ n ih => rw [spine_succ, chain, ih]

/-- All numerals in a term are below a limit. -/
def NumeralsBelow (limit : Nat) (t : Term) : Prop :=
  ∀ s ∈ t.preorder, ∀ n, s.numeral? = some n → n < limit

/-- The numerals in a term are below a limit, and neither the term nor, if it is an abstraction, its
body has a chain that is longer than `size`. -/
structure Shallow (limit size : Nat) (t : Term) : Prop where
  /-- The chain of the term. -/
  chain : t.chain ≤ size
  /-- The chain of its body. -/
  body : ∀ hint body, t = abs hint body → body.chain ≤ size
  /-- Its numerals. -/
  numerals : t.NumeralsBelow limit

namespace Shallow

variable {limit size : Nat} {fn arg body : Term}

theorem mono {size' : Nat} {t : Term} (h : Shallow limit size t) (hle : size ≤ size') :
    Shallow limit size' t where
  chain := Nat.le_trans h.chain hle
  body := fun hint body ht => Nat.le_trans (h.body hint body ht) hle
  numerals := h.numerals

theorem variableOf (scope : Scope) (name : String) :
    Shallow limit size (variableOf scope name) := by
  unfold Grammar.variableOf
  split
  · exact ⟨Nat.zero_le _, by simp, List.forall_mem_singleton.2 (by simp [numeral?])⟩
  · exact ⟨Nat.zero_le _, by simp, List.forall_mem_singleton.2 (by simp [numeral?])⟩

theorem app (hfn : fn.NumeralsBelow limit) (harg : Shallow limit size arg) :
    Shallow limit (size + 1) (.app fn arg) := by
  refine ⟨Nat.succ_le_succ harg.chain, by simp, ?_⟩
  refine List.forall_mem_cons.2 ⟨?_, List.forall_mem_append.2 ⟨hfn, harg.numerals⟩⟩
  simp [numeral?]

/-- If an abstraction is a numeral, the body of its body is a chain. -/
theorem abs (hint : String) (hbody : Shallow limit size body) (hsize : size < limit) :
    Shallow limit size (.abs hint body) := by
  refine ⟨Nat.zero_le _, ?_, List.forall_mem_cons.2 ⟨fun n hn => ?_, hbody.numerals⟩⟩
  · rintro _ _ ⟨⟩
    exact hbody.chain
  · obtain ⟨hint', hint'', heq⟩ := eq_abs_of_numeral? hn
    have hle := hbody.body hint'' _ (Term.abs.inj heq).2
    rw [chain_spine] at hle
    omega

theorem numeral {n : Nat} (hn : n < limit) : Shallow limit size (.numeral n) := by
  refine ⟨Nat.zero_le _, ?_, ?_⟩
  · rintro _ _ ⟨⟩
    exact Nat.zero_le _
  · refine List.forall_mem_cons.2 ⟨fun k hk => ?_, List.forall_mem_cons.2 ⟨fun k hk => ?_, ?_⟩⟩
    · obtain ⟨hint, hint', heq⟩ := eq_abs_of_numeral? hk
      have hchain := congrArg Term.chain (Term.abs.inj (Term.abs.inj heq).2).2
      rw [chain_spine, chain_spine] at hchain
      omega
    · obtain ⟨hint, hint', heq⟩ := eq_abs_of_numeral? hk
      exact absurd (Term.abs.inj heq).2 (spine_ne_abs n)
    · intro s hs k hk
      rw [numeral?_of_mem_spine s hs] at hk
      cases hk

end Shallow

end Term

open Term

/-! ### Numerals in a program -/

namespace Grammar

/-- Something is true of all terms that a phrase stands for. -/
def Phrase.All (P : Term → Prop) : (phrase : Phrase) → phrase.Meaning → Prop
  | .arguments => fun args : List Term => ∀ t ∈ args, P t
  | .term => P
  | .abstraction => P
  | .letIn => P
  | .application => P
  | .atom => P

/-- The longest chain of a phrase, apart from those in its brackets: an application has one, an atom
has none. -/
def Phrase.slack : Phrase → Nat
  | .arguments => 0
  | .atom => 0
  | _ => 1

theorem shallow_abstractOver {limit size : Nat} {body : Scope → Term} (hsize : size < limit)
    (hbody : ∀ scope, Shallow limit size (body scope)) (names : List String) (scope : Scope) :
    Shallow limit size (abstractOver body names scope) := by
  induction names generalizing scope with
  | nil => exact hbody scope
  | cons name names ih => exact (ih (name :: scope)).abs name hsize

theorem shallow_foldl_app {limit size : Nat} {fn : Term} {args : List Term}
    (hfn : Shallow limit (size + 1) fn) (hargs : ∀ arg ∈ args, Shallow limit size arg) :
    Shallow limit (size + 1) (List.foldl Term.app fn args) := by
  induction args generalizing fn with
  | nil => exact hfn
  | cons arg args ih =>
    obtain ⟨harg, hargs⟩ := List.forall_mem_cons.1 hargs
    exact ih (harg.app hfn.numerals) hargs

/-- **The numerals of a program are its numbers, or no longer than its brackets are nested.** -/
theorem Derivation.shallow {limit : Nat} {phrase : Phrase} (d : Derivation phrase)
    (hnumbers : ∀ token ∈ d.tokens, token.kind = .natural → decimalValue token.lexeme < limit)
    (hnesting : d.nesting < limit) (scope : Scope) :
    phrase.All (Shallow limit (d.nesting + phrase.slack)) (d.meaning scope) := by
  -- Every pair of brackets adds one to the nesting, so an argument in brackets can be the end of a
  -- longer chain than one without.
  induction d generalizing scope with
  | ofAbstraction d ih => exact ih hnumbers hnesting scope
  | ofLetIn d ih => exact ih hnumbers hnesting scope
  | ofApplication d ih => exact ih hnumbers hnesting scope
  | abstraction head name names arrow body ih =>
    simp only [tokens, List.forall_mem_cons, List.forall_mem_append] at hnumbers
    obtain ⟨-, -, -, -, hbody⟩ := hnumbers
    rw [nesting] at hnesting
    have hshallow := ih hbody (Nat.lt_of_succ_lt hnesting)
    exact (shallow_abstractOver hnesting hshallow _ scope).mono (Nat.le_succ _)
  | letIn word name sign definition inWord body ihd ihb =>
    simp only [tokens, List.forall_mem_cons, List.forall_mem_append] at hnumbers
    obtain ⟨-, -, -, hdefinition, -, hbody⟩ := hnumbers
    rw [nesting] at hnesting
    have hd := ihd hdefinition (by omega) scope
    have hb := ihb hbody (by omega) (name.lexeme :: scope)
    have hlt : body.nesting + 1 < limit := by omega
    have hle := Nat.le_max_left definition.nesting body.nesting
    have habs := hb.abs name.lexeme hlt
    exact (hd.app habs.numerals).mono (Nat.succ_le_succ (Nat.succ_le_succ hle))
  | application fn args ihf iha =>
    obtain ⟨hfn, hargs⟩ := List.forall_mem_append.1 hnumbers
    rw [nesting] at hnesting
    have hf := ihf hfn (by omega) scope
    have ha := iha hargs (by omega) scope
    refine shallow_foldl_app (hf.mono ?_) fun arg harg => (ha arg harg).mono (Nat.le_max_right _ _)
    exact Nat.le_succ_of_le (Nat.le_max_left _ _)
  | noArguments => exact fun t ht => absurd ht List.not_mem_nil
  | argument arg further iha ihf =>
    obtain ⟨harg, hfurther⟩ := List.forall_mem_append.1 hnumbers
    rw [nesting] at hnesting
    have ha := iha harg (by omega) scope
    have hf := ihf hfurther (by omega) scope
    exact List.forall_mem_cons.2 ⟨ha.mono (Nat.le_max_left _ _),
      fun t ht => (hf t ht).mono (Nat.le_max_right _ _)⟩
  | identifier leaf => exact .variableOf scope leaf.lexeme
  | natural leaf => exact .numeral (hnumbers leaf.val List.mem_cons_self leaf.property)
  | bracketed opening inner closing ih =>
    simp only [tokens, List.forall_mem_cons, List.forall_mem_append] at hnumbers
    rw [nesting] at hnesting
    exact ih hnumbers.2.1 (Nat.lt_of_succ_lt hnesting) scope

theorem decimalValue_lt {lexeme : String} (h : ∀ c ∈ lexeme.toList, c.isDigit = true) :
    decimalValue lexeme < 10 ^ lexeme.length := by
  have hlt : ∀ digit ∈ lexeme.toList.reverse.map fun c => c.toNat - '0'.toNat, digit < 10 := by
    intro digit hdigit
    obtain ⟨c, hc, rfl⟩ := List.mem_map.1 hdigit
    obtain ⟨-, hle⟩ := Char.isDigit_iff_toNat.1 (h c (List.mem_reverse.1 hc))
    have hnine : '9'.toNat = 57 := rfl
    have hzero : '0'.toNat = 48 := rfl
    omega
  have hvalue := Nat.ofDigits_lt_base_pow_length (by decide) hlt
  rwa [List.length_map, List.length_reverse, String.length_toList] at hvalue

end Grammar

/-- The numbers of a source can be read, so they are below the first number that cannot. -/
theorem Scans.decimalValue_lt {source : List Char} {tokens : List Token}
    (h : Scans 0 source tokens) (hfit : NumbersFit tokens) : ∀ token ∈ tokens,
      token.kind = .natural → decimalValue token.lexeme < 10 ^ Text.Integer.maxDigits := by
  intro token htoken hkind
  have hend : token.kind ≠ .endOfInput := by
    rw [hkind]
    decide
  have hspells := (h.tiling.longest token (List.mem_append_left _ htoken) hend).spells
  rw [hkind] at hspells
  exact Nat.lt_of_lt_of_le (Grammar.decimalValue_lt hspells.2)
    (Nat.pow_le_pow_right (by decide) (hfit token htoken hkind))

theorem numeralsBelow_of_parseWithin {levels : Nat} {source : String} {t : Term}
    (h : parseWithin levels source = .ok t) (hlevels : levels < 10 ^ Text.Integer.maxDigits) :
    t.NumeralsBelow (10 ^ Text.Integer.maxDigits) := by
  obtain ⟨d, htokens, rfl, hd⟩ := exists_derivation_of_parseWithin h
  have hnumbers := (tokenize_eq_ok_iff.1 htokens).decimalValue_lt hd.numbers
  exact (d.shallow hnumbers (Nat.lt_of_le_of_lt hd.nesting hlevels) []).numerals

/-! ### Numerals in a run -/

/-- A numeral that is old is as large as it was, and one that is shallow is small. -/
theorem OldOrShallow.numeralsBelow {first u : Term} {levels limit : Nat}
    (h : OldOrShallow first levels u) (hfirst : first.NumeralsBelow limit)
    (hlevels : levels < limit) : u.NumeralsBelow limit := by
  intro s hs n hn
  obtain ⟨hint, hint', rfl⟩ := eq_abs_of_numeral? hn
  have hnormal : (Term.abs hint (.abs hint' (spine (.bound 0) n))).step = none := by
    rw [Term.step, Term.step, step_spine]
    rfl
  rcases h hint _ hs hnormal with hold | hle
  · exact hfirst _ hold n hn
  · rw [depth, depth, depth_spine] at hle
    omega

/-- **All numerals in a run of a program can be written as numbers and read again**, if the levels
of the run are fewer than a number with too many digits. -/
theorem numeralsBelow_of_run {levels limit : Nat} {source : String} {t : Term} {trace : Trace}
    (hparse : parseWithin levels source = .ok t) (h : evaluateWithin levels limit t = .ok trace)
    (hlevels : levels < 10 ^ Text.Integer.maxDigits) :
    ∀ u ∈ (evaluate limit t).steps, u.NumeralsBelow (10 ^ Text.Integer.maxDigits) := by
  intro u hu
  have hu := oldOrShallow_of_evaluateWithin h u hu
  exact hu.numeralsBelow (numeralsBelow_of_parseWithin hparse hlevels) hlevels

theorem levels_lt_pow_maxDigits : Limits.levels < 10 ^ Text.Integer.maxDigits :=
  Nat.lt_of_lt_of_le (by decide : Limits.levels < 10 ^ 4)
    (Nat.pow_le_pow_right (by decide) (by decide))

end NormalOrder
