import NormalOrder.Bounded.Printer
import NormalOrder.Proofs.FreshName
import NormalOrder.Proofs.Numeral
import NormalOrder.Proofs.Walk
import NormalOrder.Proofs.Written

/-!
# The derivation behind a printed term

Printing a term writes down a derivation of the grammar.  `Printer.derivation` is that derivation:
it is built like the text, but puts brackets just where the grammar asks for them, around a term
that has to be an atom and is none (`Derivation.toAtom`) and around a function that is no
application (`Derivation.toApplication`), and lets a header take up the header of its body
(`Derivation.under`).  It is an atom, an abstraction or an application where the printer says so
(`Printer.derivation_cases`).

What the derivation means is the term, up to hints (`Printer.derivation_meaning`), if the names of
the binders around it are pairwise different and none of its free variables (`Printer.Legible`).
The names that the printer chooses for binders are like this (`Printer.Legible.cons`).
-/

namespace NormalOrder

namespace Grammar

/-! ### Building derivations -/

/-- The leaf with a given text, at offset zero. -/
def Leaf.spelled {kind : TokenKind} (lexeme : String) : Leaf kind := ⟨⟨kind, lexeme, 0⟩, rfl⟩

namespace Derivation

/-- The term that is an atom. -/
def ofAtom (atom : Derivation .atom) : Derivation .term :=
  .ofApplication (.application atom .noArguments)

/-- The term in brackets. -/
def inBrackets (d : Derivation .term) : Derivation .atom :=
  .bracketed (.spelled "(") d (.spelled ")")

/-- The term as an atom, in brackets unless it is one. -/
def toAtom : Derivation .term → Derivation .atom
  | .ofApplication (.application atom .noArguments) => atom
  | .ofApplication (.application fn (.argument arg further)) =>
    inBrackets (.ofApplication (.application fn (.argument arg further)))
  | .ofAbstraction d => inBrackets (.ofAbstraction d)
  | .ofLetIn d => inBrackets (.ofLetIn d)

/-- The term as a function with its arguments, in brackets unless it is one. -/
def toApplication : Derivation .term → Derivation .application
  | .ofApplication d => d
  | .ofAbstraction d => .application (inBrackets (.ofAbstraction d)) .noArguments
  | .ofLetIn d => .application (inBrackets (.ofLetIn d)) .noArguments

/-- The arguments with one more at their end. -/
def snoc : Derivation .arguments → Derivation .atom → Derivation .arguments
  | .noArguments, last => .argument last .noArguments
  | .argument arg further, last => .argument arg (further.snoc last)

/-- The application with one more argument. -/
def applyTo : Derivation .application → Derivation .atom → Derivation .application
  | .application fn args, last => .application fn (args.snoc last)

/-- The abstraction of a term over a name; it takes up the header of a term that has one. -/
def under (name : String) : Derivation .term → Derivation .term
  | .ofAbstraction (.abstraction _ first names arrow body) =>
    .ofAbstraction (.abstraction (.spelled "λ") (.spelled name) (first :: names) arrow body)
  | .ofLetIn d =>
    .ofAbstraction (.abstraction (.spelled "λ") (.spelled name) [] (.spelled "->")
      (.ofLetIn d))
  | .ofApplication d =>
    .ofAbstraction (.abstraction (.spelled "λ") (.spelled name) [] (.spelled "->")
      (.ofApplication d))

/-- The tokens with which a term goes on after a header that takes it up. -/
def afterHeader : Derivation .term → List Token
  | .ofAbstraction (.abstraction _ first names arrow body) =>
    first.val :: (names.map Subtype.val ++ arrow.val :: body.tokens)
  | .ofLetIn d => ⟨.arrow, "->", 0⟩ :: d.tokens
  | .ofApplication d => ⟨.arrow, "->", 0⟩ :: d.tokens

/-! ### Where brackets stand -/

theorem toAtom_under (name : String) (d : Derivation .term) :
    (d.under name).toAtom = (d.under name).inBrackets := by
  fun_cases under name d <;> rfl

theorem toApplication_under (name : String) (d : Derivation .term) :
    (d.under name).toApplication = .application (d.under name).inBrackets .noArguments := by
  fun_cases under name d <;> rfl

theorem toAtom_applyTo (d : Derivation .application) (last : Derivation .atom) :
    (ofApplication (d.applyTo last)).toAtom = inBrackets (.ofApplication (d.applyTo last)) := by
  cases d with
  | application fn args =>
    -- There is a last argument, so there is a first one.
    cases args with
    | noArguments => simp [applyTo, snoc, toAtom]
    | argument arg further => simp [applyTo, snoc, toAtom]

/-! ### Their tokens -/

theorem tokens_noArguments (fn : Derivation .atom) :
    (application fn .noArguments).tokens = fn.tokens := by
  rw [tokens, tokens, List.append_nil]

theorem tokens_ofAtom (atom : Derivation .atom) : (ofAtom atom).tokens = atom.tokens :=
  tokens_noArguments atom

theorem tokens_inBrackets (d : Derivation .term) :
    d.inBrackets.tokens = ⟨.openBracket, "(", 0⟩ :: (d.tokens ++ [⟨.closeBracket, ")", 0⟩]) := rfl

theorem tokens_snoc (args : Derivation .arguments) (last : Derivation .atom) :
    (args.snoc last).tokens = args.tokens ++ last.tokens := by
  fun_induction snoc args last with
  | case1 last => simp [tokens]
  | case2 arg further last ih => simp [tokens, ih]

theorem tokens_applyTo (d : Derivation .application) (last : Derivation .atom) :
    (d.applyTo last).tokens = d.tokens ++ last.tokens := by
  cases d with
  | application fn args => simp [applyTo, tokens, tokens_snoc]

theorem tokens_under (name : String) (d : Derivation .term) :
    (d.under name).tokens = ⟨.lambda, "λ", 0⟩ :: ⟨.identifier, name, 0⟩ :: d.afterHeader := by
  fun_cases under name d with
  | case1 head first names arrow body => simp [tokens, afterHeader, Leaf.spelled]
  | case2 d => rfl
  | case3 d => rfl

theorem afterHeader_under (name : String) (d : Derivation .term) :
    (d.under name).afterHeader = ⟨.identifier, name, 0⟩ :: d.afterHeader := by
  fun_cases under name d with
  | case1 head first names arrow body => simp [afterHeader, Leaf.spelled]
  | case2 d => rfl
  | case3 d => rfl

/-! ### What they mean -/

theorem meaning_toAtom (d : Derivation .term) (scope : Scope) :
    d.toAtom.meaning scope = d.meaning scope := by
  fun_cases toAtom d <;> rfl

theorem meaning_toApplication (d : Derivation .term) (scope : Scope) :
    d.toApplication.meaning scope = d.meaning scope := by
  cases d <;> rfl

theorem foldl_meaning_snoc (args : Derivation .arguments) (last : Derivation .atom)
    (scope : Scope) (fn : Term) :
    List.foldl Term.app fn ((args.snoc last).meaning scope) =
      .app (List.foldl Term.app fn (args.meaning scope)) (last.meaning scope) := by
  fun_induction snoc args last generalizing fn with
  | case1 last => rfl
  | case2 arg further last ih => exact ih (.app fn (arg.meaning scope))

theorem meaning_applyTo (d : Derivation .application) (last : Derivation .atom) (scope : Scope) :
    (d.applyTo last).meaning scope = Term.app (d.meaning scope) (last.meaning scope) := by
  cases d with
  | application fn args => exact foldl_meaning_snoc args last scope (fn.meaning scope)

theorem meaning_under (name : String) (d : Derivation .term) (scope : Scope) :
    (d.under name).meaning scope = Term.abs name (d.meaning (name :: scope)) := by
  fun_cases under name d <;> rfl

end Derivation

/-! ### The numbers in them -/

theorem numbersFit_singleton {kind : TokenKind} (hkind : kind ≠ .natural) (lexeme : String) :
    NumbersFit [⟨kind, lexeme, 0⟩] := by
  simp [NumbersFit, hkind]

namespace NumbersFit

variable {d : Derivation .term}

theorem inBrackets (h : NumbersFit d.tokens) : NumbersFit d.inBrackets.tokens := by
  rw [Derivation.tokens_inBrackets, numbersFit_cons, numbersFit_append]
  exact ⟨by simp, h, numbersFit_singleton (by decide) _⟩

theorem toAtom (h : NumbersFit d.tokens) : NumbersFit d.toAtom.tokens := by
  fun_cases Derivation.toAtom d with
  | case1 atom => rwa [← Derivation.tokens_ofAtom]
  | case2 fn arg further => exact h.inBrackets
  | case3 d => exact h.inBrackets
  | case4 d => exact h.inBrackets

theorem toApplication (h : NumbersFit d.tokens) : NumbersFit d.toApplication.tokens := by
  cases d with
  | ofApplication d => exact h
  | ofAbstraction d =>
    rw [Derivation.toApplication, Derivation.tokens_noArguments]
    exact h.inBrackets
  | ofLetIn d =>
    rw [Derivation.toApplication, Derivation.tokens_noArguments]
    exact h.inBrackets

theorem afterHeader (h : NumbersFit d.tokens) : NumbersFit d.afterHeader := by
  fun_cases Derivation.afterHeader d with
  | case1 head first names arrow body => exact (numbersFit_cons.1 h).2
  | case2 d => exact numbersFit_cons.2 ⟨by simp, h⟩
  | case3 d => exact numbersFit_cons.2 ⟨by simp, h⟩

end NumbersFit

/-! ### Names and numbers that are read back -/

theorem distance?_of_notMem {name : String} {scope : Scope} (h : name ∉ scope) :
    distance? name scope = none := by
  induction scope with
  | nil => rfl
  | cons binder scope ih =>
    rw [List.mem_cons, not_or] at h
    rw [distance?, if_neg (Ne.symm h.1), ih h.2]
    rfl

theorem variableOf_of_notMem {name : String} {scope : Scope} (h : name ∉ scope) :
    variableOf scope name = .free name := by
  rw [variableOf, distance?_of_notMem h]

theorem distance?_getD {scope : Scope} (hnodup : scope.Nodup) {index : Nat}
    (h : index < scope.length) : distance? (scope.getD index "") scope = some index := by
  induction scope generalizing index with
  | nil => cases h
  | cons binder scope ih =>
    obtain ⟨hnot, hnodup⟩ := List.nodup_cons.1 hnodup
    cases index with
    | zero => simp [distance?]
    | succ index =>
      have hlt : index < scope.length := Nat.lt_of_succ_lt_succ h
      have hmem : scope.getD index "" ∈ scope := by simp [List.getD_eq_getElem?_getD, hlt]
      have hne : binder ≠ scope.getD index "" := fun heq => hnot (heq ▸ hmem)
      rw [List.getD_cons_succ, distance?, if_neg hne, ih hnodup hlt]
      rfl

/-- If no two binders have the same name, the name of each stands for it. -/
theorem variableOf_getD {scope : Scope} (hnodup : scope.Nodup) {index : Nat}
    (h : index < scope.length) : variableOf scope (scope.getD index "") = .bound index := by
  rw [variableOf, distance?_getD hnodup h]

theorem decimalValue_toString (n : Nat) : decimalValue (toString n) = n := by
  rw [decimalValue, ← ofDigitChars_eq_ofDigits, Nat.toString_eq_ofList_toDigits,
    String.toList_ofList, Nat.ofDigitChars_ten_toDigits]

end Grammar

open Grammar

namespace Printer

/-! ### The derivation of a term -/

/-- The derivation that is written for a term below binders called `names`, the innermost first. -/
def derivation (numerals : Bool) (free : List String) :
    Bool → List String → Term → Derivation .term
  | _, _, .free name => .ofAtom (.identifier (.spelled name))
  | _, names, .bound index => .ofAtom (.identifier (.spelled (names.getD index "")))
  | inHeader, names, .abs hint body =>
    match asNumber? (numerals && !inHeader) (.abs hint body) with
    | some n => .ofAtom (.natural (.spelled (toString n)))
    | none =>
      let name := binderName free names hint
      (derivation numerals free true (name :: names) body).under name
  | _, names, .app fn arg =>
    .ofApplication ((derivation numerals free false names fn).toApplication.applyTo
      (derivation numerals free false names arg).toAtom)

section Shape

variable {numerals : Bool} {free names : List String} {hint : String} {t body : Term}

theorem derivation_abs_of_none (h : asNumber? numerals (.abs hint body) = none) :
    derivation numerals free false names (.abs hint body) =
      (derivation numerals free true (binderName free names hint :: names) body).under
        (binderName free names hint) := by
  simp [derivation, h]

theorem derivation_abs_of_some {n : Nat} (h : asNumber? numerals (.abs hint body) = some n) :
    derivation numerals free false names (.abs hint body) =
      .ofAtom (.natural (.spelled (toString n))) := by
  simp [derivation, h]

theorem derivation_abs_header :
    derivation numerals free true names (.abs hint body) =
      (derivation numerals free true (binderName free names hint :: names) body).under
        (binderName free names hint) := by
  simp [derivation, asNumber?]

/-- What a term is printed as: an atom, an abstraction, or an application. -/
theorem derivation_cases (numerals : Bool) (free names : List String) (t : Term) :
    (isApplication t = false ∧ isAbstraction numerals t = false ∧
      ∃ atom, derivation numerals free false names t = .ofAtom atom) ∨
    (isApplication t = false ∧ isAbstraction numerals t = true ∧
      ∃ name d, derivation numerals free false names t = .under name d) ∨
    (isApplication t = true ∧ isAbstraction numerals t = false ∧
      ∃ d last, derivation numerals free false names t = .ofApplication (.applyTo d last)) := by
  cases t with
  | free name => exact .inl ⟨rfl, rfl, _, rfl⟩
  | bound index => exact .inl ⟨rfl, rfl, _, rfl⟩
  | abs hint body =>
    cases hn : asNumber? numerals (.abs hint body) with
    | some n => exact .inl ⟨rfl, by simp [isAbstraction, hn], _, derivation_abs_of_some hn⟩
    | none => exact .inr (.inl ⟨rfl, by simp [isAbstraction, hn], _, _, derivation_abs_of_none hn⟩)
  | app fn arg => exact .inr (.inr ⟨rfl, rfl, _, _, rfl⟩)

theorem afterHeader_derivation_of_ne (ht : ∀ hint body, t ≠ .abs hint body) :
    (derivation numerals free true names t).afterHeader =
      ⟨.arrow, "->", 0⟩ :: (derivation numerals free false names t).tokens := by
  cases t with
  | free name => rfl
  | bound index => rfl
  | abs hint body => exact absurd rfl (ht hint body)
  | app fn arg => rfl

end Shape

/-! ### What can be printed -/

/-- The names of the binders around a term can be told from each other and from the free variables,
and can be read. -/
structure Legible (free names : List String) : Prop where
  /-- No two binders have the same name. -/
  nodup : names.Nodup
  /-- No binder is called like a free variable. -/
  notFree : ∀ name ∈ names, name ∉ free
  /-- Every name is one that can be read. -/
  identifiers : ∀ name ∈ names, IsIdentifier name

/-- The term can be printed below `depth` binders: its bound variables have binders, its names can
be read, and its numerals are not too long if they are written as numbers. -/
structure Printable (numerals : Bool) (free : List String) (depth : Nat) (t : Term) : Prop where
  /-- Every bound variable has its binder. -/
  wellScoped : t.WellScoped depth
  /-- The free variables are among `free`, and their names can be read. -/
  freeNames : ∀ name ∈ t.freeNames, name ∈ free ∧ IsIdentifier name
  /-- The hints can be read. -/
  hints : ∀ hint ∈ t.hints, IsIdentifier hint
  /-- The numerals are short enough to be read. -/
  numerals : numerals = true → ∀ s ∈ t.preorder, ∀ n, s.Alike (.numeral n) →
    n < 10 ^ Text.Integer.maxDigits

namespace Printable

variable {numerals : Bool} {free : List String} {depth : Nat} {hint : String} {t u : Term}

theorem body (h : Printable numerals free depth (.abs hint t)) :
    Printable numerals free (depth + 1) t where
  wellScoped := by
    rw [Int.natCast_succ]
    exact h.wellScoped
  freeNames := h.freeNames
  hints := fun inner hinner => h.hints inner (List.mem_cons_of_mem _ hinner)
  numerals := fun hn s hs => h.numerals hn s (List.mem_cons_of_mem _ hs)

theorem fn (h : Printable numerals free depth (.app t u)) : Printable numerals free depth t where
  wellScoped := h.wellScoped.1
  freeNames := fun name hname => h.freeNames name (List.mem_append_left _ hname)
  hints := fun hint hhint => h.hints hint (List.mem_append_left _ hhint)
  numerals := fun hn s hs => h.numerals hn s (List.mem_cons_of_mem _ (List.mem_append_left _ hs))

theorem arg (h : Printable numerals free depth (.app t u)) :
    Printable numerals free depth u where
  wellScoped := h.wellScoped.2
  freeNames := fun name hname => h.freeNames name (List.mem_append_right _ hname)
  hints := fun hint hhint => h.hints hint (List.mem_append_right _ hhint)
  numerals := fun hn s hs => h.numerals hn s (List.mem_cons_of_mem _ (List.mem_append_right _ hs))

end Printable

theorem binderName_notMem (free names : List String) (hint : String) :
    binderName free names hint ∉ free ++ names := by
  rw [binderName]
  split
  · exact freshName_notMem hint (free ++ names)
  · rename_i hclash
    rwa [List.mem_append]

theorem Legible.cons {free names : List String} (h : Legible free names) {hint : String}
    (hhint : IsIdentifier hint) : Legible free (binderName free names hint :: names) := by
  have hfresh := binderName_notMem free names hint
  rw [List.mem_append, not_or] at hfresh
  refine ⟨List.nodup_cons.2 ⟨hfresh.2, h.nodup⟩, List.forall_mem_cons.2 ⟨hfresh.1, h.notFree⟩,
    List.forall_mem_cons.2 ⟨?_, h.identifiers⟩⟩
  rw [binderName]
  split
  · exact isIdentifier_freshName hhint _
  · exact hhint

theorem legible_nil (free : List String) : Legible free [] := ⟨List.nodup_nil, by simp, by simp⟩

/-- What a term has to satisfy to be printed by itself, said by its walks. -/
theorem printable_of_isWellFormed {numerals : Bool} {t : Term} (hwf : t.isWellFormed 0 = true)
    (hfree : ∀ name ∈ t.freeVars, IsIdentifier name) (hhints : ∀ hint ∈ t.hints, IsIdentifier hint)
    (hnumerals : numerals = true → ∀ s ∈ t.subterms, ∀ n, s.Alike (.numeral n) →
      n < 10 ^ Text.Integer.maxDigits) : Printable numerals t.freeVars 0 t where
  wellScoped := (t.isWellFormed_iff 0).1 hwf
  freeNames := fun name hname =>
    ⟨Term.mem_freeVars.2 hname, hfree name (Term.mem_freeVars.2 hname)⟩
  hints := hhints
  numerals := t.subterms_eq_preorder ▸ hnumerals

/-- The walks of a term find it in order if it is well scoped and uses no names but some
identifiers. -/
theorem isWellFormed_and_identifiers {t : Term} {names : List String} (hscope : t.WellScoped 0)
    (hsubset : t.freeNames ++ t.hints ⊆ names) (hnames : ∀ name ∈ names, IsIdentifier name) :
    t.isWellFormed 0 = true ∧ (∀ name ∈ t.freeVars, IsIdentifier name) ∧
      ∀ hint ∈ t.hints, IsIdentifier hint := by
  refine ⟨(t.isWellFormed_iff 0).2 hscope, fun name hname => ?_, fun hint hhint => ?_⟩
  · exact hnames name (hsubset (List.mem_append_left _ (Term.mem_freeVars.1 hname)))
  · exact hnames hint (hsubset (List.mem_append_right _ hhint))

/-! ### What is printed means the term -/

theorem asNumber?_eq_some {numerals : Bool} {t : Term} {n : Nat}
    (h : asNumber? numerals t = some n) : numerals = true ∧ t.Alike (.numeral n) := by
  cases numerals with
  | false => cases h
  | true => exact ⟨rfl, Term.numeral?_eq_some_iff.1 h⟩

/-- A printed term means the term it was printed from. -/
theorem derivation_meaning {numerals : Bool} {free names : List String} {t : Term}
    (hnames : Legible free names) (ht : Printable numerals free names.length t) (inHeader : Bool) :
    Term.Alike ((derivation numerals free inHeader names t).meaning names) t := by
  induction t generalizing inHeader names with
  | free name =>
    -- No binder has the name of a free variable, so the name is not taken for one of theirs.
    have hfree := (ht.freeNames name List.mem_cons_self).1
    have hnot : name ∉ names := fun hmem => hnames.notFree name hmem hfree
    show Term.Alike (variableOf names name) _
    rw [variableOf_of_notMem hnot]
  | bound index =>
    -- The binder is found again because no other one has its name.
    have hlt : index < names.length := Int.ofNat_lt.1 ht.wellScoped
    show Term.Alike (variableOf names (names.getD index "")) _
    rw [variableOf_getD hnames.nodup hlt]
  | abs hint body ih =>
    rw [derivation]
    split
    · rename_i n hn
      show Term.Alike (.numeral (decimalValue (toString n))) _
      rw [decimalValue_toString]
      exact (asNumber?_eq_some hn).2.symm
    · rw [Derivation.meaning_under]
      exact .abs _ _ (ih (hnames.cons (ht.hints hint List.mem_cons_self)) ht.body true)
  | app fn arg ihf iha =>
    rw [derivation, Derivation.meaning, Derivation.meaning_applyTo,
      Derivation.meaning_toApplication, Derivation.meaning_toAtom]
    exact .app (ihf hnames ht.fn false) (iha hnames ht.arg false)

/-! ### The numbers that are printed -/

theorem length_toString_le {n : Nat} (h : n < 10 ^ Text.Integer.maxDigits) :
    (toString n).length ≤ Text.Integer.maxDigits := by
  rw [Nat.toString_eq_ofList_toDigits, String.length_ofList]
  exact (Nat.length_toDigits_le_iff (by decide) (by decide)).2 h

theorem derivation_numbersFit {numerals : Bool} {free : List String} {t : Term} {depth : Nat}
    (ht : Printable numerals free depth t) (inHeader : Bool) (names : List String) :
    NumbersFit (derivation numerals free inHeader names t).tokens := by
  induction t generalizing inHeader names depth with
  | free name => exact numbersFit_singleton (by decide) _
  | bound index => exact numbersFit_singleton (by decide) _
  | abs hint body ih =>
    rw [derivation]
    split
    · rename_i n hn
      obtain ⟨hnumerals, halike⟩ := asNumber?_eq_some hn
      have hlt := ht.numerals (Bool.and_elim_left hnumerals) _ List.mem_cons_self n halike
      intro token htoken hkind
      obtain rfl := List.mem_singleton.1 htoken
      exact length_toString_le hlt
    · rw [Derivation.tokens_under, numbersFit_cons, numbersFit_cons]
      exact ⟨by simp, by simp, (ih ht.body true _).afterHeader⟩
  | app fn arg ihf iha =>
    rw [derivation, Derivation.tokens, Derivation.tokens_applyTo, numbersFit_append]
    exact ⟨(ihf ht.fn false names).toApplication, (iha ht.arg false names).toAtom⟩

end Printer

end NormalOrder
