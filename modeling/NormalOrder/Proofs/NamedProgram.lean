import NormalOrder.Proofs.NamedTerm
import NormalOrder.Proofs.Numeral
import NormalOrder.Proofs.Parsing
import NormalOrder.Proofs.Pieces
import NormalOrder.Proofs.Walk
import NormalOrder.Proofs.Hints

/-!
# Programs as named terms

A program stands for a named term before it stands for a term with indices: `Derivation.named` is
what is left of a derivation without its brackets, its definitions and its numbers, and resolving
its names gives the meaning of the derivation (`Derivation.meaning_eq_resolve`).  What is true of
every resolved term is therefore true of every program:

* every bound variable has its binder (`NamedTerm.wellScoped_resolve`), and
* the names in it are those of its source (`Derivation.forall_names`), all of which are identifiers
  (`Scans.isIdentifier`).
-/

namespace NormalOrder

open Grammar

/-! ### Resolved terms -/

theorem Grammar.resolve_of_notMem {name : String} {scope : Scope} (h : name ∉ scope) :
    resolve scope name = .free name := by
  have hresolve := resolve_append_of_notMem h []
  rwa [List.append_nil] at hresolve

namespace NamedTerm

/-- All names in a term, of variables and of binders. -/
def names : NamedTerm → List String
  | var name => [name]
  | lam name body => name :: body.names
  | app fn arg => fn.names ++ arg.names

theorem wellScoped_resolve (t : NamedTerm) (scope : Scope) :
    (t.resolve scope).WellScoped scope.length := by
  induction t generalizing scope with
  | var name =>
    rw [resolve]
    by_cases hname : name ∈ scope
    · obtain ⟨index, hlt, hindex⟩ := resolve_append_of_mem hname
      have hresolve := hindex []
      rw [List.append_nil] at hresolve
      rw [hresolve]
      exact Int.ofNat_lt.2 hlt
    · rw [resolve_of_notMem hname]
      trivial
  | lam name body ih => exact ih (name :: scope)
  | app fn arg ihf iha => exact ⟨ihf scope, iha scope⟩

theorem freeNames_resolve_subset (t : NamedTerm) (scope : Scope) :
    (t.resolve scope).freeNames ⊆ t.names := by
  induction t generalizing scope with
  | var name =>
    rw [resolve, Grammar.resolve]
    cases scope.idxOf? name with
    | some index => exact List.nil_subset _
    | none => exact List.Subset.refl _
  | lam name body ih => exact List.Subset.trans (ih (name :: scope)) (List.subset_cons_self name _)
  | app fn arg ihf iha =>
    exact List.append_subset.2 ⟨List.subset_append_of_subset_left _ (ihf scope),
      List.subset_append_of_subset_right _ (iha scope)⟩

theorem hints_resolve_subset (t : NamedTerm) (scope : Scope) :
    (t.resolve scope).hints ⊆ t.names := by
  induction t generalizing scope with
  | var name =>
    rw [resolve, Grammar.resolve]
    cases scope.idxOf? name <;> exact List.nil_subset _
  | lam name body ih => exact List.cons_subset_cons name (ih (name :: scope))
  | app fn arg ihf iha =>
    exact List.append_subset.2 ⟨List.subset_append_of_subset_left _ (ihf scope),
      List.subset_append_of_subset_right _ (iha scope)⟩

/-! ### Numbers -/

/-- The body of the numeral `n`. -/
def spine : Nat → NamedTerm
  | 0 => var "x"
  | n + 1 => app (var "f") (spine n)

/-- The Church numeral of `n`, with names. -/
def numeral (n : Nat) : NamedTerm := lam "f" (lam "x" (spine n))

theorem resolve_numeral (n : Nat) (scope : Scope) : (numeral n).resolve scope = .numeral n := by
  have hspine : (spine n).resolve ("x" :: "f" :: scope) = Term.spine (.bound 0) n := by
    induction n with
    | zero => exact resolve_cons_self _ _
    | succ n ih =>
      have hf : Grammar.resolve ("x" :: "f" :: scope) "f" = .bound 1 := by
        rw [resolve_cons_of_ne (by decide), resolve_cons_self]
        rfl
      rw [spine, resolve, resolve, ih, hf, Term.spine_succ]
  rw [numeral, resolve, resolve, hspine, Term.numeral]

theorem forall_names_numeral {P : String → Prop} (hf : P "f") (hx : P "x") (n : Nat) :
    ∀ name ∈ (numeral n).names, P name := by
  have hspine : ∀ name ∈ (spine n).names, P name := by
    induction n with
    | zero => exact List.forall_mem_singleton.2 hx
    | succ n ih => exact List.forall_mem_cons.2 ⟨hf, ih⟩
  exact List.forall_mem_cons.2 ⟨hf, List.forall_mem_cons.2 ⟨hx, hspine⟩⟩

end NamedTerm

/-! ### Derivations -/

namespace Grammar

/-- What a phrase stands for, with names: arguments for several terms, everything else for one. -/
def Phrase.Named : Phrase → Type
  | .arguments => List NamedTerm
  | _ => NamedTerm

/-- What a derivation stands for, with names. -/
def Derivation.named : {phrase : Phrase} → Derivation phrase → phrase.Named
  | _, ofAbstraction d => d.named
  | _, ofLetIn d => d.named
  | _, ofApplication d => d.named
  | _, abstraction _ name names _ body =>
    List.foldr NamedTerm.lam body.named (name.lexeme :: names.map Leaf.lexeme)
  | _, letIn _ name _ definition _ body =>
    NamedTerm.app (.lam name.lexeme body.named) definition.named
  | _, application fn args => List.foldl NamedTerm.app fn.named args.named
  | _, noArguments => ([] : List NamedTerm)
  | _, argument arg further => (arg.named :: further.named : List NamedTerm)
  | _, identifier leaf => NamedTerm.var leaf.lexeme
  | _, natural leaf => NamedTerm.numeral (decimalValue leaf.lexeme)
  | _, bracketed _ inner _ => inner.named

/-- Resolves the names in what a phrase stands for. -/
def Phrase.resolve (scope : Scope) : (phrase : Phrase) → phrase.Named → phrase.Meaning
  | .arguments, args => List.map (NamedTerm.resolve scope) args
  | .term, t => NamedTerm.resolve scope t
  | .abstraction, t => NamedTerm.resolve scope t
  | .letIn, t => NamedTerm.resolve scope t
  | .application, t => NamedTerm.resolve scope t
  | .atom, t => NamedTerm.resolve scope t

/-- All names in what a phrase stands for. -/
def Phrase.names : (phrase : Phrase) → phrase.Named → List String
  | .arguments, args => List.flatMap NamedTerm.names args
  | .term, t => NamedTerm.names t
  | .abstraction, t => NamedTerm.names t
  | .letIn, t => NamedTerm.names t
  | .application, t => NamedTerm.names t
  | .atom, t => NamedTerm.names t

theorem resolve_foldr_lam (names : List String) (body : NamedTerm) (scope : Scope) :
    (List.foldr NamedTerm.lam body names).resolve scope =
      abstractOver (fun scope => body.resolve scope) names scope := by
  induction names generalizing scope with
  | nil => rfl
  | cons name names ih =>
    rw [List.foldr_cons, NamedTerm.resolve, ih, abstractOver]

theorem resolve_foldl_app (fn : NamedTerm) (args : List NamedTerm) (scope : Scope) :
    (List.foldl NamedTerm.app fn args).resolve scope =
      List.foldl Term.app (fn.resolve scope) (args.map (NamedTerm.resolve scope)) := by
  induction args generalizing fn with
  | nil => rfl
  | cons arg args ih =>
    rw [List.foldl_cons, ih, List.map_cons, List.foldl_cons, NamedTerm.resolve]

/-- **A program means what its named term is resolved to.** -/
theorem Derivation.meaning_eq_resolve {phrase : Phrase} (d : Derivation phrase) (scope : Scope) :
    d.meaning scope = phrase.resolve scope d.named := by
  induction d generalizing scope with
  | ofAbstraction d ih => exact ih scope
  | ofLetIn d ih => exact ih scope
  | ofApplication d ih => exact ih scope
  | abstraction head name names arrow body ih =>
    have hbody : body.meaning = fun scope => NamedTerm.resolve scope body.named := funext ih
    rw [meaning, hbody]
    exact (resolve_foldr_lam _ _ scope).symm
  | letIn word name sign definition inWord body ihd ihb =>
    rw [meaning, ihd scope, ihb (name.lexeme :: scope)]
    rfl
  | application fn args ihf iha =>
    rw [meaning, ihf scope, iha scope]
    exact (resolve_foldl_app _ _ scope).symm
  | noArguments => rfl
  | argument arg further iha ihf =>
    rw [meaning, iha scope, ihf scope]
    rfl
  | identifier leaf => exact (resolve_eq_variableOf scope leaf.lexeme).symm
  | natural leaf => exact (NamedTerm.resolve_numeral _ scope).symm
  | bracketed opening inner closing ih => exact ih scope

theorem forall_names_foldr_lam {P : String → Prop} {names : List String} {body : NamedTerm}
    (hnames : ∀ name ∈ names, P name) (hbody : ∀ name ∈ body.names, P name) :
    ∀ name ∈ (List.foldr NamedTerm.lam body names).names, P name := by
  induction names with
  | nil => exact hbody
  | cons name names ih =>
    obtain ⟨hname, hnames⟩ := List.forall_mem_cons.1 hnames
    exact List.forall_mem_cons.2 ⟨hname, ih hnames⟩

theorem forall_names_foldl_app {P : String → Prop} {fn : NamedTerm} {args : List NamedTerm}
    (hfn : ∀ name ∈ fn.names, P name) (hargs : ∀ name ∈ args.flatMap NamedTerm.names, P name) :
    ∀ name ∈ (List.foldl NamedTerm.app fn args).names, P name := by
  induction args generalizing fn with
  | nil => exact hfn
  | cons arg args ih =>
    rw [List.flatMap_cons] at hargs
    obtain ⟨harg, hargs⟩ := List.forall_mem_append.1 hargs
    exact ih (List.forall_mem_append.2 ⟨hfn, harg⟩) hargs

/-- The names in a program are identifiers of its source, or those of numerals. -/
theorem Derivation.forall_names {P : String → Prop} (hf : P "f") (hx : P "x") {phrase : Phrase}
    (d : Derivation phrase) (h : ∀ token ∈ d.tokens, token.kind = .identifier → P token.lexeme) :
    ∀ name ∈ phrase.names d.named, P name := by
  induction d with
  | ofAbstraction d ih => exact ih h
  | ofLetIn d ih => exact ih h
  | ofApplication d ih => exact ih h
  | abstraction head name names arrow body ih =>
    simp only [tokens, List.forall_mem_cons, List.forall_mem_append] at h
    obtain ⟨-, hname, hnames, -, hbody⟩ := h
    refine forall_names_foldr_lam (List.forall_mem_cons.2 ⟨hname name.property, ?_⟩) (ih hbody)
    intro lexeme hlexeme
    obtain ⟨leaf, hmem, rfl⟩ := List.mem_map.1 hlexeme
    exact hnames leaf.val (List.mem_map_of_mem hmem) leaf.property
  | letIn word name sign definition inWord body ihd ihb =>
    simp only [tokens, List.forall_mem_cons, List.forall_mem_append] at h
    obtain ⟨-, hname, -, hdefinition, -, hbody⟩ := h
    exact List.forall_mem_append.2
      ⟨List.forall_mem_cons.2 ⟨hname name.property, ihb hbody⟩, ihd hdefinition⟩
  | application fn args ihf iha =>
    obtain ⟨hfn, hargs⟩ := List.forall_mem_append.1 h
    exact forall_names_foldl_app (ihf hfn) (iha hargs)
  | noArguments => exact List.forall_mem_nil _
  | argument arg further iha ihf =>
    obtain ⟨harg, hfurther⟩ := List.forall_mem_append.1 h
    exact List.forall_mem_append.2 ⟨iha harg, ihf hfurther⟩
  | identifier leaf =>
    exact List.forall_mem_singleton.2 (h leaf.val List.mem_cons_self leaf.property)
  | natural leaf => exact NamedTerm.forall_names_numeral hf hx _
  | bracketed opening inner closing ih =>
    obtain ⟨-, h⟩ := List.forall_mem_cons.1 h
    exact ih (List.forall_mem_append.1 h).1

end Grammar

/-! ### Sources -/

theorem Cuts.isIdentifier {kind : PieceKind} {text rest : List Char} (h : Cuts kind text rest)
    (hkind : kind.tokenKind? (String.ofList text) = some .identifier) :
    IsIdentifier (String.ofList text) := by
  cases h with
  | word hspells =>
    refine isIdentifier_iff_spells.2 ⟨⟨_, _, _, hspells, ?_⟩, Option.some.inj hkind⟩
    rw [String.toList_ofList]
  | _ => cases hkind

theorem Scans.isIdentifier {position : Nat} {text : List Char} {tokens : List Token}
    (h : Scans position text tokens) :
    ∀ token ∈ tokens, token.kind = .identifier → IsIdentifier token.lexeme := by
  induction h with
  | done position => simp
  | @piece position c cs piece tokens front later ih =>
    refine List.forall_mem_append.2 ⟨fun token htoken hkind => ?_, ih⟩
    obtain ⟨kind, hpiece, rfl⟩ := Option.map_eq_some_iff.1 (Option.mem_toList.1 htoken)
    rw [show kind = .identifier from hkind] at hpiece
    exact (cuts_of_munch front).isIdentifier hpiece

theorem exists_tokenize_of_parse {source : String} {t : Term} (h : parse source = .ok t) :
    ∃ tokens, tokenize source = .ok tokens := by
  rw [parse] at h
  split at h
  · cases h
  · rename_i tokens htokens
    exact ⟨tokens, htokens⟩

/-- **Every program is a named term whose names are identifiers.** -/
theorem exists_named_of_parse {source : String} {t : Term} (h : parse source = .ok t) :
    ∃ named : NamedTerm, named.resolve [] = t ∧ ∀ name ∈ named.names, IsIdentifier name := by
  obtain ⟨tokens, htokens⟩ := exists_tokenize_of_parse h
  obtain ⟨d, rfl, rfl, -⟩ := exists_derivation_of_parse htokens h
  have hnames := (tokenize_eq_ok_iff.1 htokens).isIdentifier
  exact ⟨d.named, (d.meaning_eq_resolve []).symm,
    d.forall_names isIdentifier_f isIdentifier_x hnames⟩

theorem wellScoped_of_parse {source : String} {t : Term} (h : parse source = .ok t) :
    t.WellScoped 0 := by
  obtain ⟨named, rfl, -⟩ := exists_named_of_parse h
  exact named.wellScoped_resolve []

end NormalOrder
