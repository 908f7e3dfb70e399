import NormalOrder.Proofs.NamedProgram
import NormalOrder.Proofs.Preservation
import NormalOrder.Proofs.Written

/-!
# A definition is substituted for its name

The program `let x := s in t`, written with the source of `s` on the first line and that of `t` on
the second, is read as the application of `λx -> t` to `s`, and its first step puts `s` for `x`.

* The texts around the two sources do not change how these are cut into tokens, even if the first
  ends in a comment (`reads_letIn`).
* In the scope of `x`, the free variable `x` of a program becomes a bound one and nothing else
  changes, so that instantiating it is replacing the free variable (`resolve_instantiateAt`).

Together: `step_letIn`.
-/

namespace NormalOrder

open Grammar

/-! ### Replacing a free variable -/

namespace Term

/-- What becomes of a variable when `image` is put for the free variable `x`. -/
def replaceVar (x : String) (image : Term) (v : Var) (_depth : Nat) : Term :=
  match v with
  | .free name => if name = x then image else free name
  | .bound index => bound index

/-- The term with `image` put for the free variable `x`, and every other variable left alone. -/
def replaceFree (t : Term) (x : String) (image : Term) : Term := t.mapVars (replaceVar x image) 0

/-- A replacement takes the variable away and brings in all names of its image. -/
theorem mem_freeNames_mapVars_replaceVar {x y : String} {t image : Term} {depth : Nat} :
    y ∈ (t.mapVars (replaceVar x image) depth).freeNames ↔
      (y ∈ t.freeNames ∧ y ≠ x) ∨ (x ∈ t.freeNames ∧ y ∈ image.freeNames) := by
  induction t generalizing depth with
  | free name =>
    by_cases hname : name = x
    · subst hname
      simp [mapVars, replaceVar, freeNames]
    · have hne : x ≠ name := Ne.symm hname
      simp only [mapVars, replaceVar, hname, if_false, freeNames, List.mem_singleton, hne,
        false_and, or_false]
      constructor
      · rintro rfl
        exact ⟨rfl, hname⟩
      · rintro ⟨rfl, -⟩
        rfl
  | bound index => simp [mapVars, replaceVar, freeNames]
  | abs hint body ih => exact ih
  | app fn arg ihf iha =>
    simp only [mapVars, freeNames, List.mem_append, ihf, iha]
    constructor
    · rintro ((⟨h, hne⟩ | ⟨hx, h⟩) | (⟨h, hne⟩ | ⟨hx, h⟩))
      · exact .inl ⟨.inl h, hne⟩
      · exact .inr ⟨.inl hx, h⟩
      · exact .inl ⟨.inr h, hne⟩
      · exact .inr ⟨.inr hx, h⟩
    · rintro (⟨h | h, hne⟩ | ⟨hx | hx, h⟩)
      · exact .inl (.inl ⟨h, hne⟩)
      · exact .inr (.inl ⟨h, hne⟩)
      · exact .inl (.inr ⟨hx, h⟩)
      · exact .inr (.inr ⟨hx, h⟩)

end Term

/-- **Binding a name around a program and instantiating it replaces the free variable**, by an image
without loose variables, which binders cannot move. -/
theorem NamedTerm.resolve_instantiateAt (t : NamedTerm) (inner : Scope) (x : String) {image : Term}
    (himage : image.WellScoped 0) :
    (t.resolve (inner ++ [x])).instantiateAt inner.length image =
      (t.resolve inner).mapVars (Term.replaceVar x image) inner.length := by
  have hlift : ∀ amount, image.liftFrom 0 amount = image := fun amount => himage.liftFrom_eq amount
  induction t generalizing inner with
  | var y =>
    rw [resolve, resolve]
    by_cases hinner : y ∈ inner
    · -- An inner binder has the name, so it is not the one that is replaced.
      obtain ⟨index, hlt, hindex⟩ := resolve_append_of_mem hinner
      have hbound := hindex []
      rw [List.append_nil] at hbound
      rw [hindex, hbound, Term.instantiateAt_bound_of_lt _ hlt]
      rfl
    · rw [resolve_append_of_notMem hinner, resolve_of_notMem hinner]
      by_cases hy : x = y
      · subst hy
        rw [resolve_cons_self, Term.liftFrom_bound_of_le _ (Nat.zero_le _), Nat.zero_add,
          Term.instantiateAt_bound_self, hlift]
        exact (if_pos rfl).symm
      · rw [resolve_cons_of_ne hy]
        exact (if_neg (Ne.symm hy)).symm
  | lam y body ih => exact congrArg (Term.abs y) (ih (y :: inner))
  | app fn arg ihf iha =>
    rw [resolve, resolve, Term.instantiateAt_app, ihf inner, iha inner]
    rfl

/-! ### The text of a definition -/

/-- A text is cut into the tokens, up to their offsets, wherever it stands, if nothing follows. -/
def Reads (text : String) (tokens : List Token) : Prop :=
  ∀ position, ∃ placed : List Token, placed.map Token.unplaced = tokens ∧
    Scans position text.toList placed

/-- Where a text stands does not matter to how it is cut. -/
theorem Scans.exists_moved {position : Nat} {text : List Char} {tokens : List Token}
    (h : Scans position text tokens) (position' : Nat) : ∃ placed : List Token,
      placed.map Token.unplaced = tokens.map Token.unplaced ∧ Scans position' text placed := by
  induction h generalizing position' with
  | done position => exact ⟨[], rfl, .done _⟩
  | @piece position c cs piece tokens front _ ih =>
    obtain ⟨placed, hplaced, hscans⟩ := ih (position' + piece.text.length)
    refine ⟨_, ?_, .piece front hscans⟩
    have hpiece : (piece.token? position').map Token.unplaced =
        (piece.token? position).map Token.unplaced := by
      simp only [Piece.token?, Option.map_map]
      rfl
    rw [List.map_append, List.map_append, hplaced, ← Option.toList_map, ← Option.toList_map, hpiece]

namespace Reads

variable {text rest : String} {tokens tokens' : List Token}

theorem of_tokenize (h : tokenize text = .ok tokens) : Reads text (tokens.map Token.unplaced) :=
  fun position => (tokenize_eq_ok_iff.1 h).exists_moved position

theorem space (h : Reads rest tokens) : Reads (" " ++ rest) tokens := by
  intro position
  obtain ⟨placed, hplaced, hscans⟩ := h (position + 1)
  rw [String.toList_append]
  exact ⟨placed, hplaced, .whiteSpace rfl hscans⟩

theorem newline (h : Reads text tokens) (hrest : Reads rest tokens') :
    Reads (text ++ "\n" ++ rest) (tokens ++ tokens') := by
  intro position
  obtain ⟨placed, hplaced, hscans⟩ := h position
  obtain ⟨placed', hplaced', hscans'⟩ := hrest (position + text.toList.length + 1)
  refine ⟨placed ++ placed', by rw [List.map_append, hplaced, hplaced'], ?_⟩
  rw [String.toList_append, String.toList_append, List.append_assoc]
  exact hscans.newline hscans'

end Reads

theorem Written.reads {text rest : String} {tokens tokens' : List Token} (h : Written text tokens)
    (hrest : Reads rest tokens') : Reads (text ++ " " ++ rest) (tokens ++ tokens') := by
  intro position
  obtain ⟨placed, hplaced, hscans⟩ := h position
  obtain ⟨placed', hplaced', hscans'⟩ := hrest.space (position + text.length)
  refine ⟨placed ++ placed', by rw [List.map_append, hplaced, hplaced'], ?_⟩
  rw [String.toList_append] at hscans'
  rw [String.append_assoc, String.toList_append, String.toList_append]
  exact hscans _ _ (endsWord_space _) hscans'

theorem SpellsWord.written {c : Char} {run quotes : List Char} {word : String}
    (h : SpellsWord c run quotes) (hword : word.toList = c :: (run ++ quotes)) :
    Written word [⟨.ofWord word, word, 0⟩] := by
  intro position
  refine ⟨[⟨.ofWord word, word, position⟩], rfl, fun rest later hrest hlater => ?_⟩
  exact h.scans hword hrest hlater

theorem written_let : Written "let" [⟨.letWord, "let", 0⟩] := spellsWord_let.written rfl

theorem written_in : Written "in" [⟨.inWord, "in", 0⟩] := spellsWord_in.written rfl

theorem written_assign : Written ":=" [⟨.assign, ":=", 0⟩] := by
  intro position
  refine ⟨[⟨.assign, ":=", position⟩], rfl, fun rest later _ hlater => ?_⟩
  exact .cuts (.assign rest) hlater

theorem reads_letIn {x s t : String} {tokens tokens' : List Token} (hx : IsIdentifier x)
    (hs : Reads s tokens) (ht : Reads t tokens') :
    Reads ("let " ++ x ++ " := " ++ s ++ "\nin " ++ t)
      (⟨.letWord, "let", 0⟩ :: ⟨.identifier, x, 0⟩ :: ⟨.assign, ":=", 0⟩ ::
        (tokens ++ ⟨.inWord, "in", 0⟩ :: tokens')) := by
  have htext : "let " ++ x ++ " := " ++ s ++ "\nin " ++ t =
      "let" ++ " " ++ x ++ " " ++ ":=" ++ " " ++ (s ++ "\n" ++ ("in" ++ " " ++ t)) :=
    String.toList_inj.1 (by simp)
  have hhead := (written_let.space_append (.identifier hx)).space_append written_assign
  rw [htext]
  exact hhead.reads (hs.newline (written_in.reads ht))

/-! ### The program of a definition -/

/-- The derivation of a definition from those of its parts. -/
def Grammar.Derivation.define (x : String) (definition body : Derivation .term) :
    Derivation .term :=
  .ofLetIn (.letIn ⟨⟨.letWord, "let", 0⟩, rfl⟩ ⟨⟨.identifier, x, 0⟩, rfl⟩
    ⟨⟨.assign, ":=", 0⟩, rfl⟩ definition ⟨⟨.inWord, "in", 0⟩, rfl⟩ body)

theorem Grammar.NumbersFit.unplaced {tokens : List Token} (h : NumbersFit tokens) :
    NumbersFit (tokens.map Token.unplaced) := by
  intro token htoken
  obtain ⟨token, hmem, rfl⟩ := List.mem_map.1 htoken
  exact h token hmem

/-- A definition is read as the application of an abstraction to what is defined. -/
theorem parse_letIn {x s t : String} {definition body : Term} (hx : IsIdentifier x)
    (hs : parse s = .ok definition) (ht : parse t = .ok body) :
    ∃ named : NamedTerm, named.resolve [] = body ∧
      parse ("let " ++ x ++ " := " ++ s ++ "\nin " ++ t) =
        .ok (.app (.abs x (named.resolve [x])) definition) := by
  obtain ⟨tokens, htokens⟩ := exists_tokenize_of_parse hs
  obtain ⟨tokens', htokens'⟩ := exists_tokenize_of_parse ht
  obtain ⟨d, rfl, rfl, hd⟩ := exists_derivation_of_parse htokens hs
  obtain ⟨e, rfl, rfl, he⟩ := exists_derivation_of_parse htokens' ht
  obtain ⟨placed, hplaced, hscans⟩ :=
    reads_letIn hx (.of_tokenize htokens) (.of_tokenize htokens') 0
  let whole := Derivation.define x d.unplaced e.unplaced
  have hwhole : placed.map Token.unplaced = whole.tokens := by
    rw [hplaced, ← d.tokens_unplaced, ← e.tokens_unplaced]
    rfl
  have hfit : NumbersFit whole.tokens := by
    rw [← hwhole, hplaced]
    simp only [numbersFit_cons, numbersFit_append]
    exact ⟨by simp, by simp, by simp, hd.unplaced, by simp, he.unplaced⟩
  refine ⟨e.named, (e.meaning_eq_resolve []).symm, ?_⟩
  rw [parse_of_unplaced whole (tokenize_eq_ok_iff.2 hscans) hwhole hfit]
  show Except.ok (Term.app (.abs x (e.unplaced.meaning [x])) (d.unplaced.meaning [])) = _
  rw [e.meaning_unplaced, d.meaning_unplaced, e.meaning_eq_resolve [x]]
  rfl

/-- **A definition means the substitution of what it defines.**  If `s` and `t` are programs, then
so is `let x := s` with `in t` on the next line, and its first step is `t` with `s` put for the free
variable `x` and every other variable left alone.  So nothing in `s` is captured, not even `x`, and
nothing in `t` is replaced but `x` where it is free. -/
theorem step_letIn (x s t : String) (definition body : Term) (hx : IsIdentifier x)
    (hs : parse s = .ok definition) (ht : parse t = .ok body) :
    ∃ program, parse ("let " ++ x ++ " := " ++ s ++ "\nin " ++ t) = .ok program ∧
      program.step = some (body.replaceFree x definition) ∧
      ∀ y, y ∈ (body.replaceFree x definition).freeVars ↔
        (y ∈ body.freeVars ∧ y ≠ x) ∨ (x ∈ body.freeVars ∧ y ∈ definition.freeVars) := by
  obtain ⟨named, rfl, hparse⟩ := parse_letIn hx hs ht
  refine ⟨_, hparse, ?_, fun y => ?_⟩
  · rw [Term.step, Term.instantiate_eq_instantiateAt]
    exact congrArg some (named.resolve_instantiateAt [] x (wellScoped_of_parse hs))
  · simp only [Term.mem_freeVars]
    exact Term.mem_freeNames_mapVars_replaceVar

/-- The definition ends in a comment and has the defined name and one that the body binds; the body
binds the defined name, too. -/
theorem step_letIn_comment :
    let definition : Term := .app (.free "x") (.free "y")
    let body : Term := .abs "y" (.app (.free "x") (.abs "x" (.bound 0)))
    IsIdentifier "x" ∧ parse "x y -- not the y below" = .ok definition ∧
      parse "λy -> x (λx -> x)" = .ok body ∧
      ∃ program, parse "let x := x y -- not the y below\nin λy -> x (λx -> x)" = .ok program ∧
        program.step = some (.abs "y" (.app (.app (.free "x") (.free "y")) (.abs "x" (.bound 0)))) ∧
        "y" ∈ (body.replaceFree "x" definition).freeVars := by
  intro definition body
  have hs : parse "x y -- not the y below" = .ok definition := by
    simp only [definition]
    decide +kernel
  have ht : parse "λy -> x (λx -> x)" = .ok body := by
    simp only [body]
    decide +kernel
  obtain ⟨program, hparse, hstep, hfree⟩ :=
    step_letIn "x" "x y -- not the y below" "λy -> x (λx -> x)" definition body isIdentifier_x hs ht
  refine ⟨isIdentifier_x, hs, ht, program, hparse, hstep, (hfree "y").2 (.inr ?_)⟩
  simp [definition, body, Term.freeNames]

end NormalOrder
