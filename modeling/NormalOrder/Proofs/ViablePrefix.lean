import Mathlib.Computability.Language
import NormalOrder.Proofs.Parsing
import NormalOrder.Proofs.Tiling
import NormalOrder.Report.Diagnostic

/-!
# Errors stand at the first token that cannot go on

The phrases of the grammar are languages over tokens, and each rule of the grammar says how to put
them together from smaller ones: an application is an atom and arguments, an abstraction a `λ`, a
name, further names, an arrow and a term (`language_application`, `language_abstraction`, …).

`Recognizes levels L F rule` says what a rule does on any tokens, given a language `L` and a
condition `F` on the token after a word.

* It reads a word of `L` after which `F` holds, and the numbers in the word are not too long.
* Or it refuses the next token.  Then what it has read begins a word of `L` (`Viable`), but no word
  goes on with that token (`Stuck`).
* Or it gives up, on a number that is too long or because it is nested too deeply; in the latter case
  it has read a token for every three of its `levels`.

One rule after another recognizes the product of their languages (`Recognizes.bind`), as long as it
is clear where words of the first end (`Cancels`).  So what is known of single tokens carries over to
every rule, and by induction on the levels to whole terms (`recognizes_term`).

For a program this is the viable-prefix property: `parse_refuses_first_dead_token`.
-/

namespace NormalOrder

instance : Inhabited Token := ⟨.atEnd 0⟩

namespace Grammar

open Computability

/-! ### The next token -/

/-- The kind of the first of some tokens. -/
def front (tokens : List Token) : Option TokenKind := tokens.head?.map Token.kind

@[simp] theorem front_nil : front [] = none := rfl

@[simp] theorem front_cons (token : Token) (tokens : List Token) :
    front (token :: tokens) = some token.kind := rfl

theorem front_eq_none_iff {tokens : List Token} : front tokens = none ↔ tokens = [] := by
  cases tokens <;> simp

/-- A condition on the token after a word, or on there being none. -/
abbrev Follow := Option TokenKind → Prop

/-- Anything may follow. -/
def anything : Follow := fun _ => True

/-- No name follows. -/
def noName : Follow := fun next => next ≠ some .identifier

/-- No argument follows. -/
def noAtom : Follow := fun next => ∀ kind ∈ next, kind.startsAtom = false

/-- Nothing follows. -/
def nothing : Follow := fun next => next = none

theorem noAtom_front {tokens : List Token} : noAtom (front tokens) ↔ atAtom tokens = false := by
  cases tokens <;> simp [noAtom, atAtom]

/-- What follows some tokens matters only through its first one. -/
theorem front_append {read rest rest' : List Token} (h : front rest = front rest') :
    front (read ++ rest) = front (read ++ rest') := by
  cases read with
  | nil => exact h
  | cons token read => rfl

/-! ### Languages -/

/-- The single tokens of a kind. -/
def kindLanguage (kind : TokenKind) : Language Token :=
  {tokens | ∃ leaf : Leaf kind, [leaf.val] = tokens}

/-- The tokens of a phrase. -/
def Phrase.language (phrase : Phrase) : Language Token :=
  {tokens | ∃ d : Derivation phrase, d.tokens = tokens}

theorem Leaf.mem {kind : TokenKind} (leaf : Leaf kind) : [leaf.val] ∈ kindLanguage kind :=
  ⟨leaf, rfl⟩

theorem Derivation.mem {phrase : Phrase} (d : Derivation phrase) : d.tokens ∈ phrase.language :=
  ⟨d, rfl⟩

theorem mem_language_iff {phrase : Phrase} {tokens : List Token} :
    tokens ∈ phrase.language ↔ Derivable phrase (tokens.map Token.kind) := by
  constructor
  · rintro ⟨d, rfl⟩
    exact ⟨d, rfl⟩
  · rintro ⟨d, hkinds⟩
    exact d.exists_tokens_eq hkinds.symm

theorem mem_kstar_kindLanguage {kind : TokenKind} {tokens : List Token} :
    tokens ∈ (kindLanguage kind)∗ ↔
      ∃ leaves : List (Leaf kind), leaves.map Subtype.val = tokens := by
  rw [Language.mem_kstar]
  constructor
  · rintro ⟨words, rfl, hwords⟩
    induction words with
    | nil => exact ⟨[], rfl⟩
    | cons word words ih =>
      obtain ⟨⟨leaf, rfl⟩, hlater⟩ := List.forall_mem_cons.1 hwords
      obtain ⟨leaves, hleaves⟩ := ih hlater
      exact ⟨leaf :: leaves, congrArg (leaf.val :: ·) hleaves⟩
  · rintro ⟨leaves, rfl⟩
    refine ⟨leaves.map fun leaf => [leaf.val], ?_, ?_⟩
    · induction leaves with
      | nil => rfl
      | cons leaf leaves ih => exact congrArg (leaf.val :: ·) ih
    · intro word hword
      obtain ⟨leaf, -, rfl⟩ := List.mem_map.1 hword
      exact leaf.mem

/-! ### The rules of the grammar as equations -/

theorem language_application :
    Phrase.language .application = Phrase.language .atom * Phrase.language .arguments := by
  ext tokens
  rw [Language.mem_mul]
  constructor
  · rintro ⟨d, rfl⟩
    cases d with
    | application fn args => exact ⟨_, fn.mem, _, args.mem, rfl⟩
  · rintro ⟨_, ⟨fn, rfl⟩, _, ⟨args, rfl⟩, rfl⟩
    exact (Derivation.application fn args).mem

theorem language_abstraction :
    Phrase.language .abstraction = kindLanguage .lambda * (kindLanguage .identifier *
      ((kindLanguage .identifier)∗ * (kindLanguage .arrow * Phrase.language .term))) := by
  ext tokens
  simp only [Language.mem_mul, mem_kstar_kindLanguage]
  constructor
  · rintro ⟨d, rfl⟩
    cases d with
    | abstraction head name names arrow body =>
      exact ⟨_, head.mem, _, ⟨_, name.mem, _, ⟨_, ⟨names, rfl⟩, _,
        ⟨_, arrow.mem, _, body.mem, rfl⟩, rfl⟩, rfl⟩, rfl⟩
  · rintro ⟨_, ⟨head, rfl⟩, _, ⟨_, ⟨name, rfl⟩, _, ⟨_, ⟨names, rfl⟩, _, ⟨_, ⟨arrow, rfl⟩, _,
      ⟨body, rfl⟩, rfl⟩, rfl⟩, rfl⟩, rfl⟩
    exact (Derivation.abstraction head name names arrow body).mem

theorem language_letIn :
    Phrase.language .letIn = kindLanguage .letWord * (kindLanguage .identifier *
      (kindLanguage .assign * (Phrase.language .term *
        (kindLanguage .inWord * Phrase.language .term)))) := by
  ext tokens
  simp only [Language.mem_mul]
  constructor
  · rintro ⟨d, rfl⟩
    cases d with
    | letIn word name sign definition inWord body =>
      exact ⟨_, word.mem, _, ⟨_, name.mem, _, ⟨_, sign.mem, _, ⟨_, definition.mem, _,
        ⟨_, inWord.mem, _, body.mem, rfl⟩, rfl⟩, rfl⟩, rfl⟩, rfl⟩
  · rintro ⟨_, ⟨word, rfl⟩, _, ⟨_, ⟨name, rfl⟩, _, ⟨_, ⟨sign, rfl⟩, _, ⟨_, ⟨definition, rfl⟩, _,
      ⟨_, ⟨inWord, rfl⟩, _, ⟨body, rfl⟩, rfl⟩, rfl⟩, rfl⟩, rfl⟩, rfl⟩
    exact (Derivation.letIn word name sign definition inWord body).mem

theorem language_atom :
    Phrase.language .atom = kindLanguage .identifier + kindLanguage .natural +
      kindLanguage .openBracket * (Phrase.language .term * kindLanguage .closeBracket) := by
  ext tokens
  simp only [Language.mem_add, Language.mem_mul]
  constructor
  · rintro ⟨d, rfl⟩
    cases d with
    | identifier leaf => exact .inl (.inl leaf.mem)
    | natural leaf => exact .inl (.inr leaf.mem)
    | bracketed opening inner closing =>
      exact .inr ⟨_, opening.mem, _, ⟨_, inner.mem, _, closing.mem, rfl⟩, rfl⟩
  · rintro ((⟨leaf, rfl⟩ | ⟨leaf, rfl⟩) | ⟨_, ⟨opening, rfl⟩, _, ⟨_, ⟨inner, rfl⟩, _, ⟨closing, rfl⟩,
      rfl⟩, rfl⟩)
    · exact (Derivation.identifier leaf).mem
    · exact (Derivation.natural leaf).mem
    · exact (Derivation.bracketed opening inner closing).mem

theorem language_arguments :
    Phrase.language .arguments = 1 + Phrase.language .atom * Phrase.language .arguments := by
  ext tokens
  rw [Language.mem_add, Language.mem_mul, Language.mem_one]
  constructor
  · rintro ⟨d, rfl⟩
    cases d with
    | noArguments => exact .inl rfl
    | argument arg further => exact .inr ⟨_, arg.mem, _, further.mem, rfl⟩
  · rintro (rfl | ⟨_, ⟨arg, rfl⟩, _, ⟨further, rfl⟩, rfl⟩)
    · exact Derivation.noArguments.mem
    · exact (Derivation.argument arg further).mem

theorem language_term :
    Phrase.language .term =
      Phrase.language .abstraction + Phrase.language .letIn + Phrase.language .application := by
  ext tokens
  simp only [Language.mem_add]
  constructor
  · rintro ⟨d, rfl⟩
    cases d with
    | ofAbstraction d => exact .inl (.inl d.mem)
    | ofLetIn d => exact .inl (.inr d.mem)
    | ofApplication d => exact .inr d.mem
  · rintro ((⟨d, rfl⟩ | ⟨d, rfl⟩) | ⟨d, rfl⟩)
    · exact (Derivation.ofAbstraction d).mem
    · exact (Derivation.ofLetIn d).mem
    · exact (Derivation.ofApplication d).mem

/-! ### Where words end -/

/-- What follows a word tells the word apart. -/
def Cancels (L : Language Token) (F : Follow) : Prop :=
  ∀ ⦃word word' : List Token⦄, word ∈ L → word' ∈ L → ∀ ⦃rest rest' : List Token⦄,
    F (front rest) → F (front rest') → word ++ rest = word' ++ rest' → word = word' ∧ rest = rest'

theorem cancels_kindLanguage (kind : TokenKind) : Cancels (kindLanguage kind) anything := by
  rintro _ _ ⟨leaf, rfl⟩ ⟨leaf', rfl⟩ rest rest' - - h
  obtain ⟨hleaf, hrest⟩ := List.cons.inj h
  exact ⟨congrArg (fun token => [token]) hleaf, hrest⟩

theorem cancels_names : Cancels (kindLanguage .identifier)∗ noName := by
  intro word word' hword hword' rest rest' hrest hrest' h
  obtain ⟨leaves, rfl⟩ := mem_kstar_kindLanguage.1 hword
  obtain ⟨leaves', rfl⟩ := mem_kstar_kindLanguage.1 hword'
  clear hword hword'
  induction leaves generalizing leaves' with
  | nil =>
    cases leaves' with
    | nil => exact ⟨rfl, h⟩
    | cons leaf' leaves' =>
      rw [show rest = _ from h] at hrest
      exact absurd (congrArg some leaf'.property) hrest
  | cons leaf leaves ih =>
    cases leaves' with
    | nil =>
      rw [show rest' = _ from h.symm] at hrest'
      exact absurd (congrArg some leaf.property) hrest'
    | cons leaf' leaves' =>
      obtain ⟨hleaf, hlater⟩ := List.cons.inj h
      obtain ⟨hwords, hrests⟩ := ih leaves' hlater
      exact ⟨congrArg₂ List.cons hleaf hwords, hrests⟩

theorem cancels_atom : Cancels (Phrase.language .atom) anything := by
  rintro _ _ ⟨d, rfl⟩ ⟨e, rfl⟩ rest rest' - - h
  obtain ⟨rfl, hrest⟩ := tokens_append_cancel d e trivial trivial h
  exact ⟨rfl, hrest⟩

theorem cancels_term : Cancels (Phrase.language .term) noAtom := by
  rintro _ _ ⟨d, rfl⟩ ⟨e, rfl⟩ rest rest' hrest hrest' h
  obtain ⟨rfl, heq⟩ := tokens_append_cancel d e (noAtom_front.1 hrest) (noAtom_front.1 hrest') h
  exact ⟨rfl, heq⟩

/-! ### Viable and stuck -/

/-- Some tokens begin a word. -/
def Viable (L : Language Token) (read : List Token) : Prop := ∃ later, read ++ later ∈ L

/-- No word that ends where it may goes on after `read` with a token of the kind `next`, or ends
with `read` if that is no token. -/
def Stuck (L : Language Token) (F : Follow) (read : List Token) (next : Option TokenKind) : Prop :=
  ∀ ⦃word : List Token⦄, word ∈ L → ∀ ⦃rest later : List Token⦄, F (front rest) →
    front later = next → word ++ rest ≠ read ++ later

section

variable {L M : Language Token} {F G : Follow} {read word : List Token} {next : Option TokenKind}

theorem Viable.mul_right (h : Viable L read) (hword : word ∈ M) : Viable (L * M) read := by
  obtain ⟨later, hlater⟩ := h
  refine ⟨later ++ word, ?_⟩
  rw [← List.append_assoc]
  exact Language.append_mem_mul hlater hword

theorem Viable.mul_left (hword : word ∈ L) (h : Viable M read) : Viable (L * M) (word ++ read) := by
  obtain ⟨later, hlater⟩ := h
  refine ⟨later, ?_⟩
  rw [List.append_assoc]
  exact Language.append_mem_mul hword hlater

theorem Stuck.mul_right (h : Stuck L F read next)
    (hfollow : ∀ word ∈ M, ∀ rest, G (front rest) → F (front (word ++ rest))) :
    Stuck (L * M) G read next := by
  intro whole hwhole rest later hrest hlater heq
  obtain ⟨first, hfirst, second, hsecond, rfl⟩ := Language.mem_mul.1 hwhole
  rw [List.append_assoc] at heq
  exact h hfirst (hfollow second hsecond rest hrest) hlater heq

theorem Stuck.mul_left (hcancel : Cancels L F)
    (hfollow : ∀ word ∈ M, ∀ rest, G (front rest) → F (front (word ++ rest))) (hword : word ∈ L)
    {rest : List Token} (hrest : F (front (read ++ rest))) (h : Stuck M G read (front rest)) :
    Stuck (L * M) G (word ++ read) (front rest) := by
  intro whole hwhole rest' later hrest' hlater heq
  obtain ⟨first, hfirst, second, hsecond, rfl⟩ := Language.mem_mul.1 hwhole
  rw [List.append_assoc, List.append_assoc] at heq
  have hend : F (front (read ++ later)) := by
    rw [front_append hlater]
    exact hrest
  obtain ⟨-, hsplit⟩ := hcancel hfirst hword (hfollow second hsecond rest' hrest') hend heq
  exact h hsecond hrest' hlater hsplit

end

/-! ### What a rule does -/

/-- What comes of a rule on some tokens, for the language `L`, the condition `F` on the next token
and the number of levels that the rule has. -/
inductive Explains {α : Type} (levels : Nat) (L : Language Token) (F : Follow)
    (tokens : List Token) : Except Failure (α × List Token) → Prop where
  /-- A word is read. -/
  | read {a : α} {word rest : List Token} (htokens : tokens = word ++ rest) (hword : word ∈ L)
      (hrest : F (front rest)) (hfit : NumbersFit word) : Explains levels L F tokens (.ok (a, rest))
  /-- The next token is refused, since no word goes on with it. -/
  | refused {what : Complaint} {read rest : List Token} (htokens : tokens = read ++ rest)
      (hviable : Viable L read) (hstuck : Stuck L F read (front rest)) (hfit : NumbersFit read) :
      Explains levels L F tokens (.error ⟨.complaint what, rest⟩)
  /-- The levels are used up, by a third of their number of tokens at least. -/
  | exhausted {read rest : List Token} (htokens : tokens = read ++ rest) (hviable : Viable L read)
      (hlevels : levels ≤ 3 * read.length + 2) : Explains levels L F tokens (.error ⟨.levels, rest⟩)
  /-- A number is too long. -/
  | overlong {number : Token} {read rest : List Token} (htokens : tokens = read ++ number :: rest)
      (hviable : Viable L (read ++ [number])) (hfit : NumbersFit read)
      (hkind : number.kind = .natural) (hlong : Text.Integer.maxDigits < number.lexeme.length) :
      Explains levels L F tokens (.error ⟨.digits number.lexeme.length, rest⟩)

/-- The rule reads the words of `L` after which `F` holds, and otherwise says why it does not. -/
def Recognizes {α : Type} (levels : Nat) (L : Language Token) (F : Follow) (rule : Rule α) : Prop :=
  ∀ tokens, Explains levels L F tokens (rule tokens)

section

variable {α β : Type} {levels : Nat} {L M : Language Token} {F G : Follow}

theorem Explains.mono {tokens : List Token} {outcome : Except Failure (α × List Token)}
    (h : Explains levels L F tokens outcome) {fewer : Nat} (hle : fewer ≤ levels) :
    Explains fewer L F tokens outcome := by
  cases h with
  | read htokens hword hrest hfit => exact .read htokens hword hrest hfit
  | refused htokens hviable hstuck hfit => exact .refused htokens hviable hstuck hfit
  | exhausted htokens hviable hlevels => exact .exhausted htokens hviable (hle.trans hlevels)
  | overlong htokens hviable hfit hkind hlong => exact .overlong htokens hviable hfit hkind hlong

theorem Recognizes.mono {rule : Rule α} (h : Recognizes levels L F rule) {fewer : Nat}
    (hle : fewer ≤ levels) : Recognizes fewer L F rule :=
  fun tokens => (h tokens).mono hle

/-- An alternative explains what is done on its first tokens. -/
theorem Explains.widen {tokens : List Token} {outcome : Except Failure (α × List Token)}
    (h : Explains levels L F tokens outcome) (hsub : ∀ word ∈ L, word ∈ M)
    (hfirst : ∀ word ∈ M, ∀ rest, F (front rest) → front (word ++ rest) = front tokens → word ∈ L) :
    Explains levels M F tokens outcome := by
  have hviable : ∀ {read : List Token}, Viable L read → Viable M read :=
    fun ⟨later, hlater⟩ => ⟨later, hsub _ hlater⟩
  cases h with
  | read htokens hword hrest hfit => exact .read htokens (hsub _ hword) hrest hfit
  | @refused what read rest htokens hbegins hstuck hfit =>
    refine .refused htokens (hviable hbegins) ?_ hfit
    intro word hword rest' later hrest' hlater heq
    have hfront : front (word ++ rest') = front tokens := by
      rw [heq, htokens, front_append hlater]
    exact hstuck (hfirst word hword rest' hrest' hfront) hrest' hlater heq
  | exhausted htokens hbegins hlevels => exact .exhausted htokens (hviable hbegins) hlevels
  | overlong htokens hbegins hfit hkind hlong =>
    exact .overlong htokens (hviable hbegins) hfit hkind hlong

/-- A rule that fails has read what comes before the tokens it leaves. -/
theorem Explains.exists_append {tokens rest : List Token} {reason : Reason}
    (h : Explains levels L F tokens (.error ⟨reason, rest⟩ : Except Failure (α × List Token))) :
    ∃ read, tokens = read ++ rest := by
  cases h with
  | refused htokens => exact ⟨_, htokens⟩
  | exhausted htokens => exact ⟨_, htokens⟩
  | @overlong number read _ htokens =>
    refine ⟨read ++ [number], ?_⟩
    rw [htokens, List.append_assoc, List.singleton_append]

theorem Recognizes.exists_mem {rule : Rule α} (h : Recognizes levels L F rule) :
    ∃ word, word ∈ L := by
  have houtcome := h []
  generalize rule [] = outcome at houtcome
  cases houtcome with
  | read _ hword => exact ⟨_, hword⟩
  | refused _ hviable => exact ⟨_, hviable.choose_spec⟩
  | exhausted _ hviable => exact ⟨_, hviable.choose_spec⟩
  | overlong _ hviable => exact ⟨_, hviable.choose_spec⟩

/-- **One rule after another is explained by the product of their languages.**  The second rule may
have three levels less for every token that the first reads. -/
theorem Explains.bind {more : Nat} {rule : Rule α} {next : α → Rule β} {tokens : List Token}
    (hrule : Explains more L F tokens (rule tokens))
    (hnext : ∀ a mid, rule tokens = .ok (a, mid) → Explains levels M G mid (next a mid))
    (hcancel : Cancels L F)
    (hfollow : ∀ word ∈ M, ∀ rest, G (front rest) → F (front (word ++ rest)))
    (hmore : ∀ word ∈ L, more ≤ levels + 3 * word.length) (hsample : ∃ word, word ∈ M) :
    Explains more (L * M) G tokens ((rule >>= next) tokens) := by
  obtain ⟨sample, hsample⟩ := hsample
  rw [Rule.bind_apply]
  generalize rule tokens = outcome at hrule hnext ⊢
  cases hrule with
  | refused htokens hviable hstuck hfit =>
    exact .refused htokens (hviable.mul_right hsample) (hstuck.mul_right hfollow) hfit
  | exhausted htokens hviable hlevels =>
    exact .exhausted htokens (hviable.mul_right hsample) hlevels
  | overlong htokens hviable hfit hkind hlong =>
    exact .overlong htokens (hviable.mul_right hsample) hfit hkind hlong
  | @read a word mid htokens hword hmid hfit =>
    have hlater := hnext a mid rfl
    dsimp only
    generalize next a mid = outcome at hlater ⊢
    cases hlater with
    | read htokens' hword' hrest hfit' =>
      refine .read ?_ (Language.append_mem_mul hword hword') hrest
        (numbersFit_append.2 ⟨hfit, hfit'⟩)
      rw [htokens, htokens', List.append_assoc]
    | refused htokens' hviable hstuck hfit' =>
      rw [htokens'] at hmid
      refine .refused ?_ (hviable.mul_left hword) (hstuck.mul_left hcancel hfollow hword hmid)
        (numbersFit_append.2 ⟨hfit, hfit'⟩)
      rw [htokens, htokens', List.append_assoc]
    | exhausted htokens' hviable hlevels =>
      refine .exhausted ?_ (hviable.mul_left hword) ?_
      · rw [htokens, htokens', List.append_assoc]
      · have hle := hmore word hword
        rw [List.length_append]
        omega
    | overlong htokens' hviable hfit' hkind hlong =>
      refine .overlong ?_ ?_ (numbersFit_append.2 ⟨hfit, hfit'⟩) hkind hlong
      · rw [htokens, htokens', List.append_assoc]
      · rw [List.append_assoc]
        exact hviable.mul_left hword

theorem Recognizes.bind [Inhabited α] {rule : Rule α} {next : α → Rule β}
    (hrule : Recognizes levels L F rule) (hnext : ∀ a, Recognizes levels M G (next a))
    (hcancel : Cancels L F)
    (hfollow : ∀ word ∈ M, ∀ rest, G (front rest) → F (front (word ++ rest))) :
    Recognizes levels (L * M) G (rule >>= next) :=
  fun tokens => (hrule tokens).bind (fun a mid _ => hnext a mid) hcancel hfollow
    (fun _ _ => Nat.le_add_right _ _) (hnext default).exists_mem

/-- After a single token, three levels more are accounted for. -/
theorem Recognizes.bind_kind [Inhabited α] {kind : TokenKind} {rule : Rule α} {next : α → Rule β}
    (hrule : ∀ levels, Recognizes levels (kindLanguage kind) anything rule)
    (hnext : ∀ a, Recognizes levels M G (next a)) :
    Recognizes (levels + 3) (kindLanguage kind * M) G (rule >>= next) := by
  intro tokens
  refine (hrule _ tokens).bind (fun a mid _ => hnext a mid) (cancels_kindLanguage kind)
    (fun _ _ _ _ => trivial) ?_ (hnext default).exists_mem
  rintro _ ⟨leaf, rfl⟩
  exact Nat.le_refl _

theorem Recognizes.map {rule : Rule α} (h : Recognizes levels L F rule) (f : α → β) :
    Recognizes levels L F (rule >>= fun a => pure (f a)) := by
  intro tokens
  have houtcome := h tokens
  rw [Rule.bind_apply]
  generalize rule tokens = outcome at houtcome ⊢
  cases houtcome with
  | read htokens hword hrest hfit => exact .read htokens hword hrest hfit
  | refused htokens hviable hstuck hfit => exact .refused htokens hviable hstuck hfit
  | exhausted htokens hviable hlevels => exact .exhausted htokens hviable hlevels
  | overlong htokens hviable hfit hkind hlong => exact .overlong htokens hviable hfit hkind hlong

end

/-! ### Single tokens and runs of names -/

theorem stuck_nil {L : Language Token} {F : Follow} {next : Option TokenKind}
    (h : ∀ word ∈ L, ∀ rest, F (front rest) → front (word ++ rest) ≠ next) : Stuck L F [] next := by
  intro word hword rest later hrest hlater heq
  exact h word hword rest hrest (heq ▸ hlater)

theorem recognizes_expect {kind : TokenKind} (hkind : kind ≠ .natural) (phrase : String)
    (levels : Nat) : Recognizes levels (kindLanguage kind) anything (expect kind phrase) := by
  have hviable : Viable (kindLanguage kind) [] := ⟨[⟨kind, "", 0⟩], ⟨⟨kind, "", 0⟩, rfl⟩, rfl⟩
  have hstuck : ∀ next, next ≠ some kind → Stuck (kindLanguage kind) anything [] next := by
    refine fun next hnext => stuck_nil ?_
    rintro _ ⟨leaf, rfl⟩ rest - hfront
    exact hnext (hfront.symm.trans (congrArg some leaf.property))
  intro tokens
  cases tokens with
  | nil => exact .refused rfl hviable (hstuck _ (by simp)) (List.forall_mem_nil _)
  | cons token tokens =>
    rw [expect]
    split
    · rename_i htoken
      let leaf : Leaf kind := ⟨token, htoken⟩
      exact .read rfl leaf.mem trivial (numbersFit_leaves hkind [leaf])
    · rename_i htoken
      exact .refused rfl hviable (hstuck _ (by simpa using htoken)) (List.forall_mem_nil _)

theorem recognizes_identifier (levels : Nat) :
    Recognizes levels (kindLanguage .identifier) anything identifier :=
  (recognizes_expect (by decide) _ levels).map _

theorem noName_identifierRun (tokens : List Token) : noName (front (identifierRun tokens).2) := by
  induction tokens with
  | nil => simp [noName, identifierRun]
  | cons token tokens ih =>
    rw [identifierRun]
    split
    · exact ih
    · rename_i hkind
      simpa [noName] using hkind

theorem recognizes_furtherIdentifiers (levels : Nat) :
    Recognizes levels (kindLanguage .identifier)∗ noName furtherIdentifiers := by
  intro tokens
  obtain ⟨leaves, -, htokens⟩ := exists_leaves_identifierRun tokens
  exact .read htokens (mem_kstar_kindLanguage.2 ⟨leaves, rfl⟩) (noName_identifierRun tokens)
    (numbersFit_leaves (by decide) leaves)

/-! ### The rules -/

theorem noAtom_kindLanguage_mul {kind : TokenKind} (hkind : kind.startsAtom = false)
    {L : Language Token} :
    ∀ word ∈ kindLanguage kind * L, ∀ rest, noAtom (front (word ++ rest)) := by
  intro word hword rest
  obtain ⟨_, ⟨leaf, rfl⟩, later, -, rfl⟩ := Language.mem_mul.1 hword
  simpa [noAtom, leaf.property] using hkind

section

variable {nested : Scope → Rule Term} {levels : Nat}
  (hnested : ∀ scope, Recognizes levels (Phrase.language .term) noAtom (nested scope))
  (scope : Scope)

include hnested

theorem recognizes_abstraction :
    Recognizes (levels + 3) (Phrase.language .abstraction) noAtom (abstraction nested scope) := by
  rw [language_abstraction]
  refine Recognizes.mono ?_ (Nat.le_add_right (levels + 3) 6)
  refine .bind_kind (recognizes_expect (by decide) _) fun _ =>
    .bind_kind recognizes_identifier fun name => ?_
  refine (recognizes_furtherIdentifiers _).bind (fun names => ?_) cancels_names ?_
  · exact .bind_kind (recognizes_expect (by decide) _) fun _ => (hnested _).map _
  · -- The arrow is no name.
    intro word hword rest _
    obtain ⟨_, ⟨arrow, rfl⟩, later, -, rfl⟩ := Language.mem_mul.1 hword
    simp [noName, arrow.property]

theorem recognizes_letIn :
    Recognizes (levels + 3) (Phrase.language .letIn) noAtom (letIn nested scope) := by
  rw [language_letIn]
  refine Recognizes.mono ?_ (Nat.le_add_right (levels + 3) 6)
  refine .bind_kind (recognizes_expect (by decide) _) fun _ =>
    .bind_kind recognizes_identifier fun name =>
    .bind_kind (recognizes_expect (by decide) _) fun _ => ?_
  refine (hnested scope).bind (fun definition => ?_) cancels_term
    fun word hword rest _ => noAtom_kindLanguage_mul rfl word hword rest
  exact Recognizes.mono (.bind_kind (recognizes_expect (by decide) _) fun _ => (hnested _).map _)
    (Nat.le_add_right levels 3)

theorem recognizes_bracketed :
    Recognizes levels (Phrase.language .term * kindLanguage .closeBracket) anything
      (bracketed nested scope) := by
  refine (hnested scope).bind (fun t => (recognizes_expect (by decide) _ levels).map _) cancels_term
    ?_
  rintro _ ⟨closing, rfl⟩ rest -
  simp [noAtom, closing.property, TokenKind.startsAtom]

theorem recognizes_atom :
    Recognizes (levels + 3) (Phrase.language .atom) anything (atom nested scope) := by
  have hviable : Viable (Phrase.language .atom) [] :=
    ⟨_, (Derivation.identifier ⟨⟨.identifier, "", 0⟩, rfl⟩).mem⟩
  have hstuck : ∀ next, noAtom next → Stuck (Phrase.language .atom) anything [] next := by
    refine fun next hnext => stuck_nil ?_
    rintro _ ⟨d, rfl⟩ rest - rfl
    exact absurd (d.atAtom_tokens rest) (by simp [noAtom_front.1 hnext])
  intro tokens
  cases tokens with
  | nil => exact .refused rfl hviable (hstuck _ (by simp [noAtom])) (List.forall_mem_nil _)
  | cons token tokens =>
    rw [atom]
    split
    · rename_i hkind
      let leaf : Leaf .identifier := ⟨token, hkind⟩
      exact .read rfl (Derivation.identifier leaf).mem trivial
        (numbersFit_leaves (by decide) [leaf])
    · rename_i hkind
      have hmem := (Derivation.natural ⟨token, hkind⟩).mem
      rw [literal]
      split
      · rename_i hlength
        exact .read rfl hmem trivial (List.forall_mem_singleton.2 fun _ => hlength)
      · rename_i hlength
        exact .overlong (List.nil_append _).symm ⟨[], hmem⟩ (List.forall_mem_nil _) hkind
          (Nat.lt_of_not_le hlength)
    · rename_i hkind
      -- The bracket is read as a token, and the rest of the atom after it.
      let opening : Leaf .openBracket := ⟨token, hkind⟩
      have hbracket := Recognizes.bind_kind (recognizes_expect (show .openBracket ≠ _ by decide) "")
        (fun _ => recognizes_bracketed hnested scope) (token :: tokens)
      rw [Rule.bind_of_ok (expect_leaf opening "" tokens)] at hbracket
      refine hbracket.widen (fun word hword => ?_) fun word hword rest _ hfront => ?_
      · rw [language_atom]
        exact .inr hword
      · rw [language_atom] at hword
        rcases hword with (⟨leaf, rfl⟩ | ⟨leaf, rfl⟩) | hword
        · simp [leaf.property, hkind] at hfront
        · simp [leaf.property, hkind] at hfront
        · exact hword
    · rename_i hidentifier hnatural hopen
      refine .refused rfl hviable (hstuck _ ?_) (List.forall_mem_nil _)
      cases hkind : token.kind <;> simp_all [noAtom, TokenKind.startsAtom]

theorem explains_arguments (budget : List Token) (fn : Term) {tokens : List Token}
    (hbudget : tokens.length ≤ budget.length) :
    Explains (levels + 3) (Phrase.language .arguments) noAtom tokens
      (arguments nested scope budget fn tokens) := by
  induction budget generalizing fn tokens with
  | nil =>
    obtain rfl := List.length_eq_zero_iff.1 (Nat.le_zero.1 hbudget)
    exact .read rfl Derivation.noArguments.mem (by simp [noAtom]) (List.forall_mem_nil _)
  | cons first budget ih =>
    have hread := recognizes_atom hnested scope tokens
    by_cases hatom : atAtom tokens = true
    · have hstep : arguments nested scope (first :: budget) fn tokens =
          (atom nested scope >>= fun arg => arguments nested scope budget (.app fn arg)) tokens := by
        rw [arguments, if_pos hatom, Rule.bind_apply]
        cases atom nested scope tokens <;> rfl
      rw [hstep]
      refine (hread.bind ?_ cancels_atom (fun _ _ _ _ => trivial)
        (fun _ _ => Nat.le_add_right _ _) ⟨_, Derivation.noArguments.mem⟩).widen
          (fun word hword => ?_) fun word hword rest hrest hfront => ?_
      · -- An atom takes a token at least, so the budget is still enough.
        intro arg mid hmid
        rw [hmid] at hread
        cases hread with
        | read htokens hword _ _ =>
          obtain ⟨d, rfl⟩ := hword
          have hpos := List.length_pos_iff.2 d.tokens_ne_nil
          rw [htokens, List.length_append, List.length_cons] at hbudget
          exact ih _ (by omega)
      · rw [language_arguments]
        exact .inr hword
      · rw [language_arguments] at hword
        rcases hword with rfl | hword
        · rw [List.nil_append] at hfront
          rw [hfront, noAtom_front, hatom] at hrest
          cases hrest
        · exact hword
    · rw [arguments, if_neg hatom]
      exact .read rfl Derivation.noArguments.mem (noAtom_front.2 (Bool.not_eq_true _ ▸ hatom))
        (List.forall_mem_nil _)

theorem recognizes_application :
    Recognizes (levels + 3) (Phrase.language .application) noAtom (application nested scope) := by
  rw [language_application]
  exact (recognizes_atom hnested scope).bind
    (fun fn tokens => explains_arguments hnested scope tokens fn (Nat.le_refl _)) cancels_atom
    fun _ _ _ _ => trivial

end

/-! ### Terms and programs -/

theorem alternative_cases (kind : TokenKind) : alternative kind = .abstraction ∨
    alternative kind = .letIn ∨ alternative kind = .application := by
  cases kind <;> simp [alternative]

theorem exists_alternative {word : List Token} (h : word ∈ Phrase.language .term) :
    ∃ token later, word = token :: later ∧ word ∈ (alternative token.kind).language := by
  have hcase : ∀ {phrase : Phrase} (d : Derivation phrase),
      phrase = .abstraction ∨ phrase = .letIn ∨ phrase = .application →
      ∃ token later, d.tokens = token :: later ∧ d.tokens ∈ (alternative token.kind).language := by
    intro phrase d hphrase
    obtain ⟨token, later, htokens, rfl⟩ := d.alternative_head hphrase
    exact ⟨token, later, htokens, d.mem⟩
  rw [language_term] at h
  rcases h with (⟨d, rfl⟩ | ⟨d, rfl⟩) | ⟨d, rfl⟩
  · exact hcase d (by simp)
  · exact hcase d (by simp)
  · exact hcase d (by simp)

theorem mem_term_of_mem_alternative {word : List Token} {kind : TokenKind}
    (h : word ∈ (alternative kind).language) : word ∈ Phrase.language .term := by
  rw [language_term]
  rcases alternative_cases kind with hkind | hkind | hkind
  · exact .inl (.inl (hkind ▸ h))
  · exact .inl (.inr (hkind ▸ h))
  · exact .inr (hkind ▸ h)

/-- **The rule for terms recognizes the terms**, at every number of levels. -/
theorem recognizes_term (levels : Nat) (scope : Scope) :
    Recognizes levels (Phrase.language .term) noAtom (term levels scope) := by
  have hviable : Viable (Phrase.language .term) [] :=
    ⟨_, (Derivation.ofApplication (.application (.identifier ⟨⟨.identifier, "", 0⟩, rfl⟩)
      .noArguments)).mem⟩
  induction levels using Nat.strongRecOn generalizing scope with
  | ind levels ih =>
    intro tokens
    match levels, ih with
    | 0, _ => exact .exhausted (List.nil_append _).symm hviable (by simp)
    | 1, _ => exact .exhausted (List.nil_append _).symm hviable (by simp)
    | 2, _ => exact .exhausted (List.nil_append _).symm hviable (by simp)
    | levels + 3, ih =>
      cases tokens with
      | nil =>
        refine .refused rfl hviable (stuck_nil ?_) (List.forall_mem_nil _)
        intro word hword rest _ hfront
        obtain ⟨token, later, rfl, -⟩ := exists_alternative hword
        cases hfront
      | cons token tokens =>
        have halternative : ∀ {phrase : Phrase},
            phrase = .abstraction ∨ phrase = .letIn ∨ phrase = .application →
            Recognizes (levels + 3) phrase.language noAtom (alternativeRule levels phrase scope) := by
          rintro phrase (rfl | rfl | rfl)
          · exact (recognizes_abstraction (ih (levels + 1) (by omega)) scope).mono (by omega)
          · exact (recognizes_letIn (ih (levels + 1) (by omega)) scope).mono (by omega)
          · exact recognizes_application (ih levels (by omega)) scope
        rw [term_cons]
        refine (halternative (alternative_cases token.kind) (token :: tokens)).widen
          (fun word hword => mem_term_of_mem_alternative hword) ?_
        intro word hword rest _ hfront
        obtain ⟨token', later, rfl, hmem⟩ := exists_alternative hword
        rwa [Option.some.inj hfront] at hmem

theorem recognizes_done (levels : Nat) : Recognizes levels 1 nothing done := by
  intro tokens
  cases tokens with
  | nil => exact .read rfl Language.nil_mem_one rfl (List.forall_mem_nil _)
  | cons token tokens =>
    refine .refused rfl ⟨[], Language.nil_mem_one⟩ (stuck_nil ?_) (List.forall_mem_nil _)
    rintro _ rfl rest hrest hfront
    exact absurd (hfront.symm.trans hrest) (by simp)

/-- **A program is recognized if nothing follows its term.** -/
theorem recognizes_program (levels : Nat) (scope : Scope) :
    Recognizes levels (Phrase.language .term) nothing (program levels scope) := by
  rw [← mul_one (Phrase.language .term)]
  refine (recognizes_term levels scope).bind (fun t => (recognizes_done levels).map _) cancels_term ?_
  rintro _ rfl rest hrest
  rw [List.nil_append, show front rest = none from hrest]
  simp [noAtom]

end Grammar

open Grammar

/-! ### Errors -/

/-- The tokens of a program refused by the grammar are read up to the token that it refuses. -/
theorem refused_of_parseTokens {levels length : Nat} {tokens : List Token} {e : ParseError}
    (h : parseTokens levels length tokens = .error (.grammatical e))
    (hlevels : 3 * tokens.length + 3 ≤ levels ∨ e.complaint ≠ .tooDeep) :
    ∃ what read rest, tokens = read ++ rest ∧ e = .atFront what length rest ∧
      Viable (Phrase.language .term) read ∧
      Stuck (Phrase.language .term) nothing read (front rest) := by
  have hexplains := recognizes_program levels [] tokens
  rw [parseTokens] at h
  generalize program levels [] tokens = outcome at hexplains h
  cases hexplains with
  | read => cases h
  | @refused what read rest htokens hviable hstuck _ =>
    obtain rfl := Rejection.grammatical.inj (Except.error.inj h)
    exact ⟨what, read, rest, htokens, rfl, hviable, hstuck⟩
  | @exhausted read rest htokens _ hexhausted =>
    obtain rfl := Rejection.grammatical.inj (Except.error.inj h)
    rcases hlevels with hle | hne
    · rw [htokens, List.length_append] at hle
      omega
    · exact absurd rfl hne
  | overlong => cases h

theorem viable_iff {tokens : List Token} : Viable (Phrase.language .term) tokens ↔
    ∃ later, Derivable .term (tokens.map Token.kind ++ later) := by
  constructor
  · rintro ⟨later, hmem⟩
    rw [mem_language_iff, List.map_append] at hmem
    exact ⟨_, hmem⟩
  · rintro ⟨later, hderivable⟩
    refine ⟨later.map (⟨·, "", 0⟩), ?_⟩
    rw [mem_language_iff, List.map_append, List.map_map]
    simpa [Function.comp_def] using hderivable

/-- **A syntax error stands at the first token that cannot go on.**  If the grammar refuses a source,
other than for its nesting, then at one of its tokens: the tokens before it can be completed to a
program, but not with this token after them.  If it is the one that marks the end, then the tokens
before it are no program themselves. -/
theorem parse_refuses_first_dead_token (source : String) (tokens : List Token) (e : ParseError)
    (hlex : lex source = .ok tokens)
    (h : parse source = .error (.grammatical e) ∨
      ∃ levels, parseWithin levels source = .error (.grammatical e) ∧ e.complaint ≠ .tooDeep) :
    ∃ k token, tokens[k]? = some token ∧ e.position = token.position ∧
      (Diagnostic.ofParseError source e).stop = token.position + max token.lexeme.length 1 ∧
      (∃ later, Derivable .term ((tokens.take k).map Token.kind ++ later)) ∧
      (token.kind ≠ .endOfInput →
        ∀ later, ¬Derivable .term ((tokens.take (k + 1)).map Token.kind ++ later)) ∧
      (token.kind = .endOfInput → ¬Derivable .term ((tokens.take k).map Token.kind)) := by
  obtain ⟨found, hfound, rfl⟩ := lex_eq_ok hlex
  have hkinds := (tokenize_eq_ok_iff.1 hfound).kind_ne_endOfInput
  obtain ⟨what, read, rest, rfl, rfl, hviable, hstuck⟩ : ∃ what read rest, found = read ++ rest ∧
      e = .atFront what source.length rest ∧ Viable (Phrase.language .term) read ∧
      Stuck (Phrase.language .term) nothing read (front rest) := by
    rcases h with hparse | ⟨levels, hparse, hcomplaint⟩
    · rw [parse, hfound] at hparse
      exact refused_of_parseTokens hparse (.inl (Nat.le_refl _))
    · rw [parseWithin, hfound] at hparse
      exact refused_of_parseTokens hparse (.inr hcomplaint)
  refine ⟨read.length, rest.head?.getD (.atEnd source.length), ?_, rfl, ?_, ?_, ?_, ?_⟩
  · cases rest <;> simp
  · simp [Diagnostic.stop, Diagnostic.width, Diagnostic.ofParseError, ParseError.atFront]
    omega
  · rw [List.append_assoc, List.take_left]
    exact viable_iff.1 hviable
  · intro hkind later hderivable
    cases rest with
    | nil => exact absurd rfl hkind
    | cons token rest =>
      have htake : (read ++ token :: rest ++ [Token.atEnd source.length]).take (read.length + 1) =
          read ++ [token] := by simp [List.take_append]
      obtain ⟨after, hmem⟩ := viable_iff.2 ⟨later, hderivable⟩
      rw [htake, List.append_assoc] at hmem
      have hend : nothing (front []) := rfl
      exact hstuck hmem hend (front_cons token after) (List.append_nil _)
  · intro hkind hderivable
    cases rest with
    | nil =>
      rw [List.append_assoc, List.take_left, ← mem_language_iff] at hderivable
      have hend : nothing (front []) := rfl
      exact hstuck hderivable hend front_nil rfl
    | cons token rest =>
      exact absurd hkind (hkinds token (by simp))

/-- A `let` whose definition has an open bracket: its `in` is refused, though a `let` is open. -/
theorem parse_refuses_first_dead_token_bracket :
    let source := "let f := λx -> (x in f"
    let tokens : List Token := [⟨.letWord, "let", 0⟩, ⟨.identifier, "f", 4⟩, ⟨.assign, ":=", 6⟩,
      ⟨.lambda, "λ", 9⟩, ⟨.identifier, "x", 10⟩, ⟨.arrow, "->", 12⟩, ⟨.openBracket, "(", 15⟩,
      ⟨.identifier, "x", 16⟩, ⟨.inWord, "in", 18⟩, ⟨.identifier, "f", 21⟩, .atEnd 22]
    let e : ParseError := ⟨.expected "a ) was expected" "in", 18, 2⟩
    lex source = .ok tokens ∧ parse source = .error (.grammatical e) ∧
      (Diagnostic.ofParseError source e).stop = 20 ∧
      (∃ later, Derivable .term ((tokens.take 8).map Token.kind ++ later)) ∧
      ∀ later, ¬Derivable .term ((tokens.take 9).map Token.kind ++ later) := by
  intro source tokens e
  have hlex : lex source = .ok tokens := by
    simp only [source, tokens]
    decide +kernel
  have hparse : parse source = .error (.grammatical e) := by
    simp only [source, e]
    decide +kernel
  obtain ⟨k, token, htoken, hposition, hstop, hviable, hdead, -⟩ :=
    parse_refuses_first_dead_token source tokens e hlex (.inl hparse)
  have hindex : ∀ k < tokens.length, tokens[k]?.map Token.position = some 18 → k = 8 := by
    simp only [tokens]
    decide
  obtain rfl : k = 8 := by
    refine hindex k (List.getElem?_eq_some_iff.1 htoken).1 ?_
    rw [htoken, Option.map_some, ← hposition]
  obtain rfl := Option.some.inj htoken
  exact ⟨hlex, hparse, hstop, hviable, hdead (by decide)⟩

end NormalOrder
