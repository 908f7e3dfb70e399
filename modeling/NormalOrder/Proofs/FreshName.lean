import Mathlib.Data.List.Nodup
import Mathlib.Data.List.Perm.Subperm
import Mathlib.Data.Nat.Find
import Mathlib.Tactic.Push
import Std.Data.HashSet.Lemmas
import NormalOrder.Proofs.Scanning
import NormalOrder.Surface.Printer

/-!
# Fresh names are fresh

The candidates for a name are pairwise different (`nameCandidate_injective`): those with
apostrophes by their length, those with a number by the number, and the ones from the others by
their last character.  So one candidate more than there are names to avoid is enough, and the
search for the first one that is not taken always finds it (`exists_freshName_eq`).

A candidate for a name is again a name, and no reserved word (`isIdentifier_nameCandidate`).
-/

namespace NormalOrder

/-! ### Candidates -/

theorem toList_nameCandidate_of_lt (name : String) {k : Nat} (h : k < 3) :
    (nameCandidate name k).toList = name.toList ++ List.replicate (k + 1) '\'' := by
  match k, h with
  | 0, _ => simp [nameCandidate]
  | 1, _ => simp [nameCandidate, List.replicate]
  | 2, _ => simp [nameCandidate, List.replicate]

theorem toList_nameCandidate_add (name : String) (k : Nat) :
    (nameCandidate name (k + 3)).toList =
      (baseName name).toList ++ Nat.toDigits 10 (k + 3) := by
  simp [nameCandidate]

theorem getLast?_nameCandidate_of_lt (name : String) {k : Nat} (h : k < 3) :
    (nameCandidate name k).toList.getLast? = some '\'' := by
  rw [toList_nameCandidate_of_lt name h]
  simp [List.getLast?_replicate]

theorem getLast?_nameCandidate_add (name : String) (k : Nat) :
    ∃ c, (nameCandidate name (k + 3)).toList.getLast? = some c ∧ c.isDigit = true := by
  have hne : Nat.toDigits 10 (k + 3) ≠ [] := Nat.toDigits_ne_nil
  refine ⟨(Nat.toDigits 10 (k + 3)).getLast hne, ?_, ?_⟩
  · rw [toList_nameCandidate_add, List.getLast?_append, List.getLast?_eq_some_getLast hne,
      Option.some_or]
  · exact Nat.isDigit_of_mem_toDigits (by decide) (by decide) (List.getLast_mem hne)

theorem nameCandidate_ne {name : String} {i : Nat} (hi : i < 3) (j : Nat) :
    nameCandidate name i ≠ nameCandidate name (j + 3) := by
  intro h
  obtain ⟨c, hc, hdigit⟩ := getLast?_nameCandidate_add name j
  rw [← h, getLast?_nameCandidate_of_lt name hi, Option.some.injEq] at hc
  subst hc
  exact absurd hdigit (by decide)

/-- **The candidates are pairwise different.** -/
theorem nameCandidate_injective (name : String) : Function.Injective (nameCandidate name) := by
  intro i j h
  by_cases hi : i < 3
  · by_cases hj : j < 3
    · -- Two rows of apostrophes differ in length.
      have hlen := congrArg (fun s => s.toList.length) h
      simp only [toList_nameCandidate_of_lt name hi, toList_nameCandidate_of_lt name hj,
        List.length_append, List.length_replicate] at hlen
      omega
    · obtain ⟨j, rfl⟩ : ∃ m, j = m + 3 := ⟨j - 3, by omega⟩
      exact absurd h (nameCandidate_ne hi j)
  · obtain ⟨i, rfl⟩ : ∃ m, i = m + 3 := ⟨i - 3, by omega⟩
    by_cases hj : j < 3
    · exact absurd h.symm (nameCandidate_ne hj i)
    · -- Two numbers after the same name can be read off.
      obtain ⟨j, rfl⟩ : ∃ m, j = m + 3 := ⟨j - 3, by omega⟩
      have hlist := congrArg String.toList h
      rw [toList_nameCandidate_add, toList_nameCandidate_add] at hlist
      have hdigits := congrArg (Nat.ofDigitChars 10 · 0) (List.append_cancel_left hlist)
      simpa using hdigits

/-! ### The search -/

theorem exists_nameCandidate_notMem (name : String) (avoid : List String) :
    ∃ k ≤ avoid.length, nameCandidate name k ∉ avoid := by
  by_contra hno
  push Not at hno
  -- Then all these candidates would be names to avoid, and there are not as many.
  have hnodup : ((List.range (avoid.length + 1)).map (nameCandidate name)).Nodup :=
    List.Nodup.map (nameCandidate_injective name) List.nodup_range
  have hsub : (List.range (avoid.length + 1)).map (nameCandidate name) ⊆ avoid := by
    intro s hs
    obtain ⟨k, hk, rfl⟩ := List.mem_map.1 hs
    exact hno k (Nat.le_of_lt_succ (List.mem_range.1 hk))
  have hlen := (List.subperm_of_subset hnodup hsub).length_le
  rw [List.length_map, List.length_range] at hlen
  omega

/-- A search finds the first candidate that is not taken, if there is one within its reach. -/
theorem firstCandidate_eq {name : String} {taken : String → Bool} (fuel k d : Nat)
    (hd : d ≤ fuel) (hfree : taken (nameCandidate name (k + d)) = false)
    (hleast : ∀ e < d, taken (nameCandidate name (k + e)) = true) :
    firstCandidate name taken fuel k = nameCandidate name (k + d) := by
  induction fuel generalizing k d with
  | zero =>
    obtain rfl : d = 0 := by omega
    rfl
  | succ fuel ih =>
    rw [firstCandidate]
    cases d with
    | zero =>
      rw [Nat.add_zero] at hfree
      simp only [hfree, Bool.false_eq_true, if_false, Nat.add_zero]
    | succ d =>
      have hk : taken (nameCandidate name k) = true := hleast 0 (Nat.succ_pos d)
      have hshift : ∀ e, k + 1 + e = k + (e + 1) := fun e => by omega
      simp only [hk, if_true]
      rw [ih (k + 1) d (by omega) (by rw [hshift]; exact hfree)
        (fun e he => by rw [hshift]; exact hleast (e + 1) (by omega)), hshift]

/-- **A fresh name is the first candidate that is not to be avoided.** -/
theorem exists_freshName_eq (name : String) (avoid : List String) :
    ∃ k, freshName name avoid = nameCandidate name k ∧ nameCandidate name k ∉ avoid ∧
      ∀ j < k, nameCandidate name j ∈ avoid := by
  classical
  obtain ⟨bound, hbound, hnot⟩ := exists_nameCandidate_notMem name avoid
  have hex : ∃ k, nameCandidate name k ∉ avoid := ⟨bound, hnot⟩
  refine ⟨Nat.find hex, ?_, Nat.find_spec hex, fun j hj => not_not.1 (Nat.find_min hex hj)⟩
  have h : freshName name avoid = nameCandidate name (0 + Nat.find hex) :=
    firstCandidate_eq avoid.length 0 _ (Nat.le_trans (Nat.find_min' hex hnot) hbound) ?_ ?_
  · rwa [Nat.zero_add] at h
  · rw [Nat.zero_add, Std.HashSet.contains_ofList]
    simpa using Nat.find_spec hex
  · intro e he
    rw [Nat.zero_add, Std.HashSet.contains_ofList]
    simpa using Nat.find_min hex he

theorem freshName_notMem (name : String) (avoid : List String) :
    freshName name avoid ∉ avoid := by
  obtain ⟨k, hk, hnot, -⟩ := exists_freshName_eq name avoid
  rwa [hk]

/-! ### Fresh names are names -/

theorem SpellsWord.ne_quote {c : Char} {run quotes : List Char} (h : SpellsWord c run quotes) :
    ∀ d ∈ c :: run, d ≠ '\'' := by
  rintro d hd rfl
  rcases List.mem_cons.1 hd with rfl | hrun
  · cases h.start []
  · have hcontinue := h.run _ hrun
    rw [isIdentifierContinue_of_lt (by decide)] at hcontinue
    cases hcontinue

theorem toList_baseName {name : String} {c : Char} {run quotes : List Char}
    (h : SpellsWord c run quotes) (hname : name.toList = c :: (run ++ quotes)) :
    (baseName name).toList = c :: run := by
  have hquotes : ∀ d ∈ quotes.reverse, decide (d = '\'') = true := by simpa using h.quotes
  have hend : ∀ d ∈ (c :: run).reverse.head?, decide (d = '\'') = false := by
    intro d hd
    simpa using h.ne_quote d (List.mem_reverse.1 (List.mem_of_mem_head? hd))
  have hdrop := (span_run hquotes hend).2
  rw [← List.reverse_append] at hdrop
  rw [baseName, String.toList_ofList, hname, ← List.cons_append, hdrop, List.reverse_reverse]

/-- The reserved words are told by their last characters. -/
theorem ofWord_of_getLast? {word : String} {c : Char} (h : word.toList.getLast? = some c)
    (hlet : c ≠ 't') (hin : c ≠ 'n') : TokenKind.ofWord word = .identifier := by
  rw [TokenKind.ofWord, if_neg, if_neg]
  · rintro rfl
    exact hin (Option.some.inj h).symm
  · rintro rfl
    exact hlet (Option.some.inj h).symm

theorem ofWord_nameCandidate (name : String) (k : Nat) :
    TokenKind.ofWord (nameCandidate name k) = .identifier := by
  by_cases hk : k < 3
  · exact ofWord_of_getLast? (getLast?_nameCandidate_of_lt name hk) (by decide) (by decide)
  · obtain ⟨k, rfl⟩ : ∃ m, k = m + 3 := ⟨k - 3, by omega⟩
    obtain ⟨d, hd, hdigit⟩ := getLast?_nameCandidate_add name k
    refine ofWord_of_getLast? hd ?_ ?_
    · rintro rfl
      cases hdigit
    · rintro rfl
      cases hdigit

/-- **A candidate for a name is a name.** -/
theorem isIdentifier_nameCandidate {name : String} (h : IsIdentifier name) (k : Nat) :
    IsIdentifier (nameCandidate name k) := by
  obtain ⟨⟨c, run, quotes, hspells, hname⟩, -⟩ := isIdentifier_iff_spells.1 h
  refine isIdentifier_iff_spells.2 ⟨?_, ofWord_nameCandidate name k⟩
  by_cases hk : k < 3
  · -- Further apostrophes at the end.
    refine ⟨c, run, quotes ++ List.replicate (k + 1) '\'', ?_, ?_⟩
    · refine ⟨hspells.start, hspells.run, fun d hd => ?_⟩
      rcases List.mem_append.1 hd with hd | hd
      · exact hspells.quotes d hd
      · exact List.eq_of_mem_replicate hd
    · rw [toList_nameCandidate_of_lt name hk, hname]
      simp
  · -- Digits in the place of the apostrophes.
    obtain ⟨k, rfl⟩ : ∃ m, k = m + 3 := ⟨k - 3, by omega⟩
    refine ⟨c, run ++ Nat.toDigits 10 (k + 3), [], ?_, ?_⟩
    · refine ⟨hspells.start, fun d hd => ?_, by simp⟩
      rcases List.mem_append.1 hd with hd | hd
      · exact hspells.run d hd
      · exact isIdentifierContinue_of_isDigit
          (Nat.isDigit_of_mem_toDigits (by decide) (by decide) hd)
    · rw [toList_nameCandidate_add, toList_baseName hspells hname]
      simp

theorem isIdentifier_freshName {name : String} (h : IsIdentifier name) (avoid : List String) :
    IsIdentifier (freshName name avoid) := by
  obtain ⟨k, hk, -⟩ := exists_freshName_eq name avoid
  rw [hk]
  exact isIdentifier_nameCandidate h k

end NormalOrder
