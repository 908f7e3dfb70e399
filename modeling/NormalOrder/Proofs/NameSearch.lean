import Mathlib.Data.List.Dedup
import NormalOrder.Proofs.FreshName
import NormalOrder.Proofs.Pieces

/-!
# The search for a fresh name ends

A `NameSearch` makes one candidate after the other as long as they are to be avoided.  It adds an
apostrophe to the last one; from the third on, it puts a number after the name without its
apostrophes.  Nothing counts down in it.  `NameSearch.Finds` says with what it ends, and after how
many rounds; a search that goes on for ever finds nothing.

* `NameSearch.round_candidate` : a round goes on to the next of the candidates.
* `NameSearch.finds_iff` : so what is found is the first candidate that is not to be avoided.
* `NameSearch.exists_finds` : there is one, before there are more rounds than names to avoid.

It is the name that `freshName` makes.  It is not the name that it is made from
(`nameCandidate_ne_self`), and again a name: `freshName_ends_search`.
-/

namespace NormalOrder

/-! ### Apostrophes at the end -/

/-- **A name is its base with apostrophes after it**, and the base does not end with one. -/
theorem exists_eq_baseName_append (name : String) :
    (∃ quotes, name.toList = (baseName name).toList ++ List.replicate quotes '\'') ∧
      (baseName name).toList.getLast? ≠ some '\'' := by
  rw [baseName, String.toList_ofList]
  refine ⟨⟨(name.toList.reverse.takeWhile (· = '\'')).length, ?_⟩, fun hlast => ?_⟩
  · have hquotes : name.toList.reverse.takeWhile (· = '\'') = List.replicate _ '\'' :=
      List.eq_replicate_of_mem fun c hc => by simpa using List.mem_takeWhile_imp hc
    rw [← List.reverse_replicate, ← hquotes, ← List.reverse_append,
      List.takeWhile_append_dropWhile, List.reverse_reverse]
  · rw [List.getLast?_reverse] at hlast
    simpa using head?_dropWhile _ _ hlast

/-- No candidate is the name itself: there are further apostrophes in it, or digits instead. -/
theorem nameCandidate_ne_self (name : String) (k : Nat) : nameCandidate name k ≠ name := by
  intro h
  have hlist := congrArg String.toList h
  by_cases hk : k < 3
  · have hlength := congrArg List.length hlist
    rw [toList_nameCandidate_of_lt name hk, List.length_append, List.length_replicate] at hlength
    omega
  · obtain ⟨k, rfl⟩ : ∃ m, k = m + 3 := ⟨k - 3, by omega⟩
    obtain ⟨⟨quotes, hname⟩, -⟩ := exists_eq_baseName_append name
    have hsame := (toList_nameCandidate_add name k).symm.trans (hlist.trans hname)
    have hdigits : Nat.toDigits 10 (k + 3) = List.replicate quotes '\'' :=
      List.append_cancel_left hsame
    obtain ⟨c, hc⟩ := List.exists_mem_of_ne_nil _ (Nat.toDigits_ne_nil (b := 10) (n := k + 3))
    have hdigit : c.isDigit = true := Nat.isDigit_of_mem_toDigits (by decide) (by decide) hc
    rw [hdigits] at hc
    obtain rfl := List.eq_of_mem_replicate hc
    cases hdigit

/-! ### The search -/

/-- The state of a search for a fresh name. -/
structure NameSearch where
  /-- The candidate. -/
  fresh : String
  /-- The number of the next candidate. -/
  suffix : Nat
  deriving DecidableEq, Repr

namespace NameSearch

/-- The search for a name in the place of `name` begins with one more apostrophe. -/
def start (name : String) : NameSearch := ⟨name ++ "'", 1⟩

/-- One round of the search: another candidate. -/
def round (name : String) (s : NameSearch) : NameSearch where
  fresh := if s.suffix < 3 then s.fresh ++ "'" else baseName name ++ toString s.suffix
  suffix := s.suffix + 1

/-- From a state, the search ends with a name after a number of rounds. -/
inductive Finds (name : String) (avoid : List String) : NameSearch → Nat → String → Prop where
  /-- The candidate is not to be avoided. -/
  | stop {s : NameSearch} (h : s.fresh ∉ avoid) : Finds name avoid s 0 s.fresh
  /-- The candidate is to be avoided, and the search goes on. -/
  | goOn {s : NameSearch} {rounds : Nat} {found : String} (h : s.fresh ∈ avoid)
      (hrest : Finds name avoid (s.round name) rounds found) :
      Finds name avoid s (rounds + 1) found

variable {name : String} {avoid : List String} {s : NameSearch} {rounds : Nat} {found : String}

theorem finds_zero_iff : Finds name avoid s 0 found ↔ found = s.fresh ∧ found ∉ avoid := by
  constructor
  · rintro ⟨hnot⟩
    exact ⟨rfl, hnot⟩
  · rintro ⟨rfl, hnot⟩
    exact .stop hnot

theorem finds_succ_iff : Finds name avoid s (rounds + 1) found ↔
    s.fresh ∈ avoid ∧ Finds name avoid (s.round name) rounds found := by
  constructor
  · rintro (_ | ⟨hmem, hrest⟩)
    exact ⟨hmem, hrest⟩
  · rintro ⟨hmem, hrest⟩
    exact .goOn hmem hrest

theorem Finds.unique {rounds' : Nat} {found' : String} (h : Finds name avoid s rounds found)
    (h' : Finds name avoid s rounds' found') : rounds = rounds' ∧ found = found' := by
  induction h generalizing rounds' with
  | stop hnot =>
    cases h' with
    | stop _ => exact ⟨rfl, rfl⟩
    | goOn hmem _ => exact absurd hmem hnot
  | goOn hmem _ ih =>
    cases h' with
    | stop hnot => exact absurd hmem hnot
    | goOn _ hrest =>
      obtain ⟨hrounds, hfound⟩ := ih hrest
      exact ⟨congrArg Nat.succ hrounds, hfound⟩

/-! ### Candidates, one from the other -/

/-- The state of the search at the `k`-th candidate. -/
def candidate (name : String) (k : Nat) : NameSearch := ⟨nameCandidate name k, k + 1⟩

theorem start_eq_candidate (name : String) : start name = candidate name 0 := rfl

/-- **A round goes on to the next candidate.** -/
theorem round_candidate (name : String) (k : Nat) :
    (candidate name k).round name = candidate name (k + 1) := by
  match k with
  | 0 => simp [candidate, round, nameCandidate, String.append_assoc]
  | 1 => simp [candidate, round, nameCandidate, String.append_assoc]
  | k + 2 =>
    have hsuffix : ¬k + 2 + 1 < 3 := by omega
    rw [candidate, round, if_neg hsuffix]
    rfl

/-- From any candidate on, the search ends with the first one that is not to be avoided. -/
theorem finds_candidate_iff {k : Nat} : Finds name avoid (candidate name k) rounds found ↔
    found = nameCandidate name (k + rounds) ∧ found ∉ avoid ∧
      ∀ j < rounds, nameCandidate name (k + j) ∈ avoid := by
  induction rounds generalizing k with
  | zero => simp [finds_zero_iff, candidate]
  | succ rounds ih =>
    rw [finds_succ_iff, round_candidate, ih, Nat.forall_lt_succ_left]
    simp only [candidate, Nat.add_zero, Nat.add_right_comm k 1, ← Nat.add_assoc]
    exact and_left_comm.trans (and_congr_right fun _ => and_left_comm)

/-- **The search ends with the first candidate that is not to be avoided.** -/
theorem finds_iff : Finds name avoid (start name) rounds found ↔
    found = nameCandidate name rounds ∧ found ∉ avoid ∧
      ∀ j < rounds, nameCandidate name j ∈ avoid := by
  rw [start_eq_candidate, finds_candidate_iff]
  simp only [Nat.zero_add]

/-- **The search ends**, after no more rounds than there are different names to avoid. -/
theorem exists_finds (name : String) (avoid : List String) :
    ∃ rounds ≤ avoid.dedup.length, Finds name avoid (start name) rounds (freshName name avoid) := by
  obtain ⟨rounds, hfresh, hnot, hall⟩ := exists_freshName_eq name avoid
  refine ⟨rounds, ?_, finds_iff.2 ⟨hfresh, hfresh ▸ hnot, hall⟩⟩
  obtain ⟨bound, hbound, hfree⟩ := exists_nameCandidate_notMem name avoid.dedup
  -- The search does not go past a candidate that is not to be avoided.
  have hle : rounds ≤ bound := by
    by_contra hlt
    exact hfree (List.mem_dedup.2 (hall bound (by omega)))
  exact Nat.le_trans hle hbound

end NameSearch

open NameSearch

theorem freshName_congr (name : String) {avoid others : List String}
    (h : ∀ s, s ∈ others ↔ s ∈ avoid) : freshName name others = freshName name avoid := by
  obtain ⟨rounds, hfresh, hnot, hall⟩ := exists_freshName_eq name others
  simp only [h] at hnot hall
  have hfinds : Finds name avoid (start name) rounds (freshName name others) :=
    finds_iff.2 ⟨hfresh, hfresh ▸ hnot, hall⟩
  obtain ⟨rounds', -, hfinds'⟩ := exists_finds name avoid
  exact (hfinds.unique hfinds').2

/-- **The search for a fresh name always ends, with the first candidate that is not to be avoided.**
It takes no more rounds than there are different names to avoid, and ends in one way only, with the
name that `freshName` makes; for this it only matters which names are to be avoided.  The candidates
are made from the name, or from the name without the apostrophes at its end.  The fresh name is not
the name itself and no reserved word, and it is a name if it is made from one. -/
theorem freshName_ends_search (name : String) (avoid : List String) :
    (∃ rounds ≤ avoid.dedup.length, Finds name avoid (start name) rounds (freshName name avoid)) ∧
    (∀ rounds found, Finds name avoid (start name) rounds found →
      found = freshName name avoid) ∧
    (∃ k, freshName name avoid = nameCandidate name k ∧ nameCandidate name k ∉ avoid ∧
      ∀ j < k, nameCandidate name j ∈ avoid) ∧
    (∀ others : List String, (∀ s, s ∈ others ↔ s ∈ avoid) →
      freshName name others = freshName name avoid) ∧
    ((∃ quotes, name.toList = (baseName name).toList ++ List.replicate quotes '\'') ∧
      (baseName name).toList.getLast? ≠ some '\'') ∧
    freshName name avoid ≠ name ∧ freshName name avoid ≠ "let" ∧ freshName name avoid ≠ "in" ∧
    (IsIdentifier name → IsIdentifier (freshName name avoid)) := by
  obtain ⟨rounds, hrounds, hfinds⟩ := exists_finds name avoid
  obtain ⟨hfound, hnot, hall⟩ := finds_iff.1 hfinds
  refine ⟨⟨rounds, hrounds, hfinds⟩, fun _ _ h => (h.unique hfinds).2,
    ⟨rounds, hfound, hfound ▸ hnot, hall⟩, fun _ => freshName_congr name,
    exists_eq_baseName_append name, ?_⟩
  have hword := ofWord_nameCandidate name rounds
  rw [hfound]
  refine ⟨nameCandidate_ne_self name rounds, fun hlet => ?_, fun hin => ?_,
    fun hname => isIdentifier_nameCandidate hname rounds⟩
  · rw [hlet] at hword
    exact absurd hword (by decide)
  · rw [hin] at hword
    exact absurd hword (by decide)

/-- The apostrophes make way for a number, and what is left of the name is a reserved word. -/
theorem freshName_ends_search_reserved :
    let avoid := ["let'", "let''", "let'''", "let''''"]
    IsIdentifier "let'" ∧ freshName "let'" avoid = "let3" ∧
      Finds "let'" avoid (start "let'") 3 "let3" ∧ IsIdentifier "let3" := by
  intro avoid
  have hspells : SpellsWord 'l' ['e', 't'] ['\''] :=
    ⟨spellsWord_let.start, spellsWord_let.run, List.forall_mem_singleton.2 rfl⟩
  have hname : IsIdentifier "let'" :=
    isIdentifier_iff_spells.2 ⟨⟨'l', ['e', 't'], ['\''], hspells, rfl⟩, rfl⟩
  have hfinds : Finds "let'" avoid (start "let'") 3 "let3" :=
    finds_iff.2 ⟨by decide, by decide, by decide⟩
  obtain ⟨-, honly, -, -, -, -, -, -, hidentifier⟩ := freshName_ends_search "let'" avoid
  have hfresh : freshName "let'" avoid = "let3" := (honly 3 "let3" hfinds).symm
  exact ⟨hname, hfresh, hfinds, hfresh ▸ hidentifier hname⟩

end NormalOrder
