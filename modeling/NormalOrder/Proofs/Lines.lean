import Mathlib.Algebra.GroupWithZero.Nat
import NormalOrder.Proofs.Pieces
import NormalOrder.Report.Diagnostic

/-!
# Lines of a source

An offset of a source cuts the line it lies on in two (`LineAt`): `head` is the part of the line
before the offset and `tail` the part from there on.  The line goes on to a newline, or to the end
of the source, on either side.

* `LineAt.locate_eq` : the place at the offset is this line, its number among the lines of the
  source (`LineAt.getElem?_splitOn`), and the column after `head`.
* `LineAt.excerpt_eq` : an excerpt shows this line and has its mark below `tail`, beginning with it
  and no longer than it, except that there is always one character marked.
* `LineAt.prefix_tail` : a text without a newline that stands at the offset is a part of `tail`.
-/

namespace NormalOrder

/-- A line of a source, cut in two at an offset. -/
structure LineAt (source : List Char) (position : Nat) where
  /-- The source before the line. -/
  earlier : List Char
  /-- The line before the offset. -/
  head : List Char
  /-- The line from the offset on. -/
  tail : List Char
  /-- The source after the line. -/
  later : List Char
  /-- The parts make up the source. -/
  source_eq : source = earlier ++ (head ++ (tail ++ later))
  /-- The offset is the one between `head` and `tail`. -/
  position_eq : position = earlier.length + head.length
  /-- There is no newline in the line. -/
  newline_notMem : '\n' ∉ head ++ tail
  /-- A newline stands before the line, unless the source begins there. -/
  begins : ∀ c ∈ earlier.getLast?, c = '\n'
  /-- A newline stands after the line, unless the source ends there. -/
  ends : ∀ c ∈ later.head?, c = '\n'

theorem eq_newline_of_head?_dropWhile (cs : List Char) :
    ∀ c ∈ (cs.dropWhile (· ≠ '\n')).head?, c = '\n' := by
  intro c hc
  simpa using head?_dropWhile cs c hc

theorem newline_notMem_takeWhile (cs : List Char) : '\n' ∉ cs.takeWhile (· ≠ '\n') := by
  intro hmem
  simpa using List.mem_takeWhile_imp hmem

theorem idxOf?_newline {run rest : List Char} (h : '\n' ∉ run) :
    (run ++ '\n' :: rest).idxOf? '\n' = some run.length := by
  have hnone : run.findIdx? (· == '\n') = none := List.idxOf?_eq_none_iff.2 h
  rw [List.idxOf?, List.findIdx?_append, hnone, List.findIdx?_cons]
  simp

theorem length_splitOn_newline (cs : List Char) :
    (cs.splitOn '\n').length = cs.count '\n' + 1 := by
  induction cs with
  | nil => rfl
  | cons c cs ih =>
    rw [List.splitOn_cons_eq_if_modifyHead, List.count_cons]
    split
    · rw [List.length_cons, ih]
    · rw [List.length_modifyHead, ih, Nat.add_zero]

/-- All lines, with a newline after each of them, are one character longer than the source. -/
theorem sum_length_splitOn_newline (cs : List Char) :
    ((cs.splitOn '\n').map fun line => line.length + 1).sum = cs.length + 1 := by
  induction cs with
  | nil => rfl
  | cons c cs ih =>
    rw [List.splitOn_cons_eq_if_modifyHead]
    split
    · rw [List.map_cons, List.sum_cons, ih, List.length_nil, List.length_cons]
      omega
    · obtain ⟨first, others, hlines⟩ := List.exists_cons_of_ne_nil (List.splitOn_ne_nil '\n' cs)
      rw [hlines, List.map_cons, List.sum_cons] at ih
      rw [hlines, List.modifyHead_cons, List.map_cons, List.sum_cons, List.length_cons,
        List.length_cons]
      omega

namespace LineAt

/-- Every offset lies on a line. -/
def of {source : List Char} {position : Nat} (h : position ≤ source.length) :
    LineAt source position where
  earlier := ((source.take position).reverse.dropWhile (· ≠ '\n')).reverse
  head := ((source.take position).reverse.takeWhile (· ≠ '\n')).reverse
  tail := (source.drop position).takeWhile (· ≠ '\n')
  later := (source.drop position).dropWhile (· ≠ '\n')
  source_eq := by
    rw [List.takeWhile_append_dropWhile, ← List.append_assoc, ← List.reverse_append,
      List.takeWhile_append_dropWhile, List.reverse_reverse, List.take_append_drop]
  position_eq := by
    rw [← List.length_append, ← List.reverse_append, List.takeWhile_append_dropWhile,
      List.reverse_reverse, List.length_take, Nat.min_eq_left h]
  newline_notMem := by
    rw [List.mem_append, List.mem_reverse, not_or]
    exact ⟨newline_notMem_takeWhile _, newline_notMem_takeWhile _⟩
  begins := by
    rw [List.getLast?_reverse]
    exact eq_newline_of_head?_dropWhile _
  ends := eq_newline_of_head?_dropWhile _

variable {source : List Char} {position : Nat} (line : LineAt source position)

/-- The whole line. -/
def text : List Char := line.head ++ line.tail

theorem source_eq_text : source = line.earlier ++ (line.text ++ line.later) := by
  rw [text, List.append_assoc]
  exact line.source_eq

theorem newline_notMem_head : '\n' ∉ line.head :=
  fun hmem => line.newline_notMem (List.mem_append_left _ hmem)

theorem newline_notMem_tail : '\n' ∉ line.tail :=
  fun hmem => line.newline_notMem (List.mem_append_right _ hmem)

theorem earlier_cases : line.earlier = [] ∨ ∃ before, line.earlier = before ++ ['\n'] := by
  rcases List.eq_nil_or_concat line.earlier with hnone | ⟨before, c, hearlier⟩
  · exact .inl hnone
  · obtain rfl : c = '\n' := line.begins c (by simp [hearlier])
    exact .inr ⟨before, hearlier.trans (List.concat_eq_append ..)⟩

theorem later_cases : line.later = [] ∨ ∃ rest, line.later = '\n' :: rest := by
  cases hlater : line.later with
  | nil => exact .inl rfl
  | cons c rest =>
    obtain rfl : c = '\n' := line.ends c (by rw [hlater]; rfl)
    exact .inr ⟨rest, rfl⟩

theorem take_eq : source.take position = line.earlier ++ line.head := by
  obtain ⟨earlier, head, tail, later, rfl, rfl, -, -, -⟩ := line
  show (earlier ++ (head ++ (tail ++ later))).take _ = earlier ++ head
  rw [← List.append_assoc, ← List.length_append, List.take_left]

theorem drop_eq : source.drop position = line.tail ++ line.later := by
  obtain ⟨earlier, head, tail, later, rfl, rfl, -, -, -⟩ := line
  show (earlier ++ (head ++ (tail ++ later))).drop _ = tail ++ later
  rw [← List.append_assoc, ← List.length_append, List.drop_left]

/-- Only the lines before it have newlines before the offset. -/
theorem count_take : (source.take position).count '\n' = line.earlier.count '\n' := by
  rw [line.take_eq, List.count_append, List.count_eq_zero.2 line.newline_notMem_head, Nat.add_zero]

/-! ### Places -/

/-- The line begins after the last newline before the offset. -/
theorem start_eq :
    ((newlineBefore? source position).map (· + 1)).getD 0 = line.earlier.length := by
  have hhead : '\n' ∉ line.head.reverse := by simpa using line.newline_notMem_head
  rw [newlineBefore?, line.take_eq, List.reverse_append]
  rcases line.earlier_cases with hnone | ⟨before, hearlier⟩
  · rw [hnone, List.reverse_nil, List.append_nil, List.idxOf?_eq_none_iff.2 hhead]
    rfl
  · rw [hearlier, List.reverse_append, List.reverse_singleton, List.singleton_append,
      idxOf?_newline hhead]
    simp only [Option.map_some, Option.getD_some, List.length_append, List.length_reverse,
      List.length_singleton]
    omega

/-- The line ends before the first newline from the offset on. -/
theorem stop_eq : (newlineFrom? source position).getD source.length =
    line.earlier.length + line.text.length := by
  have hposition := line.position_eq
  have hlength : source.length =
      line.earlier.length + (line.text.length + line.later.length) := by
    rw [congrArg List.length line.source_eq_text, List.length_append, List.length_append]
  rw [newlineFrom?, line.drop_eq]
  rcases line.later_cases with hnone | ⟨rest, hlater⟩
  · rw [hnone, List.append_nil, List.idxOf?_eq_none_iff.2 line.newline_notMem_tail]
    rw [hnone, List.length_nil] at hlength
    exact hlength
  · rw [hlater, idxOf?_newline line.newline_notMem_tail, Option.map_some, Option.getD_some, text,
      List.length_append]
    omega

/-- **The place at an offset is the line it lies on**, with its number and the column. -/
theorem locate_eq : locate source position =
    ⟨line.text, (source.take position).count '\n' + 1, line.head.length + 1⟩ := by
  have hline : (source.take (line.earlier.length + line.text.length)).drop line.earlier.length =
      line.text := by
    rw [congrArg (List.take _) line.source_eq_text, List.take_length_add_append, List.drop_left,
      List.take_left]
  have hbefore : source.take line.earlier.length = line.earlier := by
    rw [congrArg (List.take _) line.source_eq, List.take_left]
  have hcolumn : position - line.earlier.length = line.head.length := by
    have hposition := line.position_eq
    omega
  simp only [locate, line.start_eq, line.stop_eq, hline, hbefore, hcolumn, line.count_take]

theorem head?_splitOn : ((line.text ++ line.later).splitOn '\n').head? = some line.text := by
  have hline : '\n' ∉ line.text := line.newline_notMem
  rcases line.later_cases with hnone | ⟨rest, hlater⟩
  · rw [hnone, List.append_nil, List.splitOn_eq_singleton hline, List.head?_cons]
  · rw [hlater, List.splitOn_append_cons_self_of_not_mem hline, List.head?_cons]

/-- The lines before this one are as many as there are newlines before the offset, and each of them
is in the source with its newline. -/
theorem exists_splitOn : ∃ before,
    source.splitOn '\n' = before ++ (line.text ++ line.later).splitOn '\n' ∧
      before.length = (source.take position).count '\n' ∧
      (before.map fun other => other.length + 1).sum = line.earlier.length := by
  rw [line.count_take, congrArg (List.splitOn '\n') line.source_eq_text]
  rcases line.earlier_cases with hnone | ⟨before, hearlier⟩
  · exact ⟨[], by simp [hnone]⟩
  · refine ⟨before.splitOn '\n', ?_, ?_, ?_⟩
    · rw [hearlier, List.append_assoc, List.singleton_append, List.splitOn_append_cons_self]
    · rw [hearlier, List.count_append, List.count_singleton_self, length_splitOn_newline]
    · rw [hearlier, List.length_append, List.length_singleton, sum_length_splitOn_newline]

/-- **The number of a line** is its number among the lines that the newlines of the source
separate. -/
theorem getElem?_splitOn :
    (source.splitOn '\n')[(source.take position).count '\n']? = some line.text := by
  obtain ⟨before, hlines, hlength, -⟩ := line.exists_splitOn
  rw [hlines, ← hlength, List.getElem?_append_right (Nat.le_refl _), Nat.sub_self,
    ← List.head?_eq_getElem?, line.head?_splitOn]

theorem prefix_tail {found : List Char} (hfound : found <+: source.drop position)
    (hline : '\n' ∉ found) : found <+: line.tail := by
  obtain ⟨rest, hrest⟩ := hfound
  rw [line.drop_eq] at hrest
  rcases List.append_eq_append_iff.1 hrest with ⟨more, htail, -⟩ | ⟨more, hfound, hlater⟩
  · exact ⟨more, htail.symm⟩
  · cases more with
    | nil => exact ⟨[], by rw [hfound, List.append_nil, List.append_nil]⟩
    | cons c more =>
      obtain rfl : c = '\n' := line.ends c (by rw [hlater]; rfl)
      exact absurd (by simp [hfound]) hline

theorem tail_eq_nil (h : position = source.length) : line.tail = [] := by
  have hdrop := line.drop_eq.symm.trans (List.drop_eq_nil_of_le h.ge)
  exact (List.append_eq_nil_iff.1 hdrop).1

end LineAt

/-! ### Excerpts -/

/-- The row below a line: a caret at a column, and tildes after it to make up a given width. -/
def underline (column width : Nat) : List Char :=
  List.replicate column ' ' ++ '^' :: List.replicate (width - 1) '~'

/-- **An excerpt shows the line, and marks the stretch on it.**  What reaches beyond the line is not
marked, but one character is marked in any case. -/
theorem LineAt.excerpt_eq (d : Diagnostic) (line : LineAt d.source.toList d.position)
    (colour : Colour) : d.excerpt .plain colour =
      "  " ++ String.ofList line.text ++ "\n" ++ "  " ++
        String.ofList (underline line.head.length (min d.width line.tail.length)) := by
  have hwidth : 1 ≤ d.width := by
    rw [Diagnostic.width]
    omega
  have hlength : line.text.length = line.head.length + line.tail.length := List.length_append
  have hmark : min (line.head.length + d.width) (max line.text.length (line.head.length + 1)) -
      line.head.length - 1 = min d.width line.tail.length - 1 := by omega
  have hstart : line.head.length ≤
      min (line.head.length + d.width) (max line.text.length (line.head.length + 1)) := by omega
  refine String.toList_inj.1 ?_
  simp only [Diagnostic.excerpt, line.locate_eq, Nat.add_sub_cancel, Style.paint_plain, hmark]
  generalize min (line.head.length + d.width) (max line.text.length (line.head.length + 1)) = stop
    at hstart
  -- The three parts of the row are the line again.
  have hrow : line.text.take line.head.length ++ ((line.text.take stop).drop line.head.length ++
      line.text.drop stop) = line.text := by
    have htake : line.text.take line.head.length = (line.text.take stop).take line.head.length := by
      rw [List.take_take, Nat.min_eq_left hstart]
    rw [htake, ← List.append_assoc, List.take_append_drop, List.take_append_drop]
  have hshown := congrArg String.ofList hrow
  simp only [String.ofList_append] at hshown
  rw [← hshown]
  simp [underline]

end NormalOrder
