import NormalOrder.Proofs.Lines

/-!
# Offsets and places

The lines of a source are what its newlines separate.  A `Location` is a place in a source if its
line has its number among them and its column is one of this line, or the one after its end
(`Location.IsIn`); its offset is counted over all the lines before it, with their newlines
(`Location.offset`).

* `locate_isIn`, `offset_locate` : the place at an offset is a place in the source, with this offset.
* `Location.IsIn.eq_of_offset_eq` : there is no other with this offset, since every line begins
  after the end of the one before.

So `locate` and `Location.offset` are inverse to each other.  An excerpt consists of two rows, the
line and a mark below it, and the place tells where the mark begins and how wide it may be
(`splitOn_excerpt`).  Together: `locate_inverts_offset`.
-/

namespace NormalOrder

/-! ### Where lines begin -/

/-- The offset at which the line begins that has `k` lines before it. -/
def lineStart (lines : List (List Char)) (k : Nat) : Nat :=
  ((lines.take k).map fun line => line.length + 1).sum

theorem lineStart_succ {lines : List (List Char)} {k : Nat} {line : List Char}
    (h : lines[k]? = some line) :
    lineStart lines (k + 1) = lineStart lines k + (line.length + 1) := by
  simp [lineStart, List.take_add_one, h]

theorem lineStart_mono (lines : List (List Char)) {j k : Nat} (h : j ≤ k) :
    lineStart lines j ≤ lineStart lines k := by
  obtain ⟨more, rfl⟩ := Nat.exists_eq_add_of_le h
  rw [lineStart, lineStart, List.take_add, List.map_append, List.sum_append]
  exact Nat.le_add_right _ _

/-- No line begins further than one character after the end, where a newline would be. -/
theorem lineStart_splitOn_le (source : List Char) (k : Nat) :
    lineStart (source.splitOn '\n') k ≤ source.length + 1 := by
  have hall := sum_length_splitOn_newline source
  rw [← List.take_append_drop k (source.splitOn '\n'), List.map_append, List.sum_append] at hall
  rw [lineStart]
  omega

theorem LineAt.lineStart_eq {source : List Char} {position : Nat} (line : LineAt source position) :
    lineStart (source.splitOn '\n') ((source.take position).count '\n') = line.earlier.length := by
  obtain ⟨before, hlines, hlength, hsum⟩ := line.exists_splitOn
  rw [lineStart, hlines, ← hlength, List.take_left, hsum]

/-! ### Places -/

namespace Location

/-- The place is one in the source. -/
structure IsIn (place : Location) (source : List Char) : Prop where
  /-- Lines are counted from one. -/
  number_pos : 1 ≤ place.number
  /-- The line has its number among the lines of the source. -/
  line_eq : (source.splitOn '\n')[place.number - 1]? = some place.line
  /-- Columns are counted from one. -/
  column_pos : 1 ≤ place.column
  /-- The last column is the one after the end of the line. -/
  column_le : place.column ≤ place.line.length + 1

/-- The offset of a place: all lines before its own, each with its newline, and the characters
before its column. -/
def offset (place : Location) (source : List Char) : Nat :=
  lineStart (source.splitOn '\n') (place.number - 1) + (place.column - 1)

namespace IsIn

variable {place place' : Location} {source : List Char}

/-- The next line begins after every place in this one. -/
theorem offset_lt (h : place.IsIn source) :
    place.offset source < lineStart (source.splitOn '\n') place.number := by
  have hnext := lineStart_succ h.line_eq
  have hpos := h.column_pos
  have hle := h.column_le
  rw [Nat.sub_add_cancel h.number_pos] at hnext
  rw [offset]
  omega

theorem offset_le_length (h : place.IsIn source) : place.offset source ≤ source.length :=
  Nat.le_of_lt_succ (Nat.lt_of_lt_of_le h.offset_lt (lineStart_splitOn_le source place.number))

theorem number_le (h : place.IsIn source) (hle : place'.offset source ≤ place.offset source) :
    place'.number ≤ place.number := by
  by_contra hlt
  have hbegins : lineStart (source.splitOn '\n') place.number ≤
      lineStart (source.splitOn '\n') (place'.number - 1) := lineStart_mono _ (by omega)
  have hwithin : lineStart (source.splitOn '\n') (place'.number - 1) ≤ place'.offset source :=
    Nat.le_add_right _ _
  have hends := h.offset_lt
  omega

/-- **Different places have different offsets.** -/
theorem eq_of_offset_eq (h : place.IsIn source) (h' : place'.IsIn source)
    (heq : place.offset source = place'.offset source) : place = place' := by
  have hnumber : place.number = place'.number :=
    Nat.le_antisymm (h'.number_le heq.le) (h.number_le heq.ge)
  have hline : place.line = place'.line := by
    have hboth := h.line_eq
    rw [hnumber, h'.line_eq] at hboth
    exact (Option.some.inj hboth).symm
  have hcolumn : place.column = place'.column := by
    have hpos := h.column_pos
    have hpos' := h'.column_pos
    rw [offset, offset, hnumber] at heq
    omega
  obtain ⟨line, number, column⟩ := place
  obtain ⟨line', number', column'⟩ := place'
  exact (Location.mk.injEq ..).mpr ⟨hline, hnumber, hcolumn⟩

end IsIn

end Location

section

variable {source : List Char} {position : Nat}

theorem locate_isIn (h : position ≤ source.length) : (locate source position).IsIn source := by
  let line : LineAt source position := .of h
  rw [line.locate_eq]
  have hwithin : line.head.length ≤ line.text.length := by
    rw [LineAt.text, List.length_append]
    exact Nat.le_add_right _ _
  exact ⟨Nat.le_add_left _ _, line.getElem?_splitOn, Nat.le_add_left _ _,
    Nat.succ_le_succ hwithin⟩

/-- **The place at an offset has this offset.** -/
theorem offset_locate (h : position ≤ source.length) :
    (locate source position).offset source = position := by
  let line : LineAt source position := .of h
  rw [line.locate_eq, Location.offset]
  simp only [Nat.add_sub_cancel, line.lineStart_eq]
  exact line.position_eq.symm

/-- **A place is the place at its offset.** -/
theorem locate_offset {place : Location} (h : place.IsIn source) :
    locate source (place.offset source) = place :=
  (locate_isIn h.offset_le_length).eq_of_offset_eq h (offset_locate h.offset_le_length)

end

/-! ### Excerpts -/

/-- **An excerpt has two rows**: the line, and below it the mark.  The mark begins at the column of
the place, and it is as wide as the stretch, but not wider than what the line has from there on, and
never empty. -/
theorem splitOn_excerpt (d : Diagnostic) (colour : Colour)
    (h : d.position ≤ d.source.toList.length) :
    let place := locate d.source.toList d.position
    let width : Int := max 1 (min (max d.length 1) (place.line.length - (place.column - 1)))
    (d.excerpt .plain colour).toList.splitOn '\n' =
      [' ' :: ' ' :: place.line,
        List.replicate (place.column + 1) ' ' ++ '^' :: List.replicate (width - 1).toNat '~'] := by
  let line : LineAt d.source.toList d.position := .of h
  rw [line.locate_eq]
  intro place width
  have hlength : line.text.length = line.head.length + line.tail.length := List.length_append
  have hwidth : min d.width line.tail.length - 1 = (width - 1).toNat := by
    simp only [Diagnostic.width, width, place]
    omega
  have hline : '\n' ∉ ' ' :: ' ' :: line.text := by
    have hnone : '\n' ∉ line.text := line.newline_notMem
    simp [hnone]
  have hmark : '\n' ∉ ' ' :: ' ' :: underline line.head.length (min d.width line.tail.length) := by
    simp [underline, List.mem_replicate]
  have htext : (d.excerpt .plain colour).toList = (' ' :: ' ' :: line.text) ++ '\n' ::
      ' ' :: ' ' :: underline line.head.length (min d.width line.tail.length) := by
    rw [line.excerpt_eq]
    simp
  rw [htext, List.splitOn_append_cons_self_of_not_mem hline, List.splitOn_eq_singleton hmark,
    underline, hwidth]
  rfl

/-- **Offsets and places correspond to each other, and an excerpt is drawn at its place.**  The place
at an offset of a source, its end included, is a line of the source with its number, and a column in
it or right after it; all lines before it, with their newlines, and the characters before the column
make up the offset.  Conversely, every such place has an offset in the source, and is the place
there.  Without colour, the excerpt of whatever is reported there, of any length, consists of two
rows: two blanks and the line, and the mark, which is two blanks further to the right as well. -/
theorem locate_inverts_offset (source : String) :
    (∀ position ≤ source.length,
      (locate source.toList position).IsIn source.toList ∧
      (locate source.toList position).offset source.toList = position) ∧
    (∀ place : Location, place.IsIn source.toList →
      place.offset source.toList ≤ source.length ∧
      locate source.toList (place.offset source.toList) = place) ∧
    ∀ (d : Diagnostic) (colour : Colour), d.source = source → d.position ≤ source.length →
      let place := locate source.toList d.position
      let width : Int := max 1 (min (max d.length 1) (place.line.length - (place.column - 1)))
      (d.excerpt .plain colour).toList.splitOn '\n' =
        [' ' :: ' ' :: place.line,
          List.replicate (place.column + 1) ' ' ++
            '^' :: List.replicate (width - 1).toNat '~'] := by
  rw [← String.length_toList]
  refine ⟨fun position h => ⟨locate_isIn h, offset_locate h⟩,
    fun place h => ⟨h.offset_le_length, locate_offset h⟩, ?_⟩
  rintro d colour rfl h
  exact splitOn_excerpt d colour h

/-- The offset of the second newline is a place in an empty line.  There is nothing to mark there,
and one character is marked. -/
theorem locate_inverts_offset_empty_line :
    let source := "ab\n\ncd"
    let place : Location := ⟨[], 2, 1⟩
    let d : Diagnostic := { message := [], source := source, position := 3, length := 5 }
    d.position ≤ source.length ∧ locate source.toList 3 = place ∧ place.IsIn source.toList ∧
      place.offset source.toList = 3 ∧
      (d.excerpt .plain .red).toList.splitOn '\n' = [[' ', ' '], [' ', ' ', '^']] := by
  intro source place d
  have hle : d.position ≤ source.length := by decide
  have hplace : locate source.toList 3 = place := by decide
  obtain ⟨hlocate, -, hexcerpt⟩ := locate_inverts_offset source
  obtain ⟨hin, hoffset⟩ := hlocate 3 hle
  have hrows := hexcerpt d .red rfl hle
  have hposition : d.position = 3 := rfl
  rw [hposition] at hrows
  rw [hplace] at hin hoffset hrows
  exact ⟨hle, hplace, hin, hoffset, hrows⟩

end NormalOrder
