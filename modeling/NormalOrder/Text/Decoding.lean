import NormalOrder.Text.Quoted

/-!
# From bytes to text

`Utf8.decode` turns bytes into text and accepts well-formed UTF-8 only: no overlong form, no
surrogate, nothing above the last code point.  A `Utf8.Fault` names the bytes that spoil the
text: those of a character that were in order so far.

A program read from outside may end its lines by a carriage return, with or without a newline
behind it; inside, every line ends by a newline (`Text.withNewlines`).
-/

namespace NormalOrder

/-! ### UTF-8 -/

namespace Utf8

/-- What is wrong with a sequence of bytes. -/
inductive Cause where
  /-- No character begins with this byte. -/
  | invalidStart
  /-- The next byte does not continue the character. -/
  | invalidContinuation
  /-- The text ends within a character. -/
  | truncated
  deriving DecidableEq, Repr

/-- The wording of a cause. -/
def Cause.text : Cause → String
  | invalidStart => "invalid start byte"
  | invalidContinuation => "invalid continuation byte"
  | truncated => "unexpected end of data"

/-- Bytes that are not text. -/
structure Fault where
  /-- The offset of the first of them. -/
  position : Nat
  /-- The first of them. -/
  lead : UInt8
  /-- How many there are. -/
  length : Nat
  /-- What is wrong. -/
  cause : Cause
  deriving DecidableEq, Repr

/-- The complaint about some bytes: a single one is shown, several are given by their offsets. -/
def Fault.message (fault : Fault) : String :=
  let subject :=
    if fault.length ≤ 1 then
      "byte 0x" ++ Text.hex 2 fault.lead.toNat ++ " in position " ++ toString fault.position
    else
      "bytes in position " ++ toString fault.position ++ "-" ++
        toString (fault.position + fault.length - 1)
  "'utf-8' codec can't decode " ++ subject ++ ": " ++ fault.cause.text

/-- How the character that begins with a given byte goes on. -/
structure Shape where
  /-- The bits of the code point that the first byte gives. -/
  bits : Nat
  /-- The least second byte. -/
  low : Nat
  /-- The greatest second byte. -/
  high : Nat
  /-- How many bytes follow the second one. -/
  more : Nat
  deriving DecidableEq, Repr

/-- The shape of a character of several bytes, by its first byte. -/
def shape? (lead : Nat) : Option Shape :=
  if lead < 0xc2 then none
  else if lead < 0xe0 then some ⟨lead - 0xc0, 0x80, 0xbf, 0⟩
  else if lead = 0xe0 then some ⟨0, 0xa0, 0xbf, 1⟩
  else if lead = 0xed then some ⟨0xd, 0x80, 0x9f, 1⟩
  else if lead < 0xf0 then some ⟨lead - 0xe0, 0x80, 0xbf, 1⟩
  else if lead = 0xf0 then some ⟨0, 0x90, 0xbf, 2⟩
  else if lead < 0xf4 then some ⟨lead - 0xf0, 0x80, 0xbf, 2⟩
  else if lead = 0xf4 then some ⟨4, 0x80, 0x8f, 2⟩
  else none

/-- Reads continuation bytes, the next of which must lie between `low` and `high`, and `more`
after it; `taken` bytes of the character have been read. -/
def continuation (code low high more taken : Nat) :
    List UInt8 → Except (Nat × Cause) (Nat × List UInt8)
  | [] => .error (taken, .truncated)
  | b :: rest =>
    if low ≤ b.toNat ∧ b.toNat ≤ high then
      let code := code * 64 + (b.toNat - 0x80)
      match more with
      | 0 => .ok (code, rest)
      | more + 1 => continuation code 0x80 0xbf more (taken + 1) rest
    else .error (taken, .invalidContinuation)

/-- Reads one character that begins with `lead`. -/
def character (lead : UInt8) (rest : List UInt8) :
    Except (Nat × Cause) (Char × List UInt8) :=
  if lead.toNat < 0x80 then .ok (Char.ofNat lead.toNat, rest)
  else match shape? lead.toNat with
    | none => .error (1, .invalidStart)
    | some s =>
      match continuation s.bits s.low s.high s.more 1 rest with
      | .error e => .error e
      | .ok (code, rest) => .ok (Char.ofNat code, rest)

/-- Reads at most `fuel` characters; `text` holds those read before, the latest first. -/
def decodeFrom : Nat → List Char → Nat → List UInt8 → Except Fault (List Char)
  | 0, text, _, _ => .ok text.reverse
  | _ + 1, text, _, [] => .ok text.reverse
  | fuel + 1, text, position, lead :: rest =>
    match character lead rest with
    | .error (length, cause) => .error ⟨position, lead, length, cause⟩
    | .ok (c, rest') =>
      decodeFrom fuel (c :: text) (position + 1 + (rest.length - rest'.length)) rest'

/-- The text that some bytes encode. -/
def decode (bytes : List UInt8) : Except Fault String :=
  (decodeFrom bytes.length [] 0 bytes).map String.ofList

end Utf8

/-! ### Line endings -/

namespace Text

/-- The characters with every line ending turned into a newline. -/
def unifyNewlines : List Char → List Char
  | [] => []
  | '\r' :: '\n' :: rest => '\n' :: unifyNewlines rest
  | '\r' :: rest => '\n' :: unifyNewlines rest
  | c :: rest => c :: unifyNewlines rest

theorem carriageReturn_notMem_unifyNewlines (cs : List Char) : '\r' ∉ unifyNewlines cs := by
  fun_induction unifyNewlines cs with
  | case1 => simp
  | case2 rest ih => simpa using ih
  | case3 rest _ ih => simpa using ih
  | case4 c rest _ h ih => exact fun hm => (List.mem_cons.1 hm).elim (fun e => h e.symm) ih

/-- The text with every line ending turned into a newline. -/
def withNewlines (text : String) : String := String.ofList (unifyNewlines text.toList)

end Text

end NormalOrder
