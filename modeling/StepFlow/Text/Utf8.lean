/-!
# Texts as bytes

What programs read and write are bytes. A byte is shown here as the character with its number, so that
a sequence of bytes is a list of characters with numbers below 256.

* `utf8`: the bytes of a text;
* `readUtf8`: the text of bytes, with a mark in place of what is not part of a text;
* `lines`: the lines of a text.
-/

namespace StepFlow.Text

def byte (n : Nat) : Char := Char.ofNat (n % 256)

/-- The bytes of a text in UTF-8. -/
def utf8 (text : String) : List Char :=
  text.toUTF8.data.toList.map fun b => Char.ofNat b.toNat

/-- The mark in place of bytes that are not part of a text. -/
def replacement : Char := '\uFFFD'

/-- What may follow a first byte of several: the number of bytes, and the range of the first of them. -/
def sequence? (first : Nat) : Option (Nat × Nat × Nat) :=
  if 0xC2 ≤ first && first ≤ 0xDF then some (1, 0x80, 0xBF)
  else if first = 0xE0 then some (2, 0xA0, 0xBF)
  else if first = 0xED then some (2, 0x80, 0x9F)
  else if 0xE1 ≤ first && first ≤ 0xEF then some (2, 0x80, 0xBF)
  else if first = 0xF0 then some (3, 0x90, 0xBF)
  else if 0xF1 ≤ first && first ≤ 0xF3 then some (3, 0x80, 0xBF)
  else if first = 0xF4 then some (3, 0x80, 0x8F)
  else none

/-- The number that `count` more bytes complete, if they are there, and the bytes after them or after
as many of them as are there. -/
def follow : Nat → Nat → Nat → Nat → List Char → Option Nat × List Char
  | 0, _, _, value, bytes => (some value, bytes)
  | count + 1, low, high, value, b :: rest =>
    if low ≤ b.toNat && b.toNat ≤ high then
      follow count 0x80 0xBF (value * 64 + b.toNat % 64) rest
    else (none, b :: rest)
  | _ + 1, _, _, _, [] => (none, [])

theorem length_follow_le (count low high value : Nat) (bytes : List Char) :
    (follow count low high value bytes).2.length ≤ bytes.length := by
  induction count generalizing low high value bytes with
  | zero => simp [follow]
  | succ count ih =>
    cases bytes with
    | nil => simp [follow]
    | cons b rest =>
      simp only [follow]
      split
      · exact Nat.le_trans (ih _ _ _ _) (by simp)
      · simp

/-- The text of bytes. Bytes that are not part of a text give a mark for each longest run that could
have been the start of a character. -/
def readUtf8 : List Char → List Char
  | [] => []
  | b :: rest =>
    if b.toNat < 0x80 then b :: readUtf8 rest
    else
      match sequence? b.toNat with
      | none => replacement :: readUtf8 rest
      | some (count, low, high) =>
        let read := follow count low high (b.toNat % Nat.pow 2 (6 - count)) rest
        (match read.1 with
          | some value => Char.ofNat value
          | none => replacement) :: readUtf8 read.2
termination_by bytes => bytes.length
decreasing_by
  all_goals simp only [List.length_cons]
  · omega
  · omega
  · have := length_follow_le count low high (b.toNat % Nat.pow 2 (6 - count)) rest
    omega

/-- A line without the carriage return at its end. -/
def dropReturn (line : List Char) : List Char :=
  if line.getLast? = some '\r' then line.dropLast else line

/-- The lines of a text. A line ends with a line feed, possibly with a carriage return before it; what
follows the last line feed is a line unless it is empty. -/
def lines (text : List Char) : List (List Char) :=
  go [] text
where
  /-- The lines of the text after the start of a line, which is given in reverse. -/
  go (start : List Char) : List Char → List (List Char)
    | [] => if start.isEmpty then [] else [start.reverse]
    | '\n' :: rest => dropReturn start.reverse :: go [] rest
    | c :: rest => go (c :: start) rest

end StepFlow.Text
