/-!
# Punycode

A label of any characters is written in ASCII as the characters of ASCII in it, and behind a hyphen the
others in ascending order.  For each of these the number of steps is written from the place where the one
in front of it went in; a step goes to the next place of the label, and from its end to the next
character.  Such a number has digits in base 36 whose least digit comes first; a digit below a threshold
ends it, and the thresholds follow the size of the numbers written before.
-/

namespace AssemblerIndex.Uri.Punycode

/-! ### Numbers -/

/-- The digit of a value: the letters, then the decimal digits. -/
def digit (n : Nat) : Char := if n < 26 then Char.ofNat (97 + n) else Char.ofNat (22 + n)

/-- The value of a digit. -/
def valueOf? (c : Char) : Option Nat :=
  if 'a' ≤ c ∧ c ≤ 'z' then some (c.toNat - 97)
  else if '0' ≤ c ∧ c ≤ '9' then some (c.toNat - 22)
  else none

/-- The threshold of a digit; the places of the digits are 36, 72 and so on. -/
def threshold (bias place : Nat) : Nat := min 26 (max 1 (place - bias))

theorem threshold_pos (bias place : Nat) : 1 ≤ threshold bias place := by
  unfold threshold; omega

/-- Writes a number from a place on. -/
def writeNumber (bias place n : Nat) : List Char :=
  let t := threshold bias place
  if n < t then [digit n]
  else digit (t + (n - t) % (36 - t)) :: writeNumber bias (place + 36) ((n - t) / (36 - t))
termination_by n
decreasing_by
  have h := threshold_pos bias place
  have := Nat.div_le_self (n - threshold bias place) (36 - threshold bias place)
  omega

/-- The numbers that are counted with end here. -/
def limit : Nat := 0x100000000

/-- Reads a number from a place on and adds it, times a weight, to a sum. -/
def readNumber (bias place weight sum : Nat) : List Char → Option (Nat × List Char)
  | [] => none
  | c :: rest =>
    match valueOf? c with
    | none => none
    | some d =>
      let t := threshold bias place
      if limit ≤ sum + d * weight then none
      else if d < t then some (sum + d * weight, rest)
      else if limit ≤ weight * (36 - t) then none
      else readNumber bias (place + 36) (weight * (36 - t)) (sum + d * weight) rest

theorem length_of_readNumber {bias place weight sum n : Nat} {s rest : List Char}
    (h : readNumber bias place weight sum s = some (n, rest)) : rest.length < s.length := by
  induction s generalizing place weight sum with
  | nil => simp [readNumber] at h
  | cons c s ih =>
    rw [readNumber] at h
    split at h
    · contradiction
    · split at h
      · contradiction
      · dsimp only at h
        split at h
        · cases h; simp
        · split at h
          · contradiction
          · exact Nat.lt_succ_of_lt (ih h)

/-- Divides a number by 35 until it is at most 455, and counts 36 for each time. -/
def scaled (n : Nat) : Nat × Nat :=
  if 455 < n then
    let (m, count) := scaled (n / 35)
    (m, count + 36)
  else (n, 0)

/-- The bias behind a number: `size` is the length of the label by then, and the first number counts
less. -/
def adapted (n size : Nat) (isFirst : Bool) : Nat :=
  let n := if isFirst then n / 700 else n / 2
  let (m, count) := scaled (n + n / size)
  count + 36 * m / (m + 38)

/-! ### Writing -/

/-- A label part way through: what is written, the steps since the last character went in, the bias, and
how many characters are in. -/
structure Writing where
  written : List Char
  steps : Nat
  bias : Nat
  size : Nat

/-- Takes in that a character stands in the label, while the characters `next` go in. -/
def Writing.pass (basicSize next : Nat) (w : Writing) (c : Char) : Writing :=
  if c.toNat < next then { w with steps := w.steps + 1 }
  else if c.toNat = next then
    { written := w.written ++ writeNumber w.bias 36 w.steps
      steps := 0
      bias := adapted w.steps (w.size + 1) (w.size = basicSize)
      size := w.size + 1 }
  else w

/-- Puts in the characters of a label that are listed in ascending order; those below `next` are in. -/
def Writing.putIn (label : List Char) (basicSize : Nat) (w : Writing) (next : Nat) :
    List Nat → Writing
  | [] => w
  | n :: ns =>
    let w := { w with steps := w.steps + (n - next) * (w.size + 1) }
    let w := label.foldl (Writing.pass basicSize n) w
    putIn label basicSize { w with steps := w.steps + 1 } (n + 1) ns

/-- The character is one of ASCII. -/
def isBasic (c : Char) : Bool := c.toNat < 0x80

/-- A label in ASCII. -/
def encode (label : List Char) : List Char :=
  let basic := label.filter isBasic
  let others := (((label.filter (!isBasic ·)).map Char.toNat).mergeSort (· ≤ ·)).eraseReps
  let start : Writing := ⟨if basic.isEmpty then [] else basic ++ ['-'], 0, 72, basic.length⟩
  (start.putIn label basic.length 128 others).written

/-! ### Reading -/

/-- Puts the characters that numbers stand for into a label; `steps` are those before the number. -/
def putIn? (bias next steps : Nat) (label s : List Char) : Option (List Char) :=
  match s with
  | [] => some label
  | s =>
    match h : readNumber bias 36 1 steps s with
    | none => none
    | some (sum, rest) =>
      have := length_of_readNumber h
      let size := label.length + 1
      let n := next + sum / size
      let place := sum % size
      if n.isValidChar then
        putIn? (adapted (sum - steps) size (steps = 0)) n (place + 1)
          (label.take place ++ Char.ofNat n :: label.drop place) rest
      else none
termination_by s.length

/-- The label that a text in ASCII stands for. -/
def decode? (s : List Char) : Option (List Char) :=
  let behind := (s.reverse.takeWhile (· ≠ '-')).reverse
  let basic := s.take (s.length - behind.length - 1)
  putIn? 72 128 0 basic (if basic.isEmpty then s else behind)

end AssemblerIndex.Uri.Punycode
