import AdbBridge.Library.Numeral
import Mathlib.Data.List.DropRight

namespace AdbBridge
namespace Client

open Library.Numeral

/-!
# Builtins of the shell

What `bash` does in the commands the client script is built from.  `echo` and
`return` take their argument as data, but not always: a text that looks like an
option is none that is printed, and a word that is no number is none that is
returned.
-/

variable {α : Type}

/-- An option of `echo`: a dash and then the letters `n`, `e` and `E` only. -/
def isEchoOption (codes : List Nat) : Bool :=
  match codes with
  | 45 :: letter :: rest =>
      (letter :: rest).all (fun code => code == 110 || code == 101 || code == 69)
  | _ => false

/-- What `echo "$text"` prints, for characters with the given codes. -/
def echo (code : α -> Nat) (newline : α) (text : List α) : List α :=
  if isEchoOption (text.map code) then (if 110 ∈ text.map code then [] else [newline])
  else text ++ [newline]

theorem echo_of_not_option {code : α -> Nat} {newline : α} {text : List α}
    (plain : isEchoOption (text.map code) = false) : echo code newline text = text ++ [newline] := by
  rw [echo, if_neg (by simp [plain])]

/-- An option prints nothing but at most the newline. -/
theorem mem_echo_of_option {code : α -> Nat} {newline symbol : α} {text : List α}
    (option : isEchoOption (text.map code) = true) (member : symbol ∈ echo code newline text) :
    symbol = newline := by
  rw [echo, if_pos option] at member
  split at member
  · exact absurd member List.not_mem_nil
  · exact List.mem_singleton.mp member

/-- An option begins with a dash. -/
theorem dash_of_option {codes : List Nat} (option : isEchoOption codes = true) :
    codes.head? = some 45 := by
  unfold isEchoOption at option
  split at option
  · rfl
  · exact absurd option nofun

/-- An option has no other characters than these four. -/
theorem isEchoOption_eq_false {codes : List Nat} {code : Nat} (member : code ∈ codes)
    (other : code ≠ 45 ∧ code ≠ 110 ∧ code ≠ 101 ∧ code ≠ 69) : isEchoOption codes = false := by
  unfold isEchoOption
  split
  next letter rest =>
    rcases List.mem_cons.mp member with dash | within
    · exact absurd dash other.1
    · apply Bool.eq_false_iff.mpr
      intro all
      have isLetter := List.all_eq_true.mp all code within
      simp only [Bool.or_eq_true, beq_iff_eq] at isLetter
      rcases isLetter with (isN | isE) | isCapitalE
      · exact other.2.1 isN
      · exact other.2.2.1 isE
      · exact other.2.2.2 isCapitalE
  next => rfl

/-! ## Text over an alphabet

The script treats a text as bytes or as characters, whichever its locale says; most
of it does the same to both. -/

/-- The symbols a text is made of: those of the ASCII characters, and the code of each. -/
structure Alphabet (α : Type) where
  symbol : Char -> α
  code : α -> Nat

/-- Texts of bytes. -/
def bytes : Alphabet UInt8 := ⟨fun char => UInt8.ofNat char.toNat, UInt8.toNat⟩

/-- Texts of characters. -/
def characters : Alphabet Char := ⟨id, Char.toNat⟩

/-- An ASCII literal. -/
def Alphabet.text (alphabet : Alphabet α) (literal : String) : List α :=
  literal.toList.map alphabet.symbol

/-- What `echo` prints. -/
def Alphabet.echo (alphabet : Alphabet α) (text : List α) : List α :=
  Client.echo alphabet.code (alphabet.symbol '\n') text

section Text

variable [DecidableEq α]

/-- `$(...)`: the output of a command without its trailing newlines. -/
def Alphabet.captured (alphabet : Alphabet α) (output : List α) : List α :=
  output.rdropWhile (fun symbol => symbol = alphabet.symbol '\n')

/-- `sed 's/"/\\"/g'`: a backslash before each quote. -/
def Alphabet.quoted (alphabet : Alphabet α) (text : List α) : List α :=
  text.flatMap (fun symbol =>
    if symbol = alphabet.symbol '"' then [alphabet.symbol '\\', symbol] else [symbol])

variable {alphabet : Alphabet α} {text : List α}

/-- Output that ends without a newline is captured as it is. -/
theorem Alphabet.captured_of_free (free : alphabet.symbol '\n' ∉ text) :
    alphabet.captured text = text := by
  rw [Alphabet.captured, List.rdropWhile_eq_self_iff]
  intro some newline
  exact free (of_decide_eq_true newline ▸ List.getLast_mem some)

/-- So is a line, without its newline. -/
theorem Alphabet.captured_line (free : alphabet.symbol '\n' ∉ text) :
    alphabet.captured (text ++ [alphabet.symbol '\n']) = text := by
  rw [Alphabet.captured, List.rdropWhile_concat_pos _ _ _ (by simp)]
  exact Alphabet.captured_of_free free

/-- What `echo` prints of a text without newlines is captured again. -/
theorem Alphabet.captured_echo (plain : isEchoOption (text.map alphabet.code) = false)
    (free : alphabet.symbol '\n' ∉ text) : alphabet.captured (alphabet.echo text) = text := by
  rw [Alphabet.echo, echo_of_not_option plain, Alphabet.captured_line free]

/-- So is a text that ends with another symbol than a newline. -/
theorem Alphabet.captured_echo_concat {symbol : α} (other : symbol ≠ alphabet.symbol '\n')
    (plain : isEchoOption ((text ++ [symbol]).map alphabet.code) = false) :
    alphabet.captured (alphabet.echo (text ++ [symbol])) = text ++ [symbol] := by
  rw [Alphabet.echo, echo_of_not_option plain, Alphabet.captured,
    List.rdropWhile_concat_pos _ _ _ (by simp), List.rdropWhile_concat_neg _ _ _ (by simpa using other)]

/-- Of an option nothing is captured. -/
theorem Alphabet.captured_option (option : isEchoOption (text.map alphabet.code) = true) :
    alphabet.captured (alphabet.echo text) = [] := by
  rw [Alphabet.captured, List.rdropWhile_eq_nil_iff]
  intro symbol member
  exact decide_eq_true (mem_echo_of_option option member)

/-- A text without quotes stays as it is. -/
theorem Alphabet.quoted_of_free (free : alphabet.symbol '"' ∉ text) : alphabet.quoted text = text := by
  induction text with
  | nil => rfl
  | cons symbol text inductionHypothesis =>
      have differs : symbol ≠ alphabet.symbol '"' := fun same => free (same ▸ List.mem_cons_self)
      rw [Alphabet.quoted, List.flatMap_cons, if_neg differs]
      exact congrArg _ (inductionHypothesis (fun member => free (List.mem_cons_of_mem symbol member)))

/-- Only backslashes are added. -/
theorem Alphabet.mem_of_mem_quoted {symbol : α} (member : symbol ∈ alphabet.quoted text)
    (differs : symbol ≠ alphabet.symbol '\\') : symbol ∈ text := by
  rcases List.mem_flatMap.mp member with ⟨source, inText, here⟩
  split at here
  · rcases List.mem_cons.mp here with backslash | same
    · exact absurd backslash differs
    · exact List.mem_singleton.mp same ▸ inText
  · exact List.mem_singleton.mp here ▸ inText

end Text

/-! ## Numbers -/

/-- A word the shell takes for a number: digits with an optional minus sign, within the
range of a 64-bit integer. -/
def legalNumber (word : List UInt8) : Option Int :=
  match word with
  | 45 :: digits =>
      if digits ≠ [] ∧ digits.all isDigit = true ∧ digitsValue 10 digits ≤ 2 ^ 63 then
        some (-(digitsValue 10 digits : Int))
      else none
  | digits =>
      if digits ≠ [] ∧ digits.all isDigit = true ∧ digitsValue 10 digits < 2 ^ 63 then
        some (digitsValue 10 digits : Int)
      else none

/-- The status of a function that ends with `return "$word"` after a command that
succeeded.  `--` ends the options and leaves no argument; a word that is no number
makes `return` fail with 2. -/
def returnStatus (word : List UInt8) : Nat :=
  if word = [45, 45] then 0
  else
    match legalNumber word with
    | some value => (value % 256).toNat
    | none => 2

theorem all_isDigit_formatDec (value : Nat) : (formatDec (value : Int)).all isDigit = true :=
  List.all_eq_true.mpr (fun _ member => isDigit_of_mem_formatDec member)

/-- A number the shell prints is a number for the shell. -/
theorem legalNumber_formatDec {value : Int} (low : -(2 ^ 63 : Nat) ≤ value)
    (high : value < (2 ^ 63 : Nat)) : legalNumber (formatDec value) = some value := by
  by_cases negative : value < 0
  · have magnitude : value = -(value.natAbs : Int) := by omega
    have small : value.natAbs ≤ 2 ^ 63 := by omega
    rw [magnitude, formatDec_neg (by omega), legalNumber,
      if_pos ⟨formatDec_ne_nil _, all_isDigit_formatDec _, by rw [digitsValue_formatDec]; exact small⟩,
      digitsValue_formatDec]
  · have magnitude : value = (value.natAbs : Int) := by omega
    have small : value.natAbs < 2 ^ 63 := by omega
    have digits := all_isDigit_formatDec value.natAbs
    have number : digitsValue 10 (formatDec (value.natAbs : Int)) < 2 ^ 63 := by
      rw [digitsValue_formatDec]
      exact small
    rw [magnitude]
    unfold legalNumber
    split
    next rest shape =>
      rw [shape] at digits
      exact absurd digits nofun
    next => rw [if_pos ⟨formatDec_ne_nil _, digits, number⟩, digitsValue_formatDec]

theorem returnStatus_formatDec {value : Int} (low : -(2 ^ 63 : Nat) ≤ value)
    (high : value < (2 ^ 63 : Nat)) : returnStatus (formatDec value) = (value % 256).toNat := by
  have number := legalNumber_formatDec low high
  have notDashes : formatDec value ≠ [45, 45] := by
    intro dashes
    rw [dashes] at number
    exact absurd number nofun
  rw [returnStatus, if_neg notDashes, number]

end Client
end AdbBridge
