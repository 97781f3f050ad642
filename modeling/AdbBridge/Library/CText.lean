import AdbBridge.Library.Lines
import AdbBridge.Library.Numeral

namespace Library
namespace CText

open Numeral

/-!
# Constant arrays in C

A compiler reads a text of constant arrays in the phases of the language: comments become
blanks, the lines are cut into tokens, directives choose the lines that count, and each
declaration up to its semicolon defines one object.  A text with anything else in it
(literals, other directives, other declarations) is not read.
-/

/-! ## Comments -/

/-- Where a text is left off: between comments, behind a slash, inside of a comment, or
behind a star in it. -/
inductive Place where
  | code
  | slash
  | comment
  | star
deriving DecidableEq, Repr

/-- Bytes with a meaning of their own in this phase: quotes and the backslash. -/
def isOpening (byte : UInt8) : Bool := byte == 34 || byte == 39 || byte == 92

/-- Each comment is replaced by a blank. -/
def withoutComments : Place -> List UInt8 -> Option (List UInt8)
  | .code, [] => some []
  | _, [] => none
  | .code, byte :: rest =>
      if byte = 47 then withoutComments .slash rest
      else if isOpening byte then none
      else (withoutComments .code rest).map (fun text => byte :: text)
  | .slash, byte :: rest => if byte = 42 then withoutComments .comment rest else none
  | .comment, byte :: rest => withoutComments (if byte = 42 then .star else .comment) rest
  | .star, byte :: rest =>
      if byte = 47 then (withoutComments .code rest).map (fun text => 32 :: text)
      else withoutComments (if byte = 42 then .star else .comment) rest

/-- A text in which no comment begins. -/
def Plain (text : List UInt8) : Prop := forall byte, byte ∈ text -> byte ≠ 47 ∧ isOpening byte = false

instance (text : List UInt8) : Decidable (Plain text) :=
  List.decidableBAll (fun byte => byte ≠ 47 ∧ isOpening byte = false) text

theorem Plain.append {first second : List UInt8} (firstPlain : Plain first) (secondPlain : Plain second) :
    Plain (first ++ second) := by
  intro byte member
  rcases List.mem_append.mp member with inFirst | inSecond
  · exact firstPlain byte inFirst
  · exact secondPlain byte inSecond

theorem withoutComments_plain {text : List UInt8} (plain : Plain text) (rest : List UInt8) :
    withoutComments .code (text ++ rest) = (withoutComments .code rest).map (fun later => text ++ later) := by
  induction text with
  | nil => simp
  | cons byte text inductionHypothesis =>
      have here := plain byte List.mem_cons_self
      have later := inductionHypothesis (fun other member => plain other (List.mem_cons_of_mem byte member))
      rw [List.cons_append, withoutComments, if_neg here.1, if_neg (by simp [here.2]), later, Option.map_map]
      rfl

private theorem withoutComments_inside {text : List UInt8} (noStar : 42 ∉ text) (rest : List UInt8) :
    withoutComments .comment (text ++ rest) = withoutComments .comment rest := by
  induction text with
  | nil => rfl
  | cons byte text inductionHypothesis =>
      have other : byte ≠ 42 := fun same => noStar (same ▸ List.mem_cons_self)
      rw [List.cons_append, withoutComments, if_neg other]
      exact inductionHypothesis (fun member => noStar (List.mem_cons_of_mem byte member))

/-- A comment without stars is a blank. -/
theorem withoutComments_comment {text : List UInt8} (noStar : 42 ∉ text) (rest : List UInt8) :
    withoutComments .code (47 :: 42 :: (text ++ 42 :: 47 :: rest)) =
      (withoutComments .code rest).map (fun later => 32 :: later) := by
  rw [withoutComments, if_pos rfl, withoutComments, if_pos rfl, withoutComments_inside noStar, withoutComments,
    if_pos rfl, withoutComments, if_pos rfl]

/-! ## Tokens -/

/-- An identifier, a keyword or a number, or a mark of one character. -/
inductive Token where
  | word (text : List UInt8)
  | mark (byte : UInt8)
deriving DecidableEq, Repr

def isWordByte (byte : UInt8) : Bool :=
  (48 ≤ byte && byte ≤ 57) || (65 ≤ byte && byte ≤ 90) || (97 ≤ byte && byte ≤ 122) || byte == 95

/-- Brackets, commas, semicolons, the sign of an initializer and the sign of a directive. -/
def isMark (byte : UInt8) : Bool := byte ∈ ascii "[]\x7b\x7d(),;=#"

/-- A byte that ends a word. -/
def separates (byte : UInt8) : Bool := !isWordByte byte && (isBlank byte || isMark byte)

/-- The token a separator is: none if it is a blank. -/
def markOf (byte : UInt8) : List Token := if isBlank byte then [] else [.mark byte]

/-- The word that was being read ends. -/
def endWord (word : List UInt8) (tokens : List Token) : List Token :=
  if word = [] then tokens else .word word :: tokens

/-- The tokens of a text, a word having been begun. -/
def tokensFrom (word : List UInt8) : List UInt8 -> Option (List Token)
  | [] => some (endWord word [])
  | byte :: rest =>
      if isWordByte byte then tokensFrom (word ++ [byte]) rest
      else if separates byte then
        (tokensFrom [] rest).map (fun tokens => endWord word (markOf byte ++ tokens))
      else none

/-- The tokens of a text. -/
def tokens (text : List UInt8) : Option (List Token) := tokensFrom [] text

/-- A text of word bytes. -/
def IsWord (text : List UInt8) : Prop := text ≠ [] ∧ forall byte, byte ∈ text -> isWordByte byte = true

instance (text : List UInt8) : Decidable (IsWord text) :=
  @instDecidableAnd _ _ _ (List.decidableBAll (fun byte => isWordByte byte = true) text)

/-- The bytes of a token. -/
def Token.bytes : Token -> List UInt8
  | .word text => text
  | .mark byte => [byte]

theorem endWord_append (word : List UInt8) (here later : List Token) :
    endWord word (here ++ later) = endWord word here ++ later := by
  unfold endWord
  split_ifs
  · rfl
  · rfl

private theorem tokensFrom_of_all {text : List UInt8} (all : forall byte, byte ∈ text -> isWordByte byte = true)
    (word : List UInt8) : tokensFrom word text = some (endWord (word ++ text) []) := by
  induction text generalizing word with
  | nil => rw [List.append_nil, tokensFrom]
  | cons byte text inductionHypothesis =>
      rw [tokensFrom, if_pos (all byte List.mem_cons_self),
        inductionHypothesis (fun other member => all other (List.mem_cons_of_mem byte member)),
        List.append_assoc, List.singleton_append]

/-- A word is one token. -/
theorem tokens_word {text : List UInt8} (isWord : IsWord text) : tokens text = some [.word text] := by
  rw [tokens, tokensFrom_of_all isWord.2, List.nil_append, endWord, if_neg isWord.1]

private theorem tokensFrom_append {byte : UInt8} (separator : separates byte = true)
    (word text rest : List UInt8) :
    tokensFrom word (text ++ byte :: rest) = (tokensFrom word text).bind (fun here =>
      (tokens rest).map (fun later => here ++ (markOf byte ++ later))) := by
  induction text generalizing word with
  | nil =>
      have noWord : isWordByte byte = false := by
        have both := separator
        rw [separates, Bool.and_eq_true, Bool.not_eq_true'] at both
        exact both.1
      have ended : (fun later => endWord word (markOf byte ++ later)) =
          fun later => endWord word [] ++ (markOf byte ++ later) := by
        funext later
        exact endWord_append word [] (markOf byte ++ later)
      have begun : tokensFrom word (byte :: rest) =
          (tokens rest).map (fun later => endWord word (markOf byte ++ later)) := by
        rw [tokensFrom, if_neg (by simp [noWord]), if_pos separator]
        rfl
      rw [List.nil_append, begun, ended]
      rfl
  | cons first text inductionHypothesis =>
      rw [List.cons_append, tokensFrom, tokensFrom, inductionHypothesis, inductionHypothesis]
      split_ifs
      · rfl
      · rw [Option.map_bind, Option.bind_map]
        apply congrArg (Option.bind _)
        funext here
        rw [Function.comp_apply, Option.map_map]
        apply congrArg (fun change => Option.map change (tokens rest))
        funext later
        rw [Function.comp_apply, ← List.append_assoc, endWord_append]
      · rfl

/-- No token goes beyond a separator. -/
theorem tokens_append {byte : UInt8} (separator : separates byte = true) {text rest : List UInt8}
    {here later : List Token} (before : tokens text = some here) (behind : tokens rest = some later) :
    tokens (text ++ byte :: rest) = some (here ++ (markOf byte ++ later)) := by
  have both := tokensFrom_append separator [] text rest
  rw [behind] at both
  rw [tokens] at before
  rw [before] at both
  exact both

theorem bytes_endWord (word : List UInt8) (tokens : List Token) :
    (endWord word tokens).flatMap Token.bytes = word ++ tokens.flatMap Token.bytes := by
  unfold endWord
  split_ifs with empty
  · rw [empty, List.nil_append]
  · rfl

theorem isBlank_of_isWordByte {byte : UInt8} (isWord : isWordByte byte = true) : isBlank byte = false := by
  by_contra blank
  rw [Bool.not_eq_false, isBlank, Bool.or_eq_true, Bool.or_eq_true, Bool.or_eq_true, beq_iff_eq, beq_iff_eq,
    beq_iff_eq, beq_iff_eq] at blank
  rcases blank with ((rfl | rfl) | rfl) | rfl
  all_goals exact absurd isWord (by decide)

/-- A blank in front of a text. -/
theorem tokens_blank {byte : UInt8} (blank : separates byte = true ∧ isBlank byte = true) {rest : List UInt8}
    {found : List Token} (read : tokens rest = some found) : tokens (byte :: rest) = some found := by
  have both := tokens_append blank.1 (by rfl : tokens [] = some []) read
  rw [markOf, if_pos blank.2] at both
  exact both

/-- The end of the last line adds nothing. -/
theorem tokens_of_line {text : List UInt8} {found : List Token} (read : tokens (text ++ [10]) = some found) :
    tokens text = some found := by
  rw [tokens, tokensFrom_append (by decide)] at read
  rcases Option.bind_eq_some_iff.mp read with ⟨here, isHere, behind⟩
  rcases Option.map_eq_some_iff.mp behind with ⟨later, isLater, same⟩
  have nothing : later = [] := (Option.some.inj isLater).symm
  have blank : markOf 10 = [] := by decide
  rw [nothing, blank, List.append_nil, List.append_nil] at same
  rw [tokens, isHere, same]

/-- The tokens of a text are all of it but the blanks. -/
theorem bytes_tokensFrom {word text : List UInt8} {found : List Token}
    (read : tokensFrom word text = some found) :
    found.flatMap Token.bytes = word ++ text.filter (fun byte => !isBlank byte) := by
  induction text generalizing word found with
  | nil =>
      rw [← Option.some.inj read, bytes_endWord]
      rfl
  | cons byte text inductionHypothesis =>
      rw [tokensFrom] at read
      split_ifs at read with isWord separator
      · rw [inductionHypothesis read, List.filter_cons_of_pos (by simp [isBlank_of_isWordByte isWord]),
          List.append_assoc, List.singleton_append]
      · rcases Option.map_eq_some_iff.mp read with ⟨later, isLater, same⟩
        rw [← same, bytes_endWord, List.flatMap_append, inductionHypothesis isLater, List.nil_append, markOf]
        split_ifs with blank
        · rw [List.filter_cons_of_neg (by simp [blank])]
          rfl
        · rw [List.filter_cons_of_pos (by simpa using blank)]
          rfl

/-- The tokens of a text are those of its lines. -/
theorem exists_lines {text : List UInt8} {found : List Token} (read : tokens text = some found) :
    Exists fun ls => (text.splitOn 10).mapM tokens = some ls ∧ ls.flatten = found := by
  by_cases more : 10 ∈ text
  · rcases Lines.exists_first_line more with ⟨line, rest, split, free, pieces⟩
    have whole := read
    rw [split, tokens, tokensFrom_append (by decide)] at whole
    rcases Option.bind_eq_some_iff.mp whole with ⟨here, isHere, behind⟩
    rcases Option.map_eq_some_iff.mp behind with ⟨later, isLater, same⟩
    have shorter : rest.length < text.length := by
      rw [split, List.length_append, List.length_cons]
      omega
    rcases exists_lines isLater with ⟨ls, mapped, flattened⟩
    refine ⟨here :: ls, ?_, ?_⟩
    · rw [pieces, List.mapM_cons, tokens, isHere, mapped]
      rfl
    · rw [List.flatten_cons, flattened]
      exact same
  · refine ⟨[found], ?_, List.flatten_singleton⟩
    rw [List.splitOn_eq_singleton more, List.mapM_cons, read]
    rfl
termination_by text.length

/-! ## Directives -/

/-- The names that are defined, all of them to stand for nothing, and the conditions that
are open, the innermost first. -/
structure Conditions where
  defined : List (List UInt8)
  holding : List Bool
deriving DecidableEq, Repr

namespace Conditions

/-- The lines count. -/
def keeps (conditions : Conditions) : Bool := conditions.holding.all id

/-- `#ifndef`, `#define` and `#endif`. -/
def directive (conditions : Conditions) : List Token -> Option Conditions
  | [.word keyword, .word name] =>
      if keyword = ascii "ifndef" then
        some { conditions with
          holding := conditions.defined.all (fun other => other ≠ name) :: conditions.holding }
      else if keyword = ascii "define" then
        some (if conditions.keeps then
          { conditions with defined := name :: conditions.defined } else conditions)
      else none
  | [.word keyword] =>
      if keyword = ascii "endif" then
        conditions.holding.tail?.map (fun rest => { conditions with holding := rest })
      else none
  | _ => none

/-- A name that is defined is replaced by nothing. -/
def replace (conditions : Conditions) (line : List Token) : List Token :=
  line.filter (fun token => conditions.defined.all (fun name => token ≠ .word name))

end Conditions

/-- The tokens that are left when the directives have been executed. -/
def preprocess (conditions : Conditions) : List (List Token) -> Option (List Token)
  | [] => if conditions.holding = [] then some [] else none
  | line :: rest =>
      if line.head? = some (.mark 35) then
        (conditions.directive line.tail).bind (fun changed => preprocess changed rest)
      else
        (preprocess conditions rest).map (fun later =>
          (if conditions.keeps then conditions.replace line else []) ++ later)

variable {conditions : Conditions} {ls : List (List Token)}

theorem preprocess_directive (conditions : Conditions) (words : List Token) (rest : List (List Token)) :
    preprocess conditions ((.mark 35 :: words) :: rest) =
      (conditions.directive words).bind (fun changed => preprocess changed rest) := if_pos rfl

/-- Lines without directives that count. -/
theorem preprocess_append (keeps : conditions.keeps = true)
    (noDirective : forall line, line ∈ ls -> line.head? ≠ some (.mark 35)) (rest : List (List Token)) :
    preprocess conditions (ls ++ rest) =
      (preprocess conditions rest).map (fun later => conditions.replace ls.flatten ++ later) := by
  induction ls with
  | nil => simp [Conditions.replace]
  | cons line ls inductionHypothesis =>
      rw [List.cons_append, preprocess, if_neg (noDirective line List.mem_cons_self), if_pos keeps,
        inductionHypothesis (fun other member => noDirective other (List.mem_cons_of_mem line member)),
        Option.map_map]
      apply congrArg (fun change => Option.map change (preprocess conditions rest))
      funext later
      rw [Function.comp_apply, List.flatten_cons, Conditions.replace, Conditions.replace, Conditions.replace,
        List.filter_append, List.append_assoc]

/-- The directive that opens a guard or defines its name. -/
def named (keyword name : List UInt8) : List Token := [.mark 35, .word keyword, .word name]

theorem preprocess_named (conditions : Conditions) (keyword name : List UInt8) (rest : List (List Token)) :
    preprocess conditions (named keyword name :: rest) =
      (conditions.directive [.word keyword, .word name]).bind (fun changed => preprocess changed rest) :=
  preprocess_directive _ _ _

/-- What an include guard encloses is read once. -/
theorem preprocess_guarded {name : List UInt8} {tail : List (List Token)}
    (absent : forall line, line ∈ ls -> Token.word name ∉ line)
    (noDirective : forall line, line ∈ ls -> line.head? ≠ some (.mark 35))
    (closes : preprocess ⟨[name], [true]⟩ tail = some []) :
    preprocess ⟨[], []⟩ (named (ascii "ifndef") name :: named (ascii "define") name :: (ls ++ tail)) =
      some ls.flatten := by
  have differs : ascii "define" ≠ ascii "ifndef" := by decide
  have kept : Conditions.replace ⟨[name], [true]⟩ ls.flatten = ls.flatten := by
    apply List.filter_eq_self.mpr
    intro token member
    rcases List.mem_flatten.mp member with ⟨line, isLine, inLine⟩
    have other : token ≠ .word name := fun same => absent line isLine (same ▸ inLine)
    simpa using other
  have inside : preprocess ⟨[name], [true]⟩ (ls ++ tail) = some ls.flatten := by
    rw [preprocess_append (by rfl) noDirective, closes, Option.map_some, List.append_nil, kept]
  rw [preprocess_named, Conditions.directive, if_pos rfl, Option.bind_some, preprocess_named,
    Conditions.directive,
    if_neg differs, if_pos rfl, Option.bind_some]
  exact inside

/-- The directive that ends a condition. -/
def endif : List Token := [.mark 35, .word (ascii "endif")]

/-- What a directive does: it opens a condition, defines a name, or ends a condition. -/
theorem Conditions.directive_cases {words : List Token} {after : Conditions}
    (changed : conditions.directive words = some after) :
    after.holding ≠ [] ∨
      (Exists fun name => words = [.word (ascii "define"), .word name] ∧ after.holding = conditions.holding) ∨
        words = [.word (ascii "endif")] := by
  unfold Conditions.directive at changed
  split at changed
  next keyword name =>
    split_ifs at changed with opens defines keeps
    · rw [← Option.some.inj changed]
      exact Or.inl (List.cons_ne_nil _ _)
    · rw [← Option.some.inj changed, defines]
      exact Or.inr (Or.inl ⟨name, rfl, rfl⟩)
    · rw [← Option.some.inj changed, defines]
      exact Or.inr (Or.inl ⟨name, rfl, rfl⟩)
  next keyword =>
    rcases Option.ite_none_right_eq_some.mp changed with ⟨isEnd, _⟩
    exact Or.inr (Or.inr (isEnd ▸ rfl))
  · cases changed

/-- A condition that is never ended: the text is not read. -/
theorem preprocess_unended (isOpen : conditions.holding ≠ []) (noEnd : endif ∉ ls) :
    preprocess conditions ls = none := by
  induction ls generalizing conditions with
  | nil => rw [preprocess, if_neg isOpen]
  | cons line ls inductionHypothesis =>
      have later : endif ∉ ls := fun member => noEnd (List.mem_cons_of_mem line member)
      by_cases directs : line.head? = some (.mark 35)
      · rcases List.head?_eq_some_iff.mp directs with ⟨words, rfl⟩
        rw [preprocess_directive]
        cases changed : conditions.directive words with
        | none => rfl
        | some after =>
            apply inductionHypothesis _ later
            rcases Conditions.directive_cases changed with opens | ⟨name, _, same⟩ | isEnd
            · exact opens
            · rw [same]
              exact isOpen
            · exact absurd (isEnd ▸ List.mem_cons_self) noEnd
      · rw [preprocess, if_neg directs, inductionHypothesis isOpen later]
        rfl

/-- A text that opens a condition and never ends it is not read. -/
theorem preprocess_cut {first : List Token} (directs : first.head? = some (.mark 35))
    (noDefine : forall name, first ≠ named (ascii "define") name) (noEnd : endif ∉ first :: ls) :
    preprocess ⟨[], []⟩ (first :: ls) = none := by
  rcases List.head?_eq_some_iff.mp directs with ⟨words, rfl⟩
  rw [preprocess_directive]
  cases changed : Conditions.directive ⟨[], []⟩ words with
  | none => rfl
  | some after =>
      apply preprocess_unended _ (fun member => noEnd (List.mem_cons_of_mem _ member))
      rcases Conditions.directive_cases changed with opens | ⟨name, defines, _⟩ | isEnd
      · exact opens
      · exact absurd (defines ▸ rfl) (noDefine name)
      · exact absurd (isEnd ▸ List.mem_cons_self) noEnd

/-! ## Declarations -/

/-- The value of a hexadecimal constant. -/
def number : List UInt8 -> Option Nat
  | zero :: x :: digits =>
      if zero = 48 ∧ x = 120 ∧ digits ≠ [] ∧ digits.all isHexDigit then some (digitsValue 16 digits) else none
  | _ => none

/-- The constants up to the brace that closes them, behind which nothing may be left.  There may
be a comma behind the last one. -/
def initializers : List Token -> Option (List UInt8)
  | [.mark brace] => if brace = 125 then some [] else none
  | .word constant :: .mark separator :: rest =>
      (number constant).bind (fun value =>
        if separator = 44 then (initializers rest).map (fun values => UInt8.ofNat value :: values)
        else if separator = 125 ∧ rest = [] then some [UInt8.ofNat value] else none)
  | _ => none

/-- The constant objects of a text, by their names: arrays of bytes, and numbers. -/
structure Objects where
  arrays : List (List UInt8 × List UInt8)
  numbers : List (List UInt8 × Nat)
deriving DecidableEq, Repr

namespace Objects

def array (objects : Objects) (name : List UInt8) : Option (List UInt8) := objects.arrays.lookup name

def number (objects : Objects) (name : List UInt8) : Option Nat := objects.numbers.lookup name

/-- No object has the name yet. -/
def isNew (objects : Objects) (name : List UInt8) : Bool :=
  (objects.array name).isNone && (objects.number name).isNone

end Objects

/-- The keyword `static` and the qualifier and type behind it. -/
def specifiers (type : String) : List Token :=
  [.word (ascii "static"), .word (ascii "const"), .word (ascii "unsigned"), .word (ascii type)]

/-- The constants of an array: there is at least one. -/
def arrayOf (tokens : List Token) : Option (List UInt8) :=
  (initializers tokens).bind (fun values => if values = [] then none else some values)

/-- A declaration without its semicolon: an array with its constants, or the size of an array
as a number of 32 bits. -/
def declare (objects : Objects) (declaration : List Token) : Option Objects :=
  match declaration.drop 4 with
  | .word name :: rest =>
      if objects.isNew name = false then none
      else if declaration.take 4 = specifiers "char" ∧ rest.take 4 =
        [.mark 91, .mark 93, .mark 61, .mark 123] then
        (arrayOf (rest.drop 4)).map (fun values =>
          { objects with arrays := (name, values) :: objects.arrays })
      else if declaration.take 4 = specifiers "int" ∧ rest.take 3 =
        [.mark 61, .word (ascii "sizeof"), .mark 40] then
        match rest.drop 3 with
        | [.word other, .mark 41] => (objects.array other).map (fun values =>
            { objects with numbers := (name, values.length % 4294967296) :: objects.numbers })
        | _ => none
      else none
  | _ => none

/-- The declarations of a text: nothing may stand behind the last semicolon. -/
def declareAll (objects : Objects) (tokens : List Token) : Option Objects :=
  if (tokens.splitOn (.mark 59)).getLast? = some [] then
    (Lines.lines (.mark 59) tokens).foldlM declare objects
  else none

/-- The objects of a text without comments. -/
def readPlain (plain : List UInt8) : Option Objects :=
  ((plain.splitOn 10).mapM tokens).bind (fun ls => (preprocess ⟨[], []⟩ ls).bind (declareAll ⟨[], []⟩))

/-- The objects of a text. -/
def read (text : List UInt8) : Option Objects := (withoutComments .code text).bind readPlain

/-! ## What such texts define -/

variable {objects : Objects} {name other : List UInt8} {values : List UInt8} {spell : UInt8 -> List UInt8}

/-- Constants with a comma behind each are read as their values. -/
theorem initializers_constants (spelled : forall value, number (spell value) = some value.toNat)
    (values : List UInt8) :
    initializers (values.flatMap (fun value => [.word (spell value), .mark 44]) ++ [.mark 125]) =
      some values := by
  induction values with
  | nil => rfl
  | cons value values inductionHypothesis =>
      rw [List.flatMap_cons, List.append_assoc, List.cons_append, List.cons_append, List.nil_append,
        initializers,
        spelled, Option.bind_some, if_pos rfl, inductionHypothesis, Option.map_some, UInt8.ofNat_toNat]

/-- The tokens of an array up to its semicolon. -/
def arrayTokens (name : List UInt8) (spell : UInt8 -> List UInt8) (values : List UInt8) : List Token :=
  specifiers "char" ++ .word name :: ([.mark 91, .mark 93, .mark 61, .mark 123] ++
    (values.flatMap (fun value => [.word (spell value), .mark 44]) ++ [.mark 125]))

/-- The tokens of the size of an array up to the semicolon. -/
def sizeTokens (name other : List UInt8) : List Token :=
  specifiers "int" ++ .word name :: [.mark 61, .word (ascii "sizeof"), .mark 40, .word other, .mark 41]

theorem semicolon_not_mem_arrayTokens (name : List UInt8) (spell : UInt8 -> List UInt8) (values : List UInt8) :
    Token.mark 59 ∉ arrayTokens name spell values := by
  simp [arrayTokens, specifiers]

theorem semicolon_not_mem_sizeTokens (name other : List UInt8) : Token.mark 59 ∉ sizeTokens name other := by
  simp [sizeTokens, specifiers]

theorem declare_array (isNew : objects.isNew name = true) (some_ : values ≠ [])
    (spelled : forall value, number (spell value) = some value.toNat) :
    declare objects (arrayTokens name spell values) =
      some { objects with arrays := (name, values) :: objects.arrays } := by
  have behind : (arrayTokens name spell values).drop 4 =
    .word name :: ([.mark 91, .mark 93, .mark 61, .mark 123] ++
      (values.flatMap (fun value => [.word (spell value), .mark 44]) ++ [.mark 125])) := rfl
  have before : (arrayTokens name spell values).take 4 = specifiers "char" := rfl
  rw [declare, behind]
  dsimp only
  rw [isNew, if_neg (by decide), before, if_pos ⟨rfl, rfl⟩]
  change (arrayOf (values.flatMap (fun value => [.word (spell value), .mark 44]) ++ [.mark 125])).map _ = _
  rw [arrayOf, initializers_constants spelled, Option.bind_some, if_neg some_, Option.map_some]

theorem declare_size (isNew : objects.isNew name = true) (found : objects.array other = some values) :
    declare objects (sizeTokens name other) =
      some { objects with numbers := (name, values.length % 4294967296) :: objects.numbers } := by
  have behind : (sizeTokens name other).drop 4 =
      .word name :: [.mark 61, .word (ascii "sizeof"), .mark 40, .word other, .mark 41] := rfl
  have before : (sizeTokens name other).take 4 = specifiers "int" := rfl
  have differs : specifiers "int" ≠ specifiers "char" := by decide
  rw [declare, behind]
  dsimp only
  rw [isNew, if_neg (by decide), before, if_neg (fun both => differs both.1), if_pos ⟨rfl, rfl⟩]
  change (objects.array other).map _ = _
  rw [found]
  rfl

/-- Declarations with a semicolon behind each are taken one after the other. -/
theorem declareAll_unlines {declarations : List (List Token)}
    (free : forall declaration, declaration ∈ declarations -> Token.mark 59 ∉ declaration) (objects : Objects) :
    declareAll objects (Lines.unlines (.mark 59) declarations) = declarations.foldlM declare objects := by
  have last : ((Lines.unlines (.mark 59) declarations).splitOn (.mark 59)).getLast? = some [] := by
    induction declarations with
    | nil => rfl
    | cons declaration declarations inductionHypothesis =>
        have later := inductionHypothesis (fun other member => free other (List.mem_cons_of_mem _ member))
        rw [Lines.unlines_cons, List.splitOn_append_cons_self_of_not_mem (free declaration List.mem_cons_self),
          List.getLast?_cons, later]
        rfl
  rw [declareAll, if_pos last, Lines.lines_unlines free]

/-- No byte of a word has a meaning in the first two phases. -/
theorem IsWord.plain {byte : UInt8} (isName : IsWord name) (member : byte ∈ name) :
    byte ≠ 47 ∧ isOpening byte = false ∧ byte ≠ 10 := by
  have isByte := isName.2 byte member
  refine ⟨?_, ?_, ?_⟩
  · rintro rfl
    exact absurd isByte (by decide)
  · by_contra opening
    rw [Bool.not_eq_false, isOpening, Bool.or_eq_true, Bool.or_eq_true, beq_iff_eq, beq_iff_eq, beq_iff_eq]
      at opening
    rcases opening with (rfl | rfl) | rfl
    all_goals exact absurd isByte (by decide)
  · rintro rfl
    exact absurd isByte (by decide)

/-! ## Include guards -/

section Guards

variable {body : List UInt8}

/-- The line that opens a guard. -/
def ifndefLine (name : List UInt8) : List UInt8 := ascii "#ifndef" ++ 32 :: name

/-- The line that defines its name. -/
def defineLine (name : List UInt8) : List UInt8 := ascii "#define" ++ 32 :: name

/-- The lines of a guard around a text, up to the one that ends it. -/
def opened (name body : List UInt8) : List UInt8 :=
  ifndefLine name ++ 10 :: (defineLine name ++ 10 :: (body ++ [10]))

/-- A comment. -/
def comment (text : List UInt8) : List UInt8 := 47 :: 42 :: (text ++ [42, 47])

theorem lineFree_of_word {keyword : List UInt8} (isName : IsWord name) (free : 10 ∉ keyword) :
    10 ∉ keyword ++ 32 :: name := by
  intro member
  rcases List.mem_append.mp member with inKeyword | inName
  · exact free inKeyword
  · rcases List.mem_cons.mp inName with blank | later
    · exact absurd blank (by decide)
    · exact (isName.plain later).2.2 rfl

/-- The lines behind such a text are cut on their own. -/
theorem splitOn_opened (isName : IsWord name) (body tail : List UInt8) :
    (opened name body ++ tail).splitOn 10 =
      ifndefLine name :: defineLine name :: (body.splitOn 10 ++ tail.splitOn 10) := by
  have shape : opened name body ++ tail =
      ifndefLine name ++ 10 :: (defineLine name ++ 10 :: (body ++ 10 :: tail)) := by
    simp only [opened, List.append_assoc, List.cons_append, List.nil_append]
  have first : 10 ∉ ifndefLine name := lineFree_of_word isName (by decide)
  have second : 10 ∉ defineLine name := lineFree_of_word isName (by decide)
  rw [shape, List.splitOn_append_cons_self_of_not_mem first, List.splitOn_append_cons_self_of_not_mem second,
    List.splitOn_append_cons_self]

theorem plain_opened (isName : IsWord name) (plain : Plain body) : Plain (opened name body) := by
  have namePlain : Plain name := fun byte member => ⟨(isName.plain member).1, (isName.plain member).2.1⟩
  have spaces : ascii "#ifndef " = ascii "#ifndef" ++ [32] ∧ ascii "#define " =
    ascii "#define" ++ [32] := by decide
  have parts : Plain (ascii "#ifndef " ++ name ++ ([10] ++ ascii "#define ") ++ name ++ [10] ++ body ++ [10]) :=
    ((((((Plain.append (by decide) namePlain).append (by decide)).append namePlain).append (by decide)).append
      plain).append (by decide))
  rw [spaces.1, spaces.2] at parts
  simpa only [opened, ifndefLine, defineLine, List.append_assoc, List.cons_append, List.nil_append,
    List.singleton_append] using parts

/-- A text that a guard encloses defines what its declarations define. -/
theorem readPlain_guarded {found : List Token} {tail : List UInt8} {tailLines : List (List Token)}
    (isName : IsWord name) (isBody : tokens body = some found) (noDirective : Token.mark 35 ∉ found)
    (absent : Token.word name ∉ found) (isTail : (tail.splitOn 10).mapM tokens = some tailLines)
    (closes : preprocess ⟨[name], [true]⟩ tailLines = some []) :
    readPlain (32 :: 10 :: (opened name body ++ tail)) = declareAll ⟨[], []⟩ found := by
  rcases exists_lines isBody with ⟨ls, isLines, flattened⟩
  have within : forall {token : Token} {line : List Token}, line ∈ ls -> token ∈ line -> token ∈ found :=
    fun isLine inLine => flattened ▸ List.mem_flatten.mpr ⟨_, isLine, inLine⟩
  have guard := preprocess_guarded (fun line isLine inLine => absent (within isLine inLine)) (by
    intro line isLine starts
    exact noDirective (within isLine (List.mem_of_mem_head? starts))) closes
  have blankLine := @preprocess_append ⟨[], []⟩ [[]] rfl (by simp)
    (named (ascii "ifndef") name :: named (ascii "define") name :: (ls ++ tailLines))
  rw [List.singleton_append, guard, flattened] at blankLine
  have opening : tokens (ifndefLine name) = some (named (ascii "ifndef") name) := by
    have keyword : tokens (ascii "#ifndef") = some [.mark 35, .word (ascii "ifndef")] := by decide
    exact @tokens_append 32 (by decide) _ _ _ _ keyword (tokens_word isName)
  have defining : tokens (defineLine name) = some (named (ascii "define") name) := by
    have keyword : tokens (ascii "#define") = some [.mark 35, .word (ascii "define")] := by decide
    exact @tokens_append 32 (by decide) _ _ _ _ keyword (tokens_word isName)
  have cut : (32 :: 10 :: (opened name body ++ tail)).splitOn 10 =
      [[32], ifndefLine name, defineLine name] ++ (body.splitOn 10 ++ tail.splitOn 10) := by
    have first := List.splitOn_append_cons_self_of_not_mem (by decide : (10 : UInt8) ∉ [32])
      (opened name body ++ tail)
    rw [List.singleton_append] at first
    rw [first, splitOn_opened isName]
    rfl
  have blank : tokens [32] = some [] := by decide
  have mapped : ((32 :: 10 :: (opened name body ++ tail)).splitOn 10).mapM tokens =
      some ([] :: named (ascii "ifndef") name :: named (ascii "define") name :: (ls ++ tailLines)) := by
    rw [cut, List.mapM_append, List.mapM_append, isLines, isTail, List.mapM_cons, List.mapM_cons,
      List.mapM_cons,
      blank, opening, defining]
    rfl
  rw [readPlain, mapped, Option.bind_some, blankLine]
  rfl

/-! ## Guards that are cut off -/

/-- The beginning of a comment is not read, unless it is all of it or nothing. -/
theorem withoutComments_of_beginning {text part : List UInt8} (noStar : 42 ∉ text)
    (begins : part <+: comment text) :
    withoutComments .code part = none ∨ part = [] ∨ part = comment text := by
  rcases List.prefix_cons_iff.mp begins with rfl | ⟨afterSlash, rfl, behindSlash⟩
  · exact Or.inr (Or.inl rfl)
  · rcases List.prefix_cons_iff.mp behindSlash with rfl | ⟨inside, rfl, behindStar⟩
    · exact Or.inl rfl
    · rw [withoutComments, if_pos rfl, withoutComments, if_pos rfl]
      have shape : text ++ [42, 47] = text ++ [42] ++ [47] := by
        rw [List.append_assoc]
        rfl
      rw [shape] at behindStar
      rcases List.prefix_concat_iff.mp behindStar with whole | short
      · right
        right
        rw [comment, shape, whole]
      · left
        rcases List.prefix_concat_iff.mp short with star | inText
        · rw [star, withoutComments_inside noStar]
          rfl
        · have free : 42 ∉ inside := fun member => noStar (inText.subset member)
          have ended := withoutComments_inside free []
          rw [List.append_nil] at ended
          rw [ended]
          rfl

/-- The second byte of a line that does not begin with a blank. -/
theorem second_of_beginning {line rest more : List UInt8} {first second other : UInt8}
    (begins : line <+: first :: second :: rest) (noBlank : isBlank first = false ∧ isBlank second = false)
    (isText : line.filter (fun byte => !isBlank byte) = first :: other :: more) : other = second := by
  rcases List.prefix_cons_iff.mp begins with rfl | ⟨afterFirst, rfl, behindFirst⟩
  · cases isText
  · rcases List.prefix_cons_iff.mp behindFirst with rfl | ⟨afterSecond, rfl, _⟩
    · rw [List.filter_cons_of_pos (by simp [noBlank.1]), List.filter_nil] at isText
      cases isText
    · rw [List.filter_cons_of_pos (by simp [noBlank.1]),
        List.filter_cons_of_pos (by simp [noBlank.2])] at isText
      exact (List.cons.inj (List.cons.inj isText).2).1.symm

/-- No line before the last ends a guard, and the last does not if it is cut off. -/
theorem not_endif_of_beginning {part line : List UInt8} (isName : IsWord name) (noSign : 35 ∉ body)
    (begins : part <+: opened name body ++ ascii "#endi") (isLine : line ∈ part.splitOn 10) :
    tokens line ≠ some endif := by
  intro isEnd
  have isText : line.filter (fun byte => !isBlank byte) = 35 :: 101 :: ascii "ndif" :=
    (bytes_tokensFrom isEnd).symm
  rcases begins with ⟨more, whole⟩
  rcases @Lines.splitOn_of_beginning UInt8 10 _ part more with ⟨first, last, cut, later, short, long⟩
  have isBeginning : Exists fun complete =>
      complete ∈ (opened name body ++ ascii "#endi").splitOn 10 ∧ line <+: complete := by
    rw [short] at isLine
    rw [← whole, long]
    rcases List.mem_append.mp isLine with before | isLast
    · exact ⟨line, List.mem_append_left _ before, List.prefix_refl line⟩
    · rw [List.mem_singleton.mp isLast]
      exact ⟨last ++ cut, List.mem_append_right _ List.mem_cons_self, List.prefix_append last cut⟩
  rcases isBeginning with ⟨complete, member, begins⟩
  rw [splitOn_opened isName] at member
  rcases List.mem_cons.mp member with rfl | member
  · exact absurd (second_of_beginning begins (by decide) isText) (by decide)
  · rcases List.mem_cons.mp member with rfl | member
    · exact absurd (second_of_beginning begins (by decide) isText) (by decide)
    · rcases List.mem_append.mp member with inBody | isLast
      · have sign : 35 ∈ line.filter (fun byte => !isBlank byte) := by
          rw [isText]
          exact List.mem_cons_self
        have inLine : 35 ∈ (body.splitOn 10).flatten :=
          List.mem_flatten.mpr ⟨complete, inBody, begins.subset (List.mem_filter.mp sign).1⟩
        rw [Lines.flatten_splitOn] at inLine
        exact noSign (List.mem_filter.mp inLine).1
      · have single : (ascii "#endi").splitOn 10 = [ascii "#endi"] := by decide
        rw [single, List.mem_singleton] at isLast
        rw [isLast] at begins
        have shorter := begins.length_le
        have length := congrArg List.length isText
        have atMost := List.length_filter_le (fun byte => !isBlank byte) line
        have sizes : (ascii "#endi").length = 5 ∧ (35 :: 101 :: ascii "ndif").length = 6 := by decide
        omega

/-- What is read line by line comes from the lines. -/
theorem exists_of_mem_mapM {lines : List (List UInt8)} {ls : List (List Token)} {line : List Token}
    (mapped : lines.mapM tokens = some ls) (member : line ∈ ls) :
    Exists fun text => text ∈ lines ∧ tokens text = some line := by
  induction lines generalizing ls with
  | nil =>
      rw [List.mapM_nil] at mapped
      rw [← Option.some.inj mapped] at member
      cases member
  | cons text lines inductionHypothesis =>
      rw [List.mapM_cons] at mapped
      rcases Option.bind_eq_some_iff.mp mapped with ⟨first, isFirst, behind⟩
      rcases Option.bind_eq_some_iff.mp behind with ⟨later, isLater, same⟩
      rw [← Option.some.inj same] at member
      rcases List.mem_cons.mp member with here | there
      · exact ⟨text, List.mem_cons_self, here ▸ isFirst⟩
      · rcases inductionHypothesis isLater there with ⟨other, inLines, isOther⟩
        exact ⟨other, List.mem_cons_of_mem text inLines, isOther⟩

/-- A guard that is cut off before its end is not read. -/
theorem readPlain_cut {part : List UInt8} (isName : IsWord name) (noSign : 35 ∉ body) (some_ : part ≠ [])
    (begins : part <+: opened name body ++ ascii "#endi") : readPlain (32 :: 10 :: part) = none := by
  have cut : (32 :: 10 :: part).splitOn 10 = [32] :: part.splitOn 10 :=
    List.splitOn_append_cons_self_of_not_mem (by decide : (10 : UInt8) ∉ [32]) part
  have blank : tokens [32] = some [] := by decide
  rw [readPlain, cut, List.mapM_cons, blank]
  cases mapped : (part.splitOn 10).mapM tokens with
  | none => rfl
  | some ls =>
      have noEnd : endif ∉ ls := by
        intro isEnd
        rcases exists_of_mem_mapM mapped isEnd with ⟨line, isLine, isRead⟩
        exact not_endif_of_beginning isName noSign begins isLine isRead
      -- the first line is a beginning of the line that opens the guard
      rcases begins with ⟨more, whole⟩
      rcases @Lines.splitOn_of_beginning UInt8 10 _ part more with ⟨first, last, rest, later, short, long⟩
      rw [whole, splitOn_opened isName] at long
      have opening : Exists fun line => Exists fun others =>
          part.splitOn 10 = line :: others ∧ line <+: ifndefLine name := by
        cases first with
        | nil => exact ⟨last, [], short, (List.cons.inj long).1 ▸ List.prefix_append last rest⟩
        | cons line first => exact ⟨line, first ++ [last], short, (List.cons.inj long).1 ▸ List.prefix_refl _⟩
      rcases opening with ⟨line, others, isCut, begins⟩
      have sign : Exists fun behind => line = 35 :: behind := by
        rcases List.prefix_cons_iff.mp begins with rfl | ⟨behind, isLine, _⟩
        · cases part with
          | nil => exact absurd rfl some_
          | cons byte part =>
              have isSign : byte = 35 := (List.cons.inj whole).1
              rw [isSign, List.splitOn_cons_eq_if_modifyHead, if_neg (by decide)] at isCut
              cases pieces : part.splitOn 10 with
              | nil => exact absurd pieces (List.splitOn_ne_nil 10 part)
              | cons head tail =>
                  rw [pieces] at isCut
                  cases isCut
        · exact ⟨behind, isLine⟩
      rcases sign with ⟨behind, rfl⟩
      rw [isCut, List.mapM_cons] at mapped
      rcases Option.bind_eq_some_iff.mp mapped with ⟨found, isFound, rest⟩
      rcases Option.bind_eq_some_iff.mp rest with ⟨tail, _, same⟩
      rw [← Option.some.inj same] at noEnd ⊢
      have directs : found.head? = some (.mark 35) := by
        rw [tokens, tokensFrom, if_neg (by decide), if_pos (by decide)] at isFound
        rcases Option.map_eq_some_iff.mp isFound with ⟨later, _, isFound⟩
        rw [← isFound]
        rfl
      have noDefine : forall name, found ≠ named (ascii "define") name := by
        rintro other rfl
        have isText : (35 :: behind).filter (fun byte => !isBlank byte) =
          35 :: 100 :: (ascii "efine" ++ (other ++ [])) :=
          (bytes_tokensFrom isFound).symm
        exact absurd (second_of_beginning begins (by decide) isText) (by decide)
      have unread := @preprocess_append ⟨[], []⟩ [[]] rfl (by simp) (found :: tail)
      rw [preprocess_cut directs noDefine noEnd] at unread
      change (preprocess ⟨[], []⟩ ([[]] ++ (found :: tail))).bind (declareAll ⟨[], []⟩) = none
      rw [unread]
      rfl

theorem beginning_append {text first second : List UInt8} (begins : text <+: first ++ second) :
    text <+: first ∨ Exists fun rest => text = first ++ rest ∧ rest <+: second := by
  rcases List.prefix_or_prefix_of_prefix begins (List.prefix_append first second) with short | ⟨rest, rfl⟩
  · exact Or.inl short
  · exact Or.inr ⟨rest, rfl, (List.prefix_append_right_inj first).mp begins⟩

theorem Plain.beginning {text part : List UInt8} (plain : Plain text) (begins : part <+: text) : Plain part :=
  fun byte member => plain byte (begins.subset member)

theorem withoutComments_comment_append {text : List UInt8} (noStar : 42 ∉ text) (rest : List UInt8) :
    withoutComments .code (comment text ++ rest) =
      (withoutComments .code rest).map (fun later => 32 :: later) := by
  have shape : comment text ++ rest = 47 :: 42 :: (text ++ 42 :: 47 :: rest) := by
    simp only [comment, List.append_assoc, List.cons_append, List.nil_append]
  rw [shape, withoutComments_comment noStar]

variable {banner closing text : List UInt8} {found : Objects}

/-- Behind a comment, a guard that is cut off before its end defines nothing, if it is read at all. -/
theorem read_unfinished (noStar : 42 ∉ banner) (isName : IsWord name) (plain : Plain body) (noSign : 35 ∉ body)
    (begins : text <+: comment banner ++ 10 :: (opened name body ++ ascii "#endi"))
    (isRead : read text = some found) : found = ⟨[], []⟩ := by
  have ended := plain_opened isName plain
  rcases beginning_append begins with short | ⟨rest, rfl, behind⟩
  · rcases withoutComments_of_beginning noStar short with unread | rfl | rfl
    · rw [read, unread] at isRead
      cases isRead
    · exact (Option.some.inj isRead).symm
    · have only := withoutComments_comment_append noStar []
      rw [List.append_nil] at only
      rw [read, only] at isRead
      exact (Option.some.inj isRead).symm
  · rw [read, withoutComments_comment_append noStar] at isRead
    rcases List.prefix_cons_iff.mp behind with rfl | ⟨part, rfl, inGuard⟩
    · exact (Option.some.inj isRead).symm
    · have partPlain : Plain ([10] ++ part) :=
        Plain.append (by decide) ((ended.append (by decide)).beginning inGuard)
      have kept := withoutComments_plain partPlain []
      rw [List.append_nil, List.singleton_append] at kept
      rw [kept] at isRead
      by_cases empty : part = []
      · rw [empty] at isRead
        exact (Option.some.inj isRead).symm
      · have unread := readPlain_cut isName noSign empty inGuard
        change readPlain (32 :: (10 :: part ++ [])) = some found at isRead
        rw [List.append_nil, unread] at isRead
        cases isRead

/-- The whole header: a comment, a guard, and a comment in the line that ends it. -/
def guarded (banner name body closing : List UInt8) : List UInt8 :=
  comment banner ++ 10 :: (opened name body ++ ascii "#endif" ++ 32 :: (comment closing ++ [10]))

variable {declared : List Token}

/-- A header that is read up to the line that ends its guard defines what its declarations define. -/
theorem read_ended {tail kept : List UInt8} (noStar : 42 ∉ banner) (isName : IsWord name) (plain : Plain body)
    (isBody : tokens body = some declared) (noDirective : Token.mark 35 ∉ declared)
    (absent : Token.word name ∉ declared) (isTail : withoutComments .code tail = some kept)
    (lines : ((ascii "#endif" ++ kept).splitOn 10).mapM tokens = some [endif] ∨
      ((ascii "#endif" ++ kept).splitOn 10).mapM tokens = some [endif, []]) :
    read (comment banner ++ 10 :: (opened name body ++ ascii "#endif" ++ tail)) =
      declareAll ⟨[], []⟩ declared := by
  have middle : Plain ([10] ++ (opened name body ++ ascii "#endif")) :=
    Plain.append (by decide) ((plain_opened isName plain).append (by decide))
  have stripped := withoutComments_plain middle tail
  rw [isTail, Option.map_some, List.singleton_append, List.cons_append] at stripped
  have ends : preprocess ⟨[name], [true]⟩ [endif] = some [] := by rfl
  have endsWithLine : preprocess ⟨[name], [true]⟩ [endif, []] = some [] := by rfl
  rw [read, withoutComments_comment_append noStar, stripped, Option.map_some, Option.bind_some,
    List.cons_append,
    List.append_assoc]
  rcases lines with isTail | isTail
  · exact readPlain_guarded isName isBody noDirective absent isTail ends
  · exact readPlain_guarded isName isBody noDirective absent isTail endsWithLine

/-- Of the beginning of a header the compiler reads nothing or what the whole header defines. -/
theorem read_of_beginning (noStar : 42 ∉ banner ∧ 42 ∉ closing) (isName : IsWord name) (plain : Plain body)
    (noSign : 35 ∉ body) (isBody : tokens body = some declared) (noDirective : Token.mark 35 ∉ declared)
    (absent : Token.word name ∉ declared) (begins : text <+: guarded banner name body closing)
    (isRead : read text = some found) :
    found = ⟨[], []⟩ ∨ declareAll ⟨[], []⟩ declared = some found := by
  have shape : guarded banner name body closing =
      comment banner ++ 10 :: (opened name body ++ ascii "#endi") ++ 102 :: 32 ::
        (comment closing ++ [10]) := by
    have word : ascii "#endif" = ascii "#endi" ++ [102] := by decide
    rw [guarded, word]
    simp only [List.append_assoc, List.cons_append, List.nil_append]
  rw [shape] at begins
  rcases beginning_append begins with short | ⟨rest, rfl, behind⟩
  · exact Or.inl (read_unfinished noStar.1 isName plain noSign short isRead)
  · rcases List.prefix_cons_iff.mp behind with rfl | ⟨tail, rfl, behindWord⟩
    · rw [List.append_nil] at isRead
      exact Or.inl (read_unfinished noStar.1 isName plain noSign (List.prefix_refl _) isRead)
    · right
      have whole : comment banner ++ 10 :: (opened name body ++ ascii "#endi") ++ 102 :: tail =
          comment banner ++ 10 :: (opened name body ++ ascii "#endif" ++ tail) := by
        have word : ascii "#endif" = ascii "#endi" ++ [102] := by decide
        rw [word]
        simp only [List.append_assoc, List.cons_append, List.nil_append]
      rw [whole] at isRead
      have ended : forall {kept : List UInt8}, withoutComments .code tail = some kept ->
          (((ascii "#endif" ++ kept).splitOn 10).mapM tokens = some [endif] ∨
            ((ascii "#endif" ++ kept).splitOn 10).mapM tokens = some [endif, []]) ->
          declareAll ⟨[], []⟩ declared = some found := by
        intro kept isTail lines
        rw [← read_ended noStar.1 isName plain isBody noDirective absent isTail lines, isRead]
      have blank : forall rest, withoutComments .code (32 :: rest) =
          (withoutComments .code rest).map (fun later => 32 :: later) :=
        fun rest => withoutComments_plain (by decide : Plain [32]) rest
      rcases List.prefix_cons_iff.mp behindWord with rfl | ⟨last, rfl, behindBlank⟩
      · exact ended rfl (Or.inl (by decide))
      · rcases beginning_append behindBlank with inComment | ⟨newline, rfl, behindComment⟩
        · rcases withoutComments_of_beginning noStar.2 inComment with unread | rfl | rfl
          · have middle : Plain ([10] ++ (opened name body ++ ascii "#endif")) :=
              Plain.append (by decide) ((plain_opened isName plain).append (by decide))
            have stripped := withoutComments_plain middle (32 :: last)
            rw [blank, unread, List.singleton_append, List.cons_append] at stripped
            rw [read, withoutComments_comment_append noStar.1, stripped] at isRead
            cases isRead
          · exact ended rfl (Or.inl (by decide))
          · have only := withoutComments_comment_append noStar.2 []
            rw [List.append_nil] at only
            refine ended (by rw [blank, only]; rfl) (Or.inl (by decide))
        · rcases List.prefix_cons_iff.mp behindComment with rfl | ⟨nothing, rfl, isNothing⟩
          · refine ended (by rw [blank, withoutComments_comment_append noStar.2]; rfl) (Or.inl (by decide))
          · rw [List.prefix_nil.mp isNothing] at ended
            refine ended (by rw [blank, withoutComments_comment_append noStar.2]; rfl) (Or.inr (by decide))

/-- The whole header defines what its declarations define. -/
theorem read_guarded (noStar : 42 ∉ banner ∧ 42 ∉ closing) (isName : IsWord name) (plain : Plain body)
    (isBody : tokens body = some declared) (noDirective : Token.mark 35 ∉ declared)
    (absent : Token.word name ∉ declared) :
    read (guarded banner name body closing) = declareAll ⟨[], []⟩ declared := by
  have isTail : withoutComments .code (32 :: (comment closing ++ [10])) = some [32, 32, 10] := by
    have blank := withoutComments_plain (by decide : Plain [32]) (comment closing ++ [10])
    rw [List.singleton_append] at blank
    rw [blank, withoutComments_comment_append noStar.2]
    rfl
  exact read_ended noStar.1 isName plain isBody noDirective absent isTail (Or.inr (by decide))

end Guards

end CText
end Library
