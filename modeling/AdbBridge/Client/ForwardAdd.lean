import AdbBridge.Handler.JsonBodies

namespace AdbBridge
namespace Client

open Library Library.Numeral Library.Json Cjson Handler

/-!
# `adb-termux.sh forward add`

The script pastes its arguments into a JSON text, and the server takes the forward out of the item
that cJSON makes of it.  Nothing is escaped on the way, but nothing is lost either as long as
there is nothing to escape.
-/

/-! ## The arguments -/

/-- The variables `unix_path`, `target` and `secure` of the loop over the arguments. -/
structure ForwardArgs where
  unixPath : List UInt8
  target : List UInt8
  secure : Bool
deriving DecidableEq, Repr

def secureOption : List UInt8 := ascii "--secure"

def ForwardArgs.arg (args : ForwardArgs) (arg : List UInt8) : ForwardArgs :=
  if arg = secureOption then { args with secure := true }
  else if args.unixPath = [] then { args with unixPath := arg }
  else if args.target = [] then { args with target := arg }
  else args

def parseForwardArgs (args : List (List UInt8)) : ForwardArgs := args.foldl ForwardArgs.arg ⟨[], [], false⟩

/-- `${target%:*}`. -/
def hostOf (target : List UInt8) : List UInt8 :=
  if 58 ∈ target then (target.reverse.dropWhile (· != 58)).tail.reverse else target

/-- `${target##*:}`. -/
def portOf (target : List UInt8) : List UInt8 := (target.reverse.takeWhile (· != 58)).reverse

/-- The text `json`. -/
def forwardJson (unixPath host port : List UInt8) (secure : Bool) : List UInt8 :=
  ascii "\x7b\"unix_path\":\"" ++ unixPath ++ ascii "\",\"host\":\"" ++ host ++ ascii "\",\"port\":" ++ port ++
    ascii ",\"secure\":" ++ (if secure then ascii "true" else ascii "false") ++ ascii "\x7d"

/-- The body that `forward add` sends, unless it prints its usage or an error. -/
def forwardBody (args : List (List UInt8)) : Option (List UInt8) :=
  if args.length < 2 then none
  else
    let found := parseForwardArgs args
    if found.unixPath = [] ∨ found.target = [] then none
    else
      let host := hostOf found.target
      let port := portOf found.target
      if host = [] ∨ port = [] ∨ host = found.target then none
      else some (forwardJson found.unixPath host port found.secure)

/-- The arguments that are not skipped. -/
def significant (args : List (List UInt8)) : List (List UInt8) :=
  args.filter (fun arg => arg ≠ [] ∧ arg ≠ secureOption)

section Arguments

variable {unixPath target : List UInt8} {others : List (List UInt8)}

theorem significant_skip {arg : List UInt8}
    (skipped : arg = [] ∨ arg = secureOption) (args : List (List UInt8)) :
    significant (arg :: args) = significant args := by
  apply List.filter_cons_of_neg
  rcases skipped with rfl | rfl <;> decide

theorem significant_keep {arg : List UInt8} (some_ : arg ≠ []) (other : arg ≠ secureOption)
    (args : List (List UInt8)) : significant (arg :: args) = arg :: significant args :=
  List.filter_cons_of_pos (by simp [some_, other])

theorem secure_cons {arg : List UInt8} (other : arg ≠ secureOption) (args : List (List UInt8)) :
    decide (secureOption ∈ arg :: args) = decide (secureOption ∈ args) := by
  simp [List.mem_cons, Ne.symm other]

/-- With a path and a target, only the option counts. -/
theorem foldl_full (somePath : unixPath ≠ []) (someTarget : target ≠ []) (secure : Bool)
    (args : List (List UInt8)) :
    args.foldl ForwardArgs.arg ⟨unixPath, target, secure⟩ =
      ⟨unixPath, target, secure || decide (secureOption ∈ args)⟩ := by
  induction args generalizing secure with
  | nil => simp
  | cons arg args inductionHypothesis =>
      rw [List.foldl_cons, ForwardArgs.arg]
      by_cases option : arg = secureOption
      · rw [if_pos option, inductionHypothesis, option]
        simp
      · rw [if_neg option, if_neg somePath, if_neg someTarget, inductionHypothesis, secure_cons option]

/-- With a path, the next argument that is not skipped is the target. -/
theorem foldl_path (somePath : unixPath ≠ []) {args : List (List UInt8)}
    (given : significant args = target :: others)
    (secure : Bool) :
    args.foldl ForwardArgs.arg ⟨unixPath, [], secure⟩ =
      ⟨unixPath, target, secure || decide (secureOption ∈ args)⟩ := by
  induction args generalizing secure with
  | nil => cases given
  | cons arg args inductionHypothesis =>
      rw [List.foldl_cons, ForwardArgs.arg]
      by_cases option : arg = secureOption
      · rw [significant_skip (Or.inr option)] at given
        rw [if_pos option, inductionHypothesis given, option]
        simp
      · rw [if_neg option, if_neg somePath, if_pos rfl, secure_cons option]
        by_cases empty : arg = []
        · rw [significant_skip (Or.inl empty)] at given
          rw [empty]
          exact inductionHypothesis given secure
        · rw [significant_keep empty option] at given
          rw [(List.cons.inj given).1]
          exact foldl_full somePath ((List.cons.inj given).1 ▸ empty) secure args

/-- The first two arguments that are not skipped are the path and the target. -/
theorem parseForwardArgs_eq {args : List (List UInt8)}
    (given : significant args = unixPath :: target :: others) :
    parseForwardArgs args = ⟨unixPath, target, decide (secureOption ∈ args)⟩ := by
  have loop : forall (args : List (List UInt8)) secure, significant args = unixPath :: target :: others ->
      args.foldl ForwardArgs.arg ⟨[], [], secure⟩ =
        ⟨unixPath, target, secure || decide (secureOption ∈ args)⟩ := by
    intro args
    induction args with
    | nil =>
        intro secure given
        cases given
    | cons arg args inductionHypothesis =>
        intro secure given
        rw [List.foldl_cons, ForwardArgs.arg]
        by_cases option : arg = secureOption
        · rw [significant_skip (Or.inr option)] at given
          rw [if_pos option, inductionHypothesis _ given, option]
          simp
        · rw [if_neg option, if_pos rfl, secure_cons option]
          by_cases empty : arg = []
          · rw [significant_skip (Or.inl empty)] at given
            rw [empty]
            exact inductionHypothesis secure given
          · rw [significant_keep empty option] at given
            have parts := List.cons.inj given
            rw [parts.1]
            exact foldl_path (parts.1 ▸ empty) parts.2 secure
  rw [parseForwardArgs, loop args false given, Bool.false_or]

end Arguments

/-! ## Host and port -/

theorem reverse_target {port : List UInt8} (host : List UInt8) :
    (host ++ 58 :: port).reverse = port.reverse ++ 58 :: host.reverse := by
  rw [List.reverse_append, List.reverse_cons, List.append_assoc, List.singleton_append]

theorem notColon {port : List UInt8} (noColon : 58 ∉ port) :
    forall byte, byte ∈ port.reverse -> (byte != 58) = true := by
  intro byte member
  rw [bne_iff_ne]
  rintro rfl
  exact noColon (List.mem_reverse.mp member)

theorem hostOf_target {port : List UInt8} (noColon : 58 ∉ port) (host : List UInt8) :
    hostOf (host ++ 58 :: port) = host := by
  rw [hostOf, if_pos (List.mem_append_right _ List.mem_cons_self), reverse_target,
    List.dropWhile_append_of_pos (notColon noColon), List.dropWhile_cons_of_neg (by decide), List.tail_cons,
    List.reverse_reverse]

theorem portOf_target {port : List UInt8} (noColon : 58 ∉ port) (host : List UInt8) :
    portOf (host ++ 58 :: port) = port := by
  rw [portOf, reverse_target, List.takeWhile_append_of_pos (notColon noColon),
    List.takeWhile_cons_of_neg (by decide), List.append_nil, List.reverse_reverse]

/-! ## The value of the text -/

/-- What the text stands for. -/
def forwardValue (unixPath host port : List UInt8) (secure : Bool) : Value :=
  .object [(ascii "unix_path", .string unixPath), (ascii "host", .string host), (ascii "port", .number port),
    (ascii "secure", .bool secure)]

/-- The text, quote by quote. -/
theorem forwardJson_eq (unixPath host port : List UInt8) (secure : Bool) :
    forwardJson unixPath host port secure =
      123 :: 34 :: (ascii "unix_path" ++ 34 :: 58 :: (34 :: (unixPath ++ [34]) ++ 44 ::
      34 :: (ascii "host" ++ 34 :: 58 :: (34 :: (host ++ [34]) ++ 44 ::
      34 :: (ascii "port" ++ 34 :: 58 :: (port ++ 44 ::
      34 :: (ascii "secure" ++ 34 :: 58 ::
        ((if secure then ascii "true" else ascii "false") ++ [125])))))))) := by
  have path_ : ascii "\x7b\"unix_path\":\"" = 123 :: 34 :: (ascii "unix_path" ++ [34, 58, 34]) := by decide
  have host_ : ascii "\",\"host\":\"" = 34 :: 44 :: 34 :: (ascii "host" ++ [34, 58, 34]) := by decide
  have port_ : ascii "\",\"port\":" = 34 :: 44 :: 34 :: (ascii "port" ++ [34, 58]) := by decide
  have secure_ : ascii ",\"secure\":" = 44 :: 34 :: (ascii "secure" ++ [34, 58]) := by decide
  have brace : ascii "\x7d" = [125] := by decide
  rw [forwardJson, path_, host_, port_, secure_, brace]
  simp only [List.append_assoc, List.cons_append, List.nil_append]

theorem plain_names : Json.Plain (ascii "unix_path") ∧ Json.Plain (ascii "host") ∧ Json.Plain (ascii "port") ∧
    Json.Plain (ascii "secure") :=
  ⟨forall_mem_of_all (by decide), forall_mem_of_all (by decide), forall_mem_of_all (by decide),
    forall_mem_of_all (by decide)⟩

variable {unixPath host port : List UInt8}

theorem denotes_forwardJson (plainPath : Json.Plain unixPath) (plainHost : Json.Plain host)
    (numeral : readNumber port = some (port, [])) (secure : Bool) :
    Denotes (forwardJson unixPath host port secure) (forwardValue unixPath host port secure) := by
  have names := plain_names
  have isSecure : Denotes (if secure then ascii "true" else ascii "false") (.bool secure) := by
    cases secure
    · exact denotes_false
    · exact denotes_true
  have last := denotesMembers_last names.2.2.2.spelled isSecure blanks_nil blanks_nil blanks_nil
  have third := denotesMembers_more names.2.2.1.spelled
    (denotes_number numeral) blanks_nil blanks_nil blanks_nil last
  have second := denotesMembers_more names.2.1.spelled (denotes_string plainHost.spelled) blanks_nil blanks_nil
    blanks_nil third
  have first := denotesMembers_more names.1.spelled (denotes_string plainPath.spelled) blanks_nil blanks_nil
    blanks_nil second
  have whole := denotes_object blanks_nil first
  rw [forwardJson_eq]
  simp only [List.nil_append, List.append_nil, List.append_assoc, List.cons_append] at whole ⊢
  exact whole

theorem plain_noZero {text : List UInt8} (plain : Json.Plain text) : (0 : UInt8) ∉ text :=
  fun zero => absurd (plain 0 zero).2.2 (by decide)

/-- The text is a C string. -/
theorem forwardJson_noZero (plainPath : Json.Plain unixPath) (plainHost : Json.Plain host)
    (numeral : readNumber port = some (port, [])) (secure : Bool) :
    (0 : UInt8) ∉ forwardJson unixPath host port secure := by
  have noZero : (0 : UInt8) ∉ port := fun zero => absurd ((readNumber_shape numeral).2.1 0 zero) (by decide)
  simp only [forwardJson, List.mem_append, not_or]
  exact ⟨⟨⟨⟨⟨⟨⟨⟨by decide, plain_noZero plainPath⟩, by decide⟩, plain_noZero plainHost⟩, by decide⟩, noZero⟩,
    by decide⟩, by cases secure <;> decide⟩, by decide⟩

/-! ## The forward that is created -/

theorem forwardBody_eq {args others : List (List UInt8)}
    (given : significant args = unixPath :: (host ++ 58 :: port) :: others) (someHost : host ≠ [])
    (numeral : readNumber port = some (port, [])) :
    forwardBody args = some (forwardJson unixPath host port (decide (secureOption ∈ args))) := by
  have shape := readNumber_shape numeral
  have noColon : 58 ∉ port := fun colon => absurd (shape.2.1 58 colon) (by decide)
  have somePort : port ≠ [] := by
    rcases shape.2.2 with ⟨first, digits, isPort, _⟩
    exact isPort ▸ List.cons_ne_nil first digits
  have somePath : unixPath ≠ [] := by
    have member : unixPath ∈ significant args := given ▸ List.mem_cons_self
    exact (of_decide_eq_true (List.mem_filter.mp member).2).1
  have two : ¬ args.length < 2 := by
    have fewer : (significant args).length ≤ args.length := List.length_filter_le _ args
    rw [given, List.length_cons, List.length_cons] at fewer
    omega
  have someTarget : host ++ 58 :: port ≠ [] := List.append_ne_nil_of_right_ne_nil _ (List.cons_ne_nil _ _)
  have other : host ≠ host ++ 58 :: port := by
    intro same
    have lengths := congrArg List.length same
    rw [List.length_append, List.length_cons] at lengths
    omega
  rw [forwardBody, if_neg two]
  dsimp only
  rw [parseForwardArgs_eq given]
  dsimp only
  rw [hostOf_target noColon, portOf_target noColon, if_neg (not_or.mpr ⟨somePath, someTarget⟩),
    if_neg (not_or.mpr ⟨someHost, not_or.mpr ⟨somePort, other⟩⟩)]

variable {Double : Type} {doubles : Doubles Double}

/-- What the server takes out of the text: the arguments, if there is nothing in them to escape and the
port is a number. -/
theorem forwardItems_forwardJson (takes : TakesNumerals doubles) (plainPath : Json.Plain unixPath)
    (plainHost : Json.Plain host) (numeral : readNumber port = some (port, [])) (secure : Bool) :
    forwardItems doubles (forwardJson unixPath host port secure) =
      some ⟨some unixPath, some host, some (doubles.toInt (doubles.strtod port).1), some secure⟩ := by
  have reads := (denotes_forwardJson plainPath plainHost numeral secure).parse
  have whole := eq_cString_iff.mpr (forwardJson_noZero plainPath plainHost numeral secure)
  rw [whole] at reads
  have shallow : (itemOf doubles (forwardValue unixPath host port secure)).nesting ≤ nestingLimit := by
    have flat : (itemOf doubles (.bool secure)).nesting = 0 := by cases secure <;> rw [itemOf, Item.nesting]
    rw [forwardValue, itemOf, Item.nesting]
    rw [namedItemsOf, nestingOfMembers, itemOf, Item.nesting]
    rw [namedItemsOf, nestingOfMembers, itemOf, Item.nesting]
    rw [namedItemsOf, nestingOfMembers, itemOf, Item.nesting]
    rw [namedItemsOf, nestingOfMembers, flat, namedItemsOf, nestingOfMembers]
    decide
  rw [forwardItems_of_reads takes reads shallow (Or.inl rfl)]
  have path_ := (eq_cString_iff.mpr (plain_noZero plainPath)).symm
  have host_ := (eq_cString_iff.mpr (plain_noZero plainHost)).symm
  have found : valueForward doubles (forwardValue unixPath host port secure) =
      ⟨some (cString unixPath), some (cString host), some (doubles.toInt (doubles.strtod port).1),
        some secure⟩ := rfl
  rw [found, path_, host_]

/-- The arguments of `forward add`, with the option between them. -/
def secureArgs : List (List UInt8) := [ascii "@sock", ascii "--secure", ascii "127.0.0.1:9222"]

theorem significant_secureArgs :
    significant secureArgs = ascii "@sock" :: (ascii "127.0.0.1" ++ 58 :: ascii "9222") :: [] := by decide

theorem plain_secureArgs : Json.Plain (ascii "@sock") ∧ Json.Plain (ascii "127.0.0.1") :=
  ⟨forall_mem_of_all (by decide), forall_mem_of_all (by decide)⟩

end Client
end AdbBridge
