import AdbBridge.Cjson.RoundTrip
import AdbBridge.Handler.JsonEnv

namespace AdbBridge
namespace Handler

open Library Library.Numeral Library.Json Library.Checked Executor Cjson

/-!
# Bodies that cJSON parses and prints

The handlers look up the members of the item that `cJSON_Parse` returns.  For every body
that a reader of JSON understands, they find what stands in its value: the command, the
environment, and the parts of a forward.  The replies are printed by the same
library, with no more text than was assumed of it.
-/

variable {Double : Type} {doubles : Doubles Double}

/-! ## Looking up a member -/

/-- `case_insensitive_strcmp` of two C strings. -/
def caseInsensitiveStrcmp : List UInt8 -> List UInt8 -> Int
  | [], [] => 0
  | [], second :: _ => 0 - (lower second).toNat
  | first :: _, [] => (lower first).toNat
  | first :: rest, second :: others =>
      if lower first = lower second then caseInsensitiveStrcmp rest others
      else (lower first).toNat - (lower second).toNat

/-- `cJSON_GetObjectItem`; the elements of an array have no names. -/
def getObjectItem (object : Cjson.Item Double) (name : List UInt8) : Option (Cjson.Item Double) :=
  match object with
  | .object child =>
      (child.find? (fun entry => caseInsensitiveStrcmp name (cString entry.1) == 0)).map (fun entry => entry.2)
  | _ => none

theorem lower_ne_zero {byte : UInt8} (notZero : byte ≠ 0) : (lower byte).toNat ≠ 0 := by
  intro zero
  rw [lower] at zero
  split_ifs at zero with upper
  · have bounds := And.intro (UInt8.le_iff_toNat_le.mp upper.1) (UInt8.le_iff_toNat_le.mp upper.2)
    simp only [UInt8.toNat_add, UInt8.reduceToNat] at zero bounds
    omega
  · exact notZero (UInt8.toNat_inj.mp zero)

/-- The comparison tells whether the strings are the same up to the case of letters. -/
theorem caseInsensitiveStrcmp_eq_zero_iff {first second : List UInt8} (firstString : (0 : UInt8) ∉ first)
    (secondString : (0 : UInt8) ∉ second) :
    caseInsensitiveStrcmp first second = 0 ↔ first.map lower = second.map lower := by
  induction first generalizing second with
  | nil =>
      cases second with
      | nil => exact ⟨fun _ => rfl, fun _ => rfl⟩
      | cons byte rest =>
          have notZero := lower_ne_zero (fun zero => secondString (zero ▸ List.mem_cons_self) : byte ≠ 0)
          rw [caseInsensitiveStrcmp]
          constructor
          · omega
          · intro same
            cases same
  | cons byte rest inductionHypothesis =>
      cases second with
      | nil =>
          have notZero := lower_ne_zero (fun zero => firstString (zero ▸ List.mem_cons_self) : byte ≠ 0)
          rw [caseInsensitiveStrcmp]
          constructor
          · omega
          · intro same
            cases same
      | cons other others =>
          rw [caseInsensitiveStrcmp, List.map_cons, List.map_cons, List.cons.injEq]
          by_cases same : lower byte = lower other
          · rw [if_pos same, inductionHypothesis (fun zero => firstString (List.mem_cons_of_mem _ zero))
              (fun zero => secondString (List.mem_cons_of_mem _ zero))]
            exact ⟨fun rest => ⟨same, rest⟩, fun both => both.2⟩
          · rw [if_neg same]
            constructor
            · intro zero
              exact absurd (UInt8.toNat_inj.mp (by omega)) same
            · exact fun both => absurd both.1 same

theorem namedItemsOf_eq_map (members : List (List UInt8 × Value)) :
    namedItemsOf doubles members = members.map (fun entry => (entry.1, itemOf doubles entry.2)) := by
  induction members with
  | nil => rw [namedItemsOf, List.map_nil]
  | cons entry members inductionHypothesis =>
      rcases entry with ⟨name, value⟩
      rw [namedItemsOf, List.map_cons, inductionHypothesis]

/-- The member that is found is the one of the value. -/
theorem getObjectItem_itemOf (value : Value) {name : List UInt8} (isString : (0 : UInt8) ∉ name) :
    getObjectItem (itemOf doubles value) name = (JsonEnv.getObjectItem value name).map (itemOf doubles) := by
  cases value with
  | object members =>
      have sameTest : (fun entry : List UInt8 × Cjson.Item Double =>
          caseInsensitiveStrcmp name (cString entry.1) == 0) ∘
            (fun entry : List UInt8 × Value => (entry.1, itemOf doubles entry.2)) =
          fun entry => (cString entry.1).map lower == name.map lower := by
        funext entry
        rw [Function.comp_apply, Bool.eq_iff_iff, beq_iff_eq, beq_iff_eq,
          caseInsensitiveStrcmp_eq_zero_iff isString (zero_notMem_cString entry.1)]
        exact eq_comm
      rw [itemOf, getObjectItem, JsonEnv.getObjectItem, namedItemsOf_eq_map, List.find?_map, sameTest,
        Option.map_map, Option.map_map]
      rfl
  | bool value => cases value <;> rw [itemOf] <;> rfl
  | null | number | string | array =>
      rw [itemOf]
      rfl

/-! ## What the handlers take out of a body -/

/-- The text of an item, if `cJSON_IsString`. -/
def itemString : Cjson.Item Double -> Option (List UInt8)
  | .string valuestring => some (cString valuestring)
  | _ => none

/-- What `handle_exec` gets for a body. -/
def commandItem (doubles : Doubles Double) (body : List UInt8) : CommandItem :=
  match Cjson.parse doubles body with
  | .error _ => .invalid
  | .ok req =>
      match (getObjectItem req (ascii "command")).bind itemString with
      | some valuestring => .command valuestring
      | none => .missing

/-- The loop of `parse_env` over the children. -/
def parseEntries (malloc : Nat -> Bool) :
    Nat -> List (List UInt8) -> List (List UInt8 × Cjson.Item Double) -> List (List UInt8)
  | _, env, [] => env
  | calls, env, (name, entry) :: next =>
      if maxEnv ≤ env.length then env
      else
        match entry with
        | .string valuestring =>
            if malloc calls then parseEntries malloc (calls + 1)
              (env ++ [JsonEnv.entryBlock name valuestring]) next
            else parseEntries malloc (calls + 1) env next
        | _ => parseEntries malloc calls env next

/-- `parse_env` of an item. -/
def parseEnv (malloc : Nat -> Bool) (req : Cjson.Item Double) : List (List UInt8) :=
  match getObjectItem req (ascii "env") with
  | some (.object child) => if malloc 0 then parseEntries malloc 1 [] child else []
  | _ => []

/-- The number of an item as an `int`, if `cJSON_IsNumber`. -/
def itemInt (doubles : Doubles Double) : Cjson.Item Double -> Option Int
  | .number valuedouble _ => some (doubles.toInt valuedouble)
  | _ => none

/-- The truth of an item, if `cJSON_IsBool`. -/
def itemBool : Cjson.Item Double -> Option Bool
  | .false => some false
  | .true => some true
  | _ => none

/-- What `handle_tcpforward_post` takes out of the item. -/
def forwardRequest (doubles : Doubles Double) (req : Cjson.Item Double) : Forward.ForwardRequest where
  unixPath := (getObjectItem req (ascii "unix_path")).bind itemString
  host := (getObjectItem req (ascii "host")).bind itemString
  port := (getObjectItem req (ascii "port")).bind (itemInt doubles)
  secure := (getObjectItem req (ascii "secure")).bind itemBool

/-- What `handle_tcpforward_post` gets for a body. -/
def forwardItems (doubles : Doubles Double) (body : List UInt8) : Option Forward.ForwardRequest :=
  match Cjson.parse doubles body with
  | .error _ => none
  | .ok req => some (forwardRequest doubles req)

/-! ## What stands in the value of a body -/

/-- The C string of a string. -/
def valueString : Value -> Option (List UInt8)
  | .string text => some (cString text)
  | _ => none

def valueInt (doubles : Doubles Double) : Value -> Option Int
  | .number text => some (doubles.toInt (doubles.strtod text).1)
  | _ => none

def valueBool : Value -> Option Bool
  | .bool value => some value
  | _ => none

/-- The command of a request. -/
def valueCommand (request : Value) : CommandItem :=
  ((JsonEnv.getObjectItem request (ascii "command")).bind valueString).elim .missing .command

/-- The forward that a request asks for. -/
def valueForward (doubles : Doubles Double) (request : Value) : Forward.ForwardRequest where
  unixPath := (JsonEnv.getObjectItem request (ascii "unix_path")).bind valueString
  host := (JsonEnv.getObjectItem request (ascii "host")).bind valueString
  port := (JsonEnv.getObjectItem request (ascii "port")).bind (valueInt doubles)
  secure := (JsonEnv.getObjectItem request (ascii "secure")).bind valueBool

theorem itemString_itemOf (value : Value) : itemString (itemOf doubles value) = valueString value := by
  cases value with
  | bool value => cases value <;> rw [itemOf] <;> rfl
  | null | number | string | array | object =>
      rw [itemOf]
      rfl

theorem itemInt_itemOf (value : Value) : itemInt doubles (itemOf doubles value) = valueInt doubles value := by
  cases value with
  | bool value => cases value <;> rw [itemOf] <;> rfl
  | null | number | string | array | object =>
      rw [itemOf]
      rfl

theorem itemBool_itemOf (value : Value) : itemBool (itemOf doubles value) = valueBool value := by
  cases value with
  | bool value => cases value <;> rw [itemOf] <;> rfl
  | null | number | string | array | object =>
      rw [itemOf]
      rfl

/-- A part of an item is the part of the value. -/
theorem bind_getObjectItem {α : Type} {ofItem : Cjson.Item Double -> Option α} {ofValue : Value -> Option α}
    (same : forall value, ofItem (itemOf doubles value) = ofValue value) (value : Value) {name : List UInt8}
    (isString : (0 : UInt8) ∉ name) :
    (getObjectItem (itemOf doubles value) name).bind ofItem =
      (JsonEnv.getObjectItem value name).bind ofValue := by
  rw [getObjectItem_itemOf value isString, Option.bind_map]
  congr 1
  funext found
  exact same found

theorem parseEntries_itemsOf (malloc : Nat -> Bool) (calls : Nat) (env : List (List UInt8))
    (members : List (List UInt8 × Value)) :
    parseEntries malloc calls env (namedItemsOf doubles members) =
      JsonEnv.parseEntries malloc calls env members := by
  induction members generalizing calls env with
  | nil =>
      rw [namedItemsOf]
      rfl
  | cons entry members inductionHypothesis =>
      rcases entry with ⟨name, value⟩
      rw [namedItemsOf]
      cases value with
      | bool value =>
          cases value <;> simp only [itemOf, parseEntries, JsonEnv.parseEntries, inductionHypothesis]
      | null | number | string | array | object =>
          simp only [itemOf, parseEntries, JsonEnv.parseEntries, inductionHypothesis]

theorem parseEnv_itemOf (malloc : Nat -> Bool) (value : Value) :
    parseEnv malloc (itemOf doubles value) = JsonEnv.parseEnv malloc value := by
  rw [parseEnv, JsonEnv.parseEnv, getObjectItem_itemOf value (by decide)]
  cases JsonEnv.getObjectItem value (ascii "env") with
  | none => rfl
  | some found =>
      cases found with
      | object members =>
          rw [Option.map_some, itemOf]
          simp only [parseEntries_itemsOf]
      | bool value => cases value <;> rw [Option.map_some, itemOf]
      | null | number | string | array => rw [Option.map_some, itemOf]

section Reads

variable (takes : TakesNumerals doubles) {dialect : Dialect} {body : List UInt8} {request : Value}
  (reads : Json.parse dialect (cString body) = some request)
  (shallow : (itemOf doubles request).nesting ≤ nestingLimit)
  (ends : dialect.trailing = false ∨ forall number, request ≠ .number number)

include takes reads shallow ends

theorem commandItem_of_reads : commandItem doubles body = valueCommand request := by
  rw [commandItem, parse_of_reads takes reads shallow ends]
  dsimp only
  rw [bind_getObjectItem itemString_itemOf request (by decide), valueCommand]
  cases (JsonEnv.getObjectItem request (ascii "command")).bind valueString <;> rfl

theorem forwardItems_of_reads : forwardItems doubles body = some (valueForward doubles request) := by
  rw [forwardItems, parse_of_reads takes reads shallow ends]
  dsimp only
  rw [forwardRequest, bind_getObjectItem itemString_itemOf request (by decide),
    bind_getObjectItem itemString_itemOf request (by decide),
    bind_getObjectItem itemInt_itemOf request (by decide),
    bind_getObjectItem itemBool_itemOf request (by decide)]
  rfl

theorem parseEnv_of_reads (malloc : Nat -> Bool) :
    Exists fun req => Cjson.parse doubles body = .ok req ∧ parseEnv malloc req =
      JsonEnv.parseEnv malloc request :=
  ⟨_, parse_of_reads takes reads shallow ends, parseEnv_itemOf malloc request⟩

/-- A body that is read as a value, by a reader that may be more liberal than the grammar: the
handlers find the command, the environment and the parts of a forward of the value. -/
theorem bodies_of_reads (malloc : Nat -> Bool) :
    commandItem doubles body = valueCommand request ∧
      forwardItems doubles body = some (valueForward doubles request) ∧
      Exists fun req => Cjson.parse doubles body = .ok req ∧ parseEnv malloc req =
        JsonEnv.parseEnv malloc request :=
  ⟨commandItem_of_reads takes reads shallow ends, forwardItems_of_reads takes reads shallow ends,
    parseEnv_of_reads takes reads shallow ends malloc⟩

end Reads

/-- `{"command":"ls","env":{"A":"1"}}`. -/
def listingItem : Cjson.Item Int :=
  .object [(ascii "command", .string (ascii "ls")), (ascii "env", .object [(ascii "A", .string (ascii "1"))])]

def listingBody : List UInt8 := itemText wholeNumbers false 0 listingItem

theorem reads_listingBody : Json.parse rfc8259 (cString listingBody) = some
    (listingItem.value wholeNumbers) := by
  have whole : cString listingBody = listingBody := by decide
  rw [whole]
  exact (denotes_itemText numerals_wholeNumbers false 0 listingItem).parse

theorem bodies_of_reads_listing :
    commandItem wholeDoubles listingBody = .command (ascii "ls") ∧
      forwardItems wholeDoubles listingBody = some ⟨none, none, none, none⟩ ∧
      Exists fun req => Cjson.parse wholeDoubles listingBody = .ok req ∧
        parseEnv (fun _ => true) req = [ascii "A=1" ++ [0]] :=
  bodies_of_reads takesNumerals_wholeDoubles reads_listingBody (by decide) (Or.inl rfl) (fun _ => true)

/-! ## What the handlers print -/

/-- `cJSON_CreateString` or `cJSON_CreateNumber`; `ofInt` is the conversion to `double`. -/
def createItem (doubles : Doubles Double) (ofInt : Int -> Double) : Item -> Cjson.Item Double
  | .string text => .string (cString text)
  | .number value => .number (ofInt value) (doubles.valueint (ofInt value))

/-- `cJSON_CreateObject`, with a member added for each name. -/
def createObject (doubles : Doubles Double) (ofInt : Int -> Double) (members : List (List UInt8 × Item)) :
    Cjson.Item Double :=
  .object (members.map (fun member => (cString member.1, createItem doubles ofInt member.2)))

/-- The names and the strings of the members are C strings. -/
def CStringMembers (members : List (List UInt8 × Item)) : Prop :=
  forall member, member ∈ members -> (0 : UInt8) ∉ member.1 ∧
    forall text, member.2 = .string text -> (0 : UInt8) ∉ text

/-- The printer writes the numbers of the members, which are converted integers, as it was assumed to. -/
def PrintsInts (doubles : Doubles Double) (numbers : NumberFormat Double) (ofInt : Int -> Double)
    (printDouble : Int -> List UInt8) (members : List (List UInt8 × Item)) : Prop :=
  forall member, member ∈ members -> forall value, member.2 = .number value ->
    numberText numbers (ofInt value) (doubles.valueint (ofInt value)) = printNumber printDouble value ∧
      (printNumber printDouble value).length ≤ 25

variable {numbers : NumberFormat Double} {ofInt : Int -> Double} {printDouble : Int -> List UInt8}
  {members : List (List UInt8 × Item)}

theorem itemText_createItem {item : Item} (isString : forall text, item = .string text -> (0 : UInt8) ∉ text)
    (isNumber : forall value, item = .number value ->
      numberText numbers (ofInt value) (doubles.valueint (ofInt value)) = printNumber printDouble value)
    (depth : Nat) : itemText numbers false depth (createItem doubles ofInt item) =
      printValue printDouble item := by
  cases item with
  | string text =>
      have whole := eq_cString_iff.mpr (isString text rfl)
      rw [createItem, itemText, printValue, ← whole, ← whole]
  | number value =>
      rw [createItem, itemText, printValue]
      exact isNumber value rfl

theorem membersText_createObject (prints : PrintsInts doubles numbers ofInt printDouble members)
    (strings : CStringMembers members) (depth : Nat) :
    membersText numbers false depth
        (members.map (fun member => (cString member.1, createItem doubles ofInt member.2))) =
      printMembers printDouble members := by
  induction members with
  | nil =>
      rw [List.map_nil, membersText]
      rfl
  | cons member next inductionHypothesis =>
      rcases member with ⟨name, item⟩
      have here := strings (name, item) List.mem_cons_self
      have numbersHere := prints (name, item) List.mem_cons_self
      have whole := eq_cString_iff.mpr here.1
      have later := inductionHypothesis (fun other isMember => prints other (List.mem_cons_of_mem _ isMember))
        (fun other isMember => strings other (List.mem_cons_of_mem _ isMember))
      rw [List.map_cons, membersText, printMembers,
        itemText_createItem here.2 (fun value isValue => (numbersHere value isValue).1), later, ← whole,
          ← whole]
      cases next <;> rfl

theorem membersFit_createObject (prints : PrintsInts doubles numbers ofInt printDouble members) :
    MembersFit numbers (members.map (fun member => (cString member.1, createItem doubles ofInt member.2))) := by
  induction members with
  | nil =>
      rw [List.map_nil, MembersFit]
      trivial
  | cons member next inductionHypothesis =>
      rcases member with ⟨name, item⟩
      have here := prints (name, item) List.mem_cons_self
      rw [List.map_cons, MembersFit]
      refine ⟨?_, inductionHypothesis (fun other isMember => prints other (List.mem_cons_of_mem _ isMember))⟩
      cases item with
      | string text =>
          rw [createItem, Item.NumbersFit]
          trivial
      | number value =>
          rw [createItem, Item.NumbersFit, (here value rfl).1]
          exact (here value rfl).2

theorem nestingOfMembers_createObject (members : List (List UInt8 × Item)) :
    nestingOfMembers (members.map (fun member => (cString member.1, createItem doubles ofInt member.2))) =
      0 := by
  induction members with
  | nil => rw [List.map_nil, nestingOfMembers]
  | cons member next inductionHypothesis =>
      rw [List.map_cons, nestingOfMembers, inductionHypothesis]
      cases member.2 <;> rw [createItem, Item.nesting] <;> rfl

/-- `cJSON_PrintUnformatted` returns the text that the handlers were taken to send, with a NUL. -/
theorem print_createObject (prints : PrintsInts doubles numbers ofInt printDouble members)
    (strings : CStringMembers members) {text : List UInt8}
    (isText : printUnformatted printDouble members = some text) {memory : Memory}
    (available : forall size, memory.available size = true) :
    Cjson.print memory numbers false (createObject doubles ofInt members) = .ok (text ++ [0]) := by
  rw [printUnformatted] at isText
  split_ifs at isText with short
  have same : itemText numbers false 0 (createObject doubles ofInt members) = text := by
    rw [createObject, itemText, membersText_createObject prints strings, ← Option.some.inj isText]
    rfl
  have room : Room memory ((itemText numbers false 0 (createObject doubles ofInt members)).length + 2) := by
    refine ⟨available, ?_⟩
    rw [same, ← Option.some.inj isText]
    exact short
  have fit : (createObject doubles ofInt members).NumbersFit numbers := by
    rw [createObject, Item.NumbersFit]
    exact membersFit_createObject prints
  have shallow : (createObject doubles ofInt members).nesting ≤ nestingLimit := by
    rw [createObject, Item.nesting, nestingOfMembers_createObject]
    decide
  rcases (print_yields memory numbers false (createObject doubles ofInt members)).exists_ok ⟨room, fit,
    shallow⟩ with
    ⟨printed, isPrinted, isBlock⟩
  rw [isPrinted, isBlock, same]

/-- An error with a quote, and a negative number. -/
def errorMembers : List (List UInt8 × Item) :=
  [(ascii "error", .string (ascii "a\"b")), (ascii "code", .number (-7))]

theorem printsInts_errorMembers : PrintsInts wholeDoubles wholeNumbers id formatDec errorMembers := by
  intro member isMember value isNumber
  simp only [errorMembers, List.mem_cons, List.not_mem_nil, or_false] at isMember
  rcases isMember with rfl | rfl
  · cases isNumber
  · cases isNumber
    decide

theorem cStringMembers_errorMembers : CStringMembers errorMembers := by
  intro member isMember
  simp only [errorMembers, List.mem_cons, List.not_mem_nil, or_false] at isMember
  rcases isMember with rfl | rfl
  · refine ⟨by decide, fun text isText => ?_⟩
    cases isText
    decide
  · refine ⟨by decide, fun text isText => ?_⟩
    cases isText

theorem print_createObject_error :
    Cjson.print ⟨fun _ => true, fun _ => 255⟩ wholeNumbers false (createObject wholeDoubles id errorMembers) =
      .ok (ascii "\x7b\"error\":\"a\\\"b\",\"code\":-7\x7d" ++ [0]) :=
  print_createObject printsInts_errorMembers cStringMembers_errorMembers (by decide) (fun _ => rfl)

/-! ## A command and its answer -/

variable {printer : Printer} {execRun : List UInt8 -> Option Capture.State} {result : Capture.State}

/-- The conversation of `/api/exec`: a body that any reader of JSON takes for a request with a command
is answered with an object whose strings are the streams of this command. -/
theorem exec_conversation (isCjson : printer.IsCjson printDouble) (takes : TakesNumerals doubles)
    {dialect : Dialect} {body : List UInt8} {request : Value}
    (reads : Json.parse dialect (cString body) = some request)
    (shallow : (itemOf doubles request).nesting ≤ nestingLimit) {command : List UInt8}
    (isCommand : JsonEnv.getObjectItem request (ascii "command") = some (.string command))
    (ran : execRun (cString command) = some result) (produced : Capture.Produced result) (text : List UInt8) :
    (ReturnsString (handleExec printer (commandItem doubles) execRun body) (ascii "stdout") text ↔
        text = cString result.stdoutData) ∧
      (ReturnsString (handleExec printer (commandItem doubles) execRun body) (ascii "stderr") text ↔
        text = cString result.stderrData) := by
  have notNumber : forall number, request ≠ .number number := by
    rintro number rfl
    cases isCommand
  have found : commandItem doubles body = .command (cString command) := by
    rw [commandItem_of_reads takes reads shallow (Or.inr notNumber), valueCommand, isCommand]
    rfl
  exact returnsString_handleExec_iff isCjson produced found ran text

/-- The listing of a directory with a file whose name has a quote. -/
theorem exec_conversation_listing :
    ReturnsString (handleExec (cjsonPrinter (fun _ => 0) formatDec) (commandItem wholeDoubles)
      (fun _ => some (wroteBlock (ascii "a\"b\n"))) listingBody) (ascii "stdout") (ascii "a\"b\n") :=
  (@exec_conversation _ wholeDoubles formatDec (cjsonPrinter (fun _ => 0) formatDec)
    (fun _ => some (wroteBlock (ascii "a\"b\n"))) _ (isCjson_cjsonPrinter _ _) takesNumerals_wholeDoubles _ _ _
    reads_listingBody (by decide) (ascii "ls") rfl rfl
    ⟨wroteBlockEvents (ascii "a\"b\n"), by decide, rfl⟩ (ascii "a\"b\n")).1.mpr (by decide)

end Handler
end AdbBridge
