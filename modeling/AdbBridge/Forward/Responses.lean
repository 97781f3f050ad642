import AdbBridge.Forward.Listing
import AdbBridge.Library.JsonText
import AdbBridge.Library.Utf8

namespace AdbBridge
namespace Forward

open Library Library.Numeral

/-!
# The JSON of the list of forwards

`forward_list_json` pastes strings between quotes as they are.  What comes out
denotes the table if and only if every string is UTF-8 and has nothing to escape.
-/

/-! ## Values -/

/-- JSON text: UTF-8, and the grammar of RFC 8259. -/
def Denotes (text : List UInt8) (value : Json.Value) : Prop :=
  Utf8.Valid text ∧ Json.parse Json.rfc8259 text = some value

/-- A forward in the list. -/
def Tcpforward.listed (f : Tcpforward) : Json.Value :=
  .object [(ascii "id", .number (formatDec f.id)), (ascii "unix_path", .string f.unixPath),
    (ascii "host", .string f.host), (ascii "port", .number (formatDec f.port)),
    (ascii "secure", .bool f.secure), (ascii "connections", .number (formatDec f.activeConnections))]

/-- The list of the forwards. -/
def listed (forwards : List Tcpforward) : Json.Value :=
  .object [(ascii "forwards", .array (forwards.map Tcpforward.listed))]

/-- The text `forward_list_json` prints. -/
def listing (forwards : List Tcpforward) : List UInt8 := openListing forwards ++ ascii "]\x7d"

/-- A string that may be pasted: UTF-8 without quotes, backslashes and control characters. -/
structure Pasteable (text : List UInt8) : Prop where
  plain : Json.Plain text
  valid : Utf8.Valid text

/-! ## One forward -/

variable {tail rest : List UInt8} {f : Tcpforward}

/-- The text of a boolean. -/
theorem reads_bool (value : Bool) :
    Json.Reads (if value then ascii "true" else ascii "false") (.bool value) := by
  cases value
  · exact Json.reads_false
  · exact Json.reads_true

/-- The names of the members have nothing to escape. -/
theorem plain_name : Json.Plain (ascii "id") ∧ Json.Plain (ascii "unix_path") ∧ Json.Plain (ascii "host") ∧
    Json.Plain (ascii "port") ∧ Json.Plain (ascii "secure") ∧ Json.Plain (ascii "connections") ∧
    Json.Plain (ascii "forwards") :=
  ⟨forall_mem_of_all (by decide), forall_mem_of_all (by decide), forall_mem_of_all (by decide),
    forall_mem_of_all (by decide), forall_mem_of_all (by decide), forall_mem_of_all (by decide),
    forall_mem_of_all (by decide)⟩

/-- The text of a forward, quote by quote. -/
theorem text_append (f : Tcpforward) (tail : List UInt8) :
    f.text ++ tail =
      123 :: 34 :: (ascii "id" ++ 34 :: 58 :: (formatDec f.id ++ 44 ::
      34 :: (ascii "unix_path" ++ 34 :: 58 :: 34 :: (f.unixPath ++ 34 :: 44 ::
      34 :: (ascii "host" ++ 34 :: 58 :: 34 :: (f.host ++ 34 :: 44 ::
      34 :: (ascii "port" ++ 34 :: 58 :: (formatDec f.port ++ 44 ::
      34 :: (ascii "secure" ++ 34 :: 58 :: ((if f.secure then ascii "true" else ascii "false") ++ 44 ::
      34 :: (ascii "connections" ++ 34 :: 58 :: (formatDec f.activeConnections ++ 125 :: tail)))))))))))) := by
  have opening : ascii "\x7b\"id\":" = 123 :: 34 :: (ascii "id" ++ [34, 58]) := by decide
  have path : ascii ",\"unix_path\":\"" = 44 :: 34 :: (ascii "unix_path" ++ [34, 58, 34]) := by decide
  have host : ascii "\",\"host\":\"" = 34 :: 44 :: 34 :: (ascii "host" ++ [34, 58, 34]) := by decide
  have port : ascii "\",\"port\":" = 34 :: 44 :: 34 :: (ascii "port" ++ [34, 58]) := by decide
  have secure : ascii ",\"secure\":" = 44 :: 34 :: (ascii "secure" ++ [34, 58]) := by decide
  have connections : ascii ",\"connections\":" = 44 :: 34 :: (ascii "connections" ++ [34, 58]) := by decide
  have closing : ascii "\x7d" = [125] := by decide
  rw [Tcpforward.text, opening, path, host, port, secure, connections, closing]
  simp only [List.append_assoc, List.cons_append, List.nil_append]

/-- A printed forward is read back as it is stored if and only if its strings have
nothing to escape. -/
theorem readValue_text_iff (f : Tcpforward) (fuel : Nat) :
    Json.readValue Json.rfc8259 (fuel + 8) (f.text ++ tail) = some (f.listed, rest) ↔
      (Json.Plain f.unixPath ∧ Json.Plain f.host) ∧ rest = tail := by
  rcases plain_name with ⟨id, path, host, port, secure, connections, _⟩
  rw [text_append, Json.readValue_object, Option.map_eq_some_iff]
  constructor
  · rintro ⟨⟨members, final⟩, read, same⟩
    have parts := Prod.mk.inj same
    dsimp only at parts
    rw [Json.Value.object.inj parts.1, parts.2,
      Json.readMembers_fixed_iff id (Json.reads_formatDec f.id),
      Json.readMembers_string_iff path, Json.readMembers_string_iff host,
      Json.readMembers_fixed_iff port (Json.reads_formatDec f.port),
      Json.readMembers_fixed_iff secure (reads_bool f.secure),
      Json.readMembers_last connections (Json.reads_formatDec f.activeConnections)] at read
    exact ⟨⟨read.1, read.2.1⟩, (Prod.mk.inj (Option.some.inj read.2.2)).2.symm⟩
  · rintro ⟨⟨plainPath, plainHost⟩, same⟩
    refine ⟨⟨_, tail⟩, ?_, by rw [same]; rfl⟩
    rw [Json.readMembers_fixed_iff id (Json.reads_formatDec f.id),
      Json.readMembers_string_iff path, Json.readMembers_string_iff host,
      Json.readMembers_fixed_iff port (Json.reads_formatDec f.port),
      Json.readMembers_fixed_iff secure (reads_bool f.secure),
      Json.readMembers_last connections (Json.reads_formatDec f.activeConnections)]
    exact ⟨plainPath, plainHost, rfl⟩

/-! ## The list -/

/-- The forwards as they stand between the brackets. -/
def joined (forwards : List Tcpforward) : List UInt8 := (forwardPieces true forwards).flatten

theorem joined_cons (f : Tcpforward) (forwards : List Tcpforward) :
    joined (f :: forwards) = f.text ++ (forwardPieces false forwards).flatten := by
  rw [joined, forwardPieces, if_pos rfl, List.nil_append, List.flatten_cons]

theorem pieces_cons (f : Tcpforward) (forwards : List Tcpforward) :
    (forwardPieces false (f :: forwards)).flatten = 44 :: joined (f :: forwards) := by
  have comma : ascii "," = [44] := by decide
  rw [forwardPieces, if_neg Bool.false_ne_true, joined_cons, comma, List.flatten_append, List.flatten_cons]
  rfl

/-- The elements are read back as they are stored if and only if no string has
anything to escape.  By induction on the forwards behind the first. -/
theorem readElements_joined_iff (f : Tcpforward) (forwards : List Tcpforward) (fuel : Nat) :
    Json.readElements Json.rfc8259 (fuel + forwards.length + 9) (joined (f :: forwards) ++ 93 :: tail) =
        some ((f :: forwards).map Tcpforward.listed, rest) ↔
      (forall f', f' ∈ f :: forwards -> Json.Plain f'.unixPath ∧ Json.Plain f'.host) ∧ rest = tail := by
  induction forwards generalizing f with
  | nil =>
      have one := fun behind final => @readValue_text_iff behind final f (fuel + 0)
      rw [Json.readElements_eq, joined_cons, forwardPieces, List.flatten_nil, List.append_nil,
        Option.bind_eq_some_iff]
      constructor
      · rintro ⟨⟨value, behind⟩, read, after⟩
        dsimp only at after
        rw [Json.elementsAfter_first after] at read
        rcases (one _ _).mp read with ⟨plain, isBehind⟩
        rw [isBehind, Json.elementsAfter_bracket] at after
        refine ⟨fun other member => ?_, (Prod.mk.inj (Option.some.inj after)).2.symm⟩
        rw [List.mem_singleton.mp member]
        exact plain
      · rintro ⟨plain, same⟩
        refine ⟨(f.listed, 93 :: tail), (one _ _).mpr ⟨plain f List.mem_cons_self, rfl⟩, ?_⟩
        rw [Json.elementsAfter_bracket, same]
        rfl
  | cons next forwards inductionHypothesis =>
      have one := fun behind final => @readValue_text_iff behind final f (fuel + (next :: forwards).length)
      have deeper : fuel + (next :: forwards).length + 8 = fuel + forwards.length + 9 := by
        rw [List.length_cons]
        omega
      rw [Json.readElements_eq, joined_cons, pieces_cons, List.append_assoc, List.cons_append,
        Option.bind_eq_some_iff]
      constructor
      · rintro ⟨⟨value, behind⟩, read, after⟩
        dsimp only at after
        rw [Json.elementsAfter_first after] at read
        rcases (one _ _).mp read with ⟨plain, isBehind⟩
        rw [isBehind, Json.elementsAfter_comma] at after
        rcases Option.map_eq_some_iff.mp after with ⟨⟨others, final⟩, isArray, same⟩
        have parts := Prod.mk.inj same
        dsimp only at parts
        rw [(List.cons.inj parts.1).2, parts.2, deeper] at isArray
        rcases (inductionHypothesis next).mp isArray with ⟨allPlain, ends⟩
        refine ⟨fun other member => ?_, ends⟩
        rcases List.mem_cons.mp member with here | later
        · rw [here]
          exact plain
        · exact allPlain other later
      · rintro ⟨plain, same⟩
        have others := (inductionHypothesis next).mpr
          ⟨fun other member => plain other (List.mem_cons_of_mem f member), same⟩
        refine ⟨(f.listed, 44 :: (joined (next :: forwards) ++ 93 :: tail)),
          (one _ _).mpr ⟨plain f List.mem_cons_self, rfl⟩, ?_⟩
        rw [Json.elementsAfter_comma, deeper, others]
        rfl

/-- The text of the list, from its braces in. -/
theorem listing_eq (forwards : List Tcpforward) :
    listing forwards = 123 :: 34 :: (ascii "forwards" ++ 34 :: 58 :: 91 :: (joined forwards ++ [93, 125])) := by
  have opening : ascii "\x7b\"forwards\":[" = 123 :: 34 :: (ascii "forwards" ++ [34, 58, 91]) := by decide
  have closing : ascii "]\x7d" = [93, 125] := by decide
  rw [listing, openListing, listPieces, List.flatten_cons, opening, closing]
  simp only [List.append_assoc, List.cons_append, List.nil_append]
  rfl

/-- A forward begins with a brace. -/
theorem joined_brace (f : Tcpforward) (forwards : List Tcpforward) (tail : List UInt8) :
    Exists fun text => joined (f :: forwards) ++ tail = 123 :: text := by
  rw [joined_cons, List.append_assoc, text_append]
  exact ⟨_, rfl⟩

/-- The text is longer than the list, so that the reader has fuel for every element. -/
theorem length_listing_ge (forwards : List Tcpforward) :
    forwards.length + 15 ≤ (listing forwards).length := by
  have count : forwards.length ≤ (forwards.map (fun f => f.unixPath.length + 6)).sum := by
    induction forwards with
    | nil => exact Nat.le_refl 0
    | cons f rest inductionHypothesis =>
        rw [List.length_cons, List.map_cons, List.sum_cons]
        omega
  have pieces := Nat.le_trans count (length_pieces_ge true forwards)
  have name : (ascii "forwards").length = 8 := rfl
  rw [listing_eq]
  simp only [List.length_cons, List.length_append, name, List.length_nil, joined]
  omega

/-- The printed list is read back as the table if and only if no string has
anything to escape. -/
theorem parse_listing_iff (forwards : List Tcpforward) :
    Json.parse Json.rfc8259 (listing forwards) = some (listed forwards) ↔
      forall f, f ∈ forwards -> Json.Plain f.unixPath ∧ Json.Plain f.host := by
  rcases Nat.exists_eq_add_of_le (length_listing_ge forwards) with ⟨extra, length⟩
  have fuel : (listing forwards).length + 1 = extra + forwards.length + 13 + 1 + 1 + 1 := by omega
  have brace : forall array : Json.Value, Json.membersAfter (extra + forwards.length + 14)
      (ascii "forwards") array [125] = some ([(ascii "forwards", array)], []) := fun array => rfl
  rw [Json.parse, fuel, listing_eq, Json.readValue_object, Json.readMembers_name plain_name.2.2.2.2.2.2]
  cases forwards with
  | nil => exact ⟨fun _ f member => absurd member List.not_mem_nil, fun _ => rfl⟩
  | cons f forwards =>
      rcases joined_brace f forwards [93, 125] with ⟨text, shape⟩
      have deeper : extra + (f :: forwards).length + 13 = extra + 5 + forwards.length + 9 := by
        rw [List.length_cons]
        omega
      have array := fun rest => @readElements_joined_iff [125] rest f forwards (extra + 5)
      rw [shape, Json.readValue_array, ← shape, deeper]
      constructor
      · intro parsed
        split at parsed
        next value rest isObject =>
          rcases Option.map_eq_some_iff.mp isObject with ⟨⟨members, final⟩, isMember, same⟩
          rcases Option.bind_eq_some_iff.mp isMember with ⟨⟨element, behind⟩, isArray, after⟩
          rcases Option.map_eq_some_iff.mp isArray with ⟨⟨elements, last⟩, isElements, sameArray⟩
          have isListed : value = listed (f :: forwards) := by
            split_ifs at parsed
            exact Option.some.inj parsed
          have isMembers := Json.Value.object.inj ((Prod.mk.inj same).1.trans isListed)
          dsimp only at isMembers after
          rw [isMembers] at after
          have isElement := (Prod.mk.inj (Json.membersAfter_first after)).2
          have isAll : elements = (f :: forwards).map Tcpforward.listed :=
            Json.Value.array.inj ((Prod.mk.inj sameArray).1.trans isElement)
          rw [isAll] at isElements
          exact ((array last).mp isElements).1
        next => cases parsed
      · intro plain
        rw [(array [125]).mpr ⟨plain, rfl⟩, Option.map_some, Option.bind_some, brace]
        rfl

/-! ## Valid bytes -/

/-- The text of a boolean is ASCII. -/
theorem ascii_bool (value : Bool) :
    forall byte, byte ∈ (if value then ascii "true" else ascii "false") -> byte < 128 := by
  cases value
  · exact forall_mem_of_all (by decide)
  · exact forall_mem_of_all (by decide)

/-- The names of the members are ASCII. -/
theorem ascii_name : (forall byte, byte ∈ ascii "id" -> byte < 128) ∧
    (forall byte, byte ∈ ascii "unix_path" -> byte < 128) ∧ (forall byte, byte ∈ ascii "host" -> byte < 128) ∧
    (forall byte, byte ∈ ascii "port" -> byte < 128) ∧ (forall byte, byte ∈ ascii "secure" -> byte < 128) ∧
    (forall byte, byte ∈ ascii "connections" -> byte < 128) ∧
    (forall byte, byte ∈ ascii "forwards" -> byte < 128) :=
  ⟨forall_mem_of_all (by decide), forall_mem_of_all (by decide), forall_mem_of_all (by decide),
    forall_mem_of_all (by decide), forall_mem_of_all (by decide), forall_mem_of_all (by decide),
    forall_mem_of_all (by decide)⟩

theorem valid_text_iff (f : Tcpforward) (tail : List UInt8) :
    Utf8.Valid (f.text ++ tail) ↔ (Utf8.Valid f.unixPath ∧ Utf8.Valid f.host) ∧ Utf8.Valid tail := by
  rcases ascii_name with ⟨id, path, host, port, secure, connections, _⟩
  rw [text_append]
  simp only [Utf8.valid_cons_ascii (by decide : (123 : UInt8) < 128),
    Utf8.valid_cons_ascii (by decide : (34 : UInt8) < 128),
    Utf8.valid_cons_ascii (by decide : (58 : UInt8) < 128),
    Utf8.valid_cons_ascii (by decide : (44 : UInt8) < 128),
    Utf8.valid_append_ascii (by decide : (34 : UInt8) < 128),
    Utf8.valid_append_ascii (by decide : (44 : UInt8) < 128),
    Utf8.valid_append_ascii (by decide : (125 : UInt8) < 128),
    Utf8.valid_of_ascii id, Utf8.valid_of_ascii path, Utf8.valid_of_ascii host, Utf8.valid_of_ascii port,
    Utf8.valid_of_ascii secure, Utf8.valid_of_ascii connections, Utf8.valid_of_ascii (ascii_bool f.secure),
    Utf8.valid_of_ascii (fun _ => fun member => (formatDec_bounds member).2), true_and, and_assoc]

theorem valid_joined_iff (forwards : List Tcpforward) (tail : List UInt8) :
    Utf8.Valid (joined forwards ++ tail) ↔
      (forall f, f ∈ forwards -> Utf8.Valid f.unixPath ∧ Utf8.Valid f.host) ∧ Utf8.Valid tail := by
  induction forwards with
  | nil => exact ⟨fun valid => ⟨fun f member => absurd member List.not_mem_nil, valid⟩, fun both => both.2⟩
  | cons f forwards inductionHypothesis =>
      rw [joined_cons, List.append_assoc, valid_text_iff, List.forall_mem_cons,
        and_assoc (c := Utf8.Valid tail)]
      refine and_congr_right fun _ => ?_
      cases forwards with
      | nil => exact inductionHypothesis
      | cons next forwards =>
          rw [pieces_cons, List.cons_append, Utf8.valid_cons_ascii (by decide), inductionHypothesis]

theorem valid_listing_iff (forwards : List Tcpforward) :
    Utf8.Valid (listing forwards) ↔ forall f, f ∈ forwards -> Utf8.Valid f.unixPath ∧ Utf8.Valid f.host := by
  have ends : Utf8.Valid [93, 125] := Utf8.valid_of_ascii (forall_mem_of_all (by decide))
  rw [listing_eq, Utf8.valid_cons_ascii (by decide), Utf8.valid_cons_ascii (by decide),
    Utf8.valid_append_ascii (by decide), Utf8.valid_cons_ascii (by decide), Utf8.valid_cons_ascii (by decide),
    valid_joined_iff]
  exact ⟨fun valid => valid.2.1, fun valid => ⟨Utf8.valid_of_ascii ascii_name.2.2.2.2.2.2, valid, ends⟩⟩

/-- The printed list denotes the table if and only if every string may be pasted. -/
theorem denotes_listing_iff (forwards : List Tcpforward) :
    Denotes (listing forwards) (listed forwards) ↔
      forall f, f ∈ forwards -> Pasteable f.unixPath ∧ Pasteable f.host := by
  rw [Denotes, valid_listing_iff, parse_listing_iff]
  constructor
  · rintro ⟨valid, plain⟩ f member
    exact ⟨⟨(plain f member).1, (valid f member).1⟩, ⟨(plain f member).2, (valid f member).2⟩⟩
  · intro pasteable
    exact ⟨fun f member => ⟨(pasteable f member).1.valid, (pasteable f member).2.valid⟩,
      fun f member => ⟨(pasteable f member).1.plain, (pasteable f member).2.plain⟩⟩

/-! ## What the buffer holds -/

/-- A list that fits with its terminator is in the buffer. -/
theorem forwardListJson_holds {size : Nat} (small : size < 2 ^ 64) (buf : Region size)
    {forwards : List Tcpforward} (fits : (listing forwards).length < size) :
    Exists fun after => Exists fun pos =>
      forwardListJson buf forwards = some (after, pos) ∧ listing forwards ++ [0] <+: after.bytes := by
  have closing : (ascii "]\x7d").length = 2 := rfl
  rw [listing, List.length_append, closing] at fits
  have fitsOpening := fits
  rw [openListing, listPieces, List.flatten_cons, List.length_append] at fitsOpening
  have start : Region.roomAt size 0 = size - 0 := Region.roomAt_of_le (Nat.zero_le _) small
  have room : Region.roomAt size (openListing forwards).length = size - (openListing forwards).length :=
    Region.roomAt_of_le (by omega) small
  rcases @Region.snprintf_begins size buf [] (ascii "\x7b\"forwards\":[") (size - 0) List.nil_prefix
    (by omega) (by rw [List.length_nil]; omega) with ⟨first, opened, holdsOpening⟩
  rcases @Region.print_begins size first (ascii "\x7b\"forwards\":[") (forwardPieces true forwards) small
    holdsOpening (by omega) with ⟨second, printed, holdsPieces⟩
  have isOpening : ascii "\x7b\"forwards\":[" ++
    (forwardPieces true forwards).flatten = openListing forwards := by
    rw [openListing, listPieces, List.flatten_cons]
  rw [isOpening] at holdsPieces
  rw [← List.length_append, isOpening] at printed
  rcases @Region.snprintf_begins size second (openListing forwards) (ascii "]\x7d")
    (size - (openListing forwards).length) ((List.prefix_append _ _).trans holdsPieces) (by omega) (by omega)
    with ⟨after, closed, holdsAll⟩
  refine ⟨after, (openListing forwards).length, ?_, by rw [listing, List.append_assoc]; exact holdsAll⟩
  rw [List.length_nil] at opened
  rw [forwardListJson, listPieces, Region.print, start, opened, Option.bind_some, Nat.zero_add, printed,
    Option.bind_some]
  dsimp only
  rw [room, closed, Option.map_some]

/-- The string in the buffer afterwards denotes the table. -/
def ListSays (buf : Region listBuf) (forwards : List Tcpforward) : Prop :=
  Exists fun after => Exists fun pos =>
    forwardListJson buf forwards = some (after, pos) ∧ Denotes (cString after.bytes) (listed forwards)

/-- The strings of a forward are kept up to their terminator. -/
structure Tcpforward.Terminated (f : Tcpforward) : Prop where
  unixPath : 0 ∉ f.unixPath
  host : 0 ∉ f.host

theorem zero_not_mem_listing {forwards : List Tcpforward}
    (terminated : forall f, f ∈ forwards -> f.Terminated) : 0 ∉ listing forwards := by
  have text : forall f : Tcpforward, f.Terminated -> 0 ∉ f.text := by
    intro f strings
    have number : forall value : Int, 0 ∉ formatDec value := fun value member =>
      absurd (formatDec_bounds member).1 (by decide)
    have bool : 0 ∉ if f.secure then ascii "true" else ascii "false" := by cases f.secure <;> decide
    simp only [Tcpforward.text, List.mem_append, not_or]
    exact ⟨⟨⟨⟨⟨⟨⟨⟨⟨⟨⟨⟨by decide, number _⟩, by decide⟩, strings.unixPath⟩, by decide⟩, strings.host⟩,
      by decide⟩, number _⟩, by decide⟩, bool⟩, by decide⟩, number _⟩, by decide⟩
  have pieces : forall first, 0 ∉ (forwardPieces first forwards).flatten := by
    induction forwards with
    | nil => exact fun _ => List.not_mem_nil
    | cons f rest inductionHypothesis =>
        intro first
        have later := inductionHypothesis (fun other member => terminated other (List.mem_cons_of_mem f member))
        rw [forwardPieces, List.flatten_append, List.mem_append, List.flatten_cons, List.mem_append]
        rintro (comma | here | there)
        · cases first
          · exact absurd comma (by decide)
          · exact absurd comma List.not_mem_nil
        · exact text f (terminated f List.mem_cons_self) here
        · exact later false there
  rw [listing, openListing, listPieces, List.flatten_cons, List.mem_append, List.mem_append]
  rintro ((opening | forwards) | closing)
  · exact absurd opening (by decide)
  · exact pieces true forwards
  · exact absurd closing (by decide)

/-- A list that fits says what is stored if and only if every string may be pasted. -/
theorem listSays_iff (buf : Region listBuf) {forwards : List Tcpforward}
    (terminated : forall f, f ∈ forwards -> f.Terminated) (fits : (listing forwards).length < listBuf) :
    ListSays buf forwards ↔ forall f, f ∈ forwards -> Pasteable f.unixPath ∧ Pasteable f.host := by
  rcases forwardListJson_holds (by unfold listBuf; omega) buf fits with ⟨after, pos, printed, begins⟩
  have held : cString after.bytes = listing forwards := by
    rcases begins with ⟨rest, isAfter⟩
    rw [← isAfter, List.append_assoc]
    exact cString_append_zero (fun byte member isZero =>
      zero_not_mem_listing terminated (isZero ▸ member))
  rw [← denotes_listing_iff]
  constructor
  · rintro ⟨other, otherPos, otherPrinted, denotes⟩
    have same := (Prod.mk.inj (Option.some.inj (printed.symm.trans otherPrinted))).1
    rw [← same, held] at denotes
    exact denotes
  · intro denotes
    exact ⟨after, pos, printed, by rw [held]; exact denotes⟩

end Forward
end AdbBridge
