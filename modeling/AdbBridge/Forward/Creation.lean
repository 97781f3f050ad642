import AdbBridge.Forward.Responses

namespace AdbBridge
namespace Forward

open Library Library.Numeral

/-!
# Creating a forward

`handle_tcpforward_post` takes two strings out of the parsed request, releases the
request and goes on using them: `forward_add` copies them into the record, and the
response echoes them into 512 bytes.  The response says what is stored only if both
uses see the same strings, they fit the record, and they may be pasted.
-/

/-- The items of a request that have the type the handler asks for; strings are kept
up to their terminator, and the port is converted to `int`. -/
structure ForwardRequest where
  unixPath : Option (List UInt8)
  host : Option (List UInt8)
  port : Option Int
  secure : Option Bool

/-- What reading a string of the request yields once `cJSON_Delete` released it: in
`forward_add`, and when the response is printed. -/
structure Released where
  atAdd : List UInt8 -> List UInt8
  atEcho : List UInt8 -> List UInt8

/-- Released memory that nobody has used again. -/
def Released.intact : Released := ⟨id, id⟩

/-- The host as it is read after the release; the default is a literal. -/
def ForwardRequest.hostRead (request : ForwardRequest) (read : List UInt8 -> List UInt8) : List UInt8 :=
  match request.host with
  | some host => read host
  | none => ascii "127.0.0.1"

/-- A response: its status and its body. -/
structure Response where
  status : Nat
  body : List UInt8
deriving DecidableEq, Repr

/-- The text for an error code of `forward_add`. -/
def addError (code : Int) : List UInt8 :=
  if code = -1 then ascii "port already in use on this host"
  else if code = -2 then ascii "forward already exists for this unix_path:port"
  else if code = -3 then ascii "max forwards reached"
  else if code = -4 then ascii "socket creation failed"
  else if code = -5 then ascii "bind failed"
  else if code = -6 then ascii "listen failed"
  else ascii "unknown error"

/-- The body of the response to a forward that was created. -/
def createdText (id : Int) (unixPath host : List UInt8) (port : Int) (secure : Bool) : List UInt8 :=
  ascii "\x7b\"id\":" ++ formatDec id ++
    ascii ",\"unix_path\":\"" ++ unixPath ++
    ascii "\",\"host\":\"" ++ host ++
    ascii "\",\"port\":" ++ formatDec port ++
    ascii ",\"secure\":" ++ (if secure then ascii "true" else ascii "false") ++ ascii "\x7d"

/-- `handle_tcpforward_post`: the table afterwards, and the response.  `cjson` is what
`cJSON_Parse` and the look-ups of the items yield for the body. -/
def handleTcpforwardPost (cjson : List UInt8 -> Option ForwardRequest) (released : Released)
    (inetPton : InetPton) (table : ForwardTable) (body : List UInt8) (outcomes : AddOutcomes) :
    ForwardTable × Response :=
  match cjson body with
  | none => (table, ⟨400, ascii "\x7b\"error\":\"invalid JSON\"\x7d"⟩)
  | some request =>
      match request.unixPath with
      | none => (table, ⟨400, ascii "\x7b\"error\":\"missing 'unix_path'\"\x7d"⟩)
      | some unixPath =>
          match request.port with
          | none => (table, ⟨400, ascii "\x7b\"error\":\"missing 'port'\"\x7d"⟩)
          | some port =>
              let secure := request.secure.getD false
              let added := forwardAdd inetPton table (released.atAdd unixPath)
                (request.hostRead released.atAdd) port secure outcomes
              if added.2 < 0 then
                (added.1, ⟨500, (ascii "\x7b\"error\":\"" ++ addError added.2 ++ ascii "\"\x7d").take 255⟩)
              else
                (added.1, ⟨200, (createdText added.2 (released.atEcho unixPath)
                  (request.hostRead released.atEcho) port secure).take 511⟩)

/-! ## The text of the response -/

/-- A forward in the response to the request that created it. -/
def Tcpforward.created (f : Tcpforward) : Json.Value :=
  .object [(ascii "id", .number (formatDec f.id)), (ascii "unix_path", .string f.unixPath),
    (ascii "host", .string f.host), (ascii "port", .number (formatDec f.port)),
    (ascii "secure", .bool f.secure)]

/-- The body for a forward, if its strings are the ones echoed. -/
def Tcpforward.createdText (f : Tcpforward) : List UInt8 :=
  Forward.createdText f.id f.unixPath f.host f.port f.secure

/-- The text of a created forward, quote by quote. -/
theorem createdText_eq (f : Tcpforward) :
    f.createdText =
      123 :: 34 :: (ascii "id" ++ 34 :: 58 :: (formatDec f.id ++ 44 ::
      34 :: (ascii "unix_path" ++ 34 :: 58 :: 34 :: (f.unixPath ++ 34 :: 44 ::
      34 :: (ascii "host" ++ 34 :: 58 :: 34 :: (f.host ++ 34 :: 44 ::
      34 :: (ascii "port" ++ 34 :: 58 :: (formatDec f.port ++ 44 ::
      34 :: (ascii "secure" ++ 34 :: 58 ::
        ((if f.secure then ascii "true" else ascii "false") ++ [125])))))))))) := by
  have opening : ascii "\x7b\"id\":" = 123 :: 34 :: (ascii "id" ++ [34, 58]) := by decide
  have path : ascii ",\"unix_path\":\"" = 44 :: 34 :: (ascii "unix_path" ++ [34, 58, 34]) := by decide
  have host : ascii "\",\"host\":\"" = 34 :: 44 :: 34 :: (ascii "host" ++ [34, 58, 34]) := by decide
  have port : ascii "\",\"port\":" = 34 :: 44 :: 34 :: (ascii "port" ++ [34, 58]) := by decide
  have secure : ascii ",\"secure\":" = 44 :: 34 :: (ascii "secure" ++ [34, 58]) := by decide
  have closing : ascii "\x7d" = [125] := by decide
  rw [Tcpforward.createdText, createdText, opening, path, host, port, secure, closing]
  simp only [List.append_assoc, List.cons_append, List.nil_append]

/-- The text is as long as its value asks for. -/
theorem length_createdText (f : Tcpforward) :
    f.createdText.length = Json.membersWidth
      [(ascii "id", .number (formatDec f.id)), (ascii "unix_path", .string f.unixPath),
        (ascii "host", .string f.host), (ascii "port", .number (formatDec f.port)),
        (ascii "secure", .bool f.secure)] + 1 := by
  have bool : (if f.secure then ascii "true" else ascii "false").length = (Json.Value.bool f.secure).width := by
    cases f.secure <;> rfl
  have names : (ascii "id").length = 2 ∧ (ascii "unix_path").length = 9 ∧ (ascii "host").length = 4 ∧
      (ascii "port").length = 4 ∧ (ascii "secure").length = 6 := ⟨rfl, rfl, rfl, rfl, rfl⟩
  rw [createdText_eq]
  simp only [List.length_cons, List.length_append, List.length_nil, bool, Json.membersWidth, List.map_cons,
    List.map_nil, List.sum_cons, List.sum_nil, Json.Value.width, names]
  omega

/-- A body that was cut does not denote the forward. -/
theorem not_denotes_cut {f : Tcpforward} (long : 511 < f.createdText.length) :
    ¬ Denotes (f.createdText.take 511) f.created := by
  intro denotes
  have width := Json.parse_object_width denotes.2
  rw [← length_createdText, List.length_take] at width
  omega

theorem readValue_createdText_iff (f : Tcpforward) (fuel : Nat) (rest : List UInt8) :
    Json.readValue Json.rfc8259 (fuel + 7) f.createdText = some (f.created, rest) ↔
      (Json.Plain f.unixPath ∧ Json.Plain f.host) ∧ rest = [] := by
  rcases plain_name with ⟨id, path, host, port, secure, _⟩
  rw [createdText_eq, Json.readValue_object, Option.map_eq_some_iff]
  constructor
  · rintro ⟨⟨members, final⟩, read, same⟩
    have parts := Prod.mk.inj same
    dsimp only at parts
    rw [Json.Value.object.inj parts.1, parts.2,
      Json.readMembers_fixed_iff id (Json.reads_formatDec f.id),
      Json.readMembers_string_iff path, Json.readMembers_string_iff host,
      Json.readMembers_fixed_iff port (Json.reads_formatDec f.port),
      Json.readMembers_last secure (reads_bool f.secure)] at read
    exact ⟨⟨read.1, read.2.1⟩, (Prod.mk.inj (Option.some.inj read.2.2)).2.symm⟩
  · rintro ⟨⟨plainPath, plainHost⟩, same⟩
    refine ⟨⟨_, []⟩, ?_, by rw [same]; rfl⟩
    rw [Json.readMembers_fixed_iff id (Json.reads_formatDec f.id),
      Json.readMembers_string_iff path, Json.readMembers_string_iff host,
      Json.readMembers_fixed_iff port (Json.reads_formatDec f.port),
      Json.readMembers_last secure (reads_bool f.secure)]
    exact ⟨plainPath, plainHost, rfl⟩

/-- The body is read back as the forward if and only if its strings have nothing to
escape. -/
theorem parse_createdText_iff (f : Tcpforward) :
    Json.parse Json.rfc8259 f.createdText = some f.created ↔ Json.Plain f.unixPath ∧ Json.Plain f.host := by
  have long : 6 ≤ f.createdText.length := by
    rw [createdText_eq]
    simp only [List.length_cons, List.length_append]
    omega
  rcases Nat.exists_eq_add_of_le long with ⟨extra, length⟩
  have fuel : f.createdText.length + 1 = extra + 7 := by omega
  rw [Json.parse, fuel]
  constructor
  · intro parsed
    split at parsed
    next value rest read =>
      have isCreated : value = f.created := by
        split_ifs at parsed
        exact Option.some.inj parsed
      rw [isCreated] at read
      exact ((readValue_createdText_iff f extra rest).mp read).1
    next => cases parsed
  · intro plain
    rw [(readValue_createdText_iff f extra []).mpr ⟨plain, rfl⟩]
    rfl

theorem valid_createdText_iff (f : Tcpforward) :
    Utf8.Valid f.createdText ↔ Utf8.Valid f.unixPath ∧ Utf8.Valid f.host := by
  rcases ascii_name with ⟨id, path, host, port, secure, _⟩
  rw [createdText_eq]
  simp only [Utf8.valid_cons_ascii (by decide : (123 : UInt8) < 128),
    Utf8.valid_cons_ascii (by decide : (34 : UInt8) < 128),
    Utf8.valid_cons_ascii (by decide : (58 : UInt8) < 128),
    Utf8.valid_cons_ascii (by decide : (44 : UInt8) < 128),
    Utf8.valid_append_ascii (by decide : (34 : UInt8) < 128),
    Utf8.valid_append_ascii (by decide : (44 : UInt8) < 128),
    Utf8.valid_append_ascii (by decide : (125 : UInt8) < 128),
    Utf8.valid_of_ascii id, Utf8.valid_of_ascii path, Utf8.valid_of_ascii host, Utf8.valid_of_ascii port,
    Utf8.valid_of_ascii secure, Utf8.valid_of_ascii (ascii_bool f.secure),
    Utf8.valid_of_ascii (fun _ => fun member => (formatDec_bounds member).2), Utf8.valid_nil, true_and,
      and_true]

/-- A body denotes the forward it echoes if and only if it fits 511 bytes and its
strings may be pasted. -/
theorem denotes_created_iff (f : Tcpforward) :
    Denotes (f.createdText.take 511) f.created ↔
      f.createdText.length ≤ 511 ∧ Pasteable f.unixPath ∧ Pasteable f.host := by
  by_cases fits : f.createdText.length ≤ 511
  · rw [List.take_of_length_le fits, Denotes, valid_createdText_iff, parse_createdText_iff]
    constructor
    · rintro ⟨valid, plain⟩
      exact ⟨fits, ⟨plain.1, valid.1⟩, ⟨plain.2, valid.2⟩⟩
    · rintro ⟨_, path, host⟩
      exact ⟨⟨path.valid, host.valid⟩, path.plain, host.plain⟩
  · exact ⟨fun denotes => absurd denotes (not_denotes_cut (Nat.not_le.mp fits)),
      fun may => absurd may.1 fits⟩

/-! ## What is stored -/

variable {cjson : List UInt8 -> Option ForwardRequest} {released : Released} {inetPton : InetPton}
  {table after : ForwardTable} {body unixPath : List UInt8} {outcomes : AddOutcomes} {response : Response}
  {request : ForwardRequest}

/-- The response denotes the forward at the head of the table. -/
def SaysCreated (after : ForwardTable) (response : Response) : Prop :=
  Exists fun f => after.forwards.head? = some f ∧ Denotes response.body f.created

/-- The strings printed are the ones `forward_add` stored. -/
structure EchoesStored (released : Released) (request : ForwardRequest) (unixPath : List UInt8) : Prop where
  unixPath : released.atEcho unixPath = copied 256 (released.atAdd unixPath)
  host : request.hostRead released.atEcho = copied 64 (request.hostRead released.atAdd)

/-- As long as released memory is intact, the strings are the ones stored if and only
if they fit the record. -/
theorem echoesStored_intact_iff : EchoesStored .intact request unixPath ↔
    unixPath.length ≤ 255 ∧ (request.hostRead id).length ≤ 63 := by
  have kept : forall (size : Nat) (text : List UInt8), text = copied size text ↔ text.length ≤ size - 1 := by
    intro size text
    constructor
    · intro same
      have length := congrArg List.length same
      rw [copied, List.length_take] at length
      omega
    · exact fun short => (List.take_of_length_le short).symm
  constructor
  · intro echoes
    exact ⟨(kept 256 unixPath).mp echoes.unixPath, (kept 64 _).mp echoes.host⟩
  · intro fits
    exact ⟨(kept 256 unixPath).mpr fits.1, (kept 64 _).mpr fits.2⟩

/-- An accepted request has a path and a port, and its forward is at the head. -/
theorem handleTcpforwardPost_accepted
    (handled : handleTcpforwardPost cjson released inetPton table body outcomes = (after, response))
    (accepted : response.status = 200) :
    Exists fun request => Exists fun unixPath => Exists fun port => Exists fun fd =>
      cjson body = some request ∧ request.unixPath = some unixPath ∧ request.port = some port ∧
        after.forwards.head? = some (newForward table.nextId (released.atAdd unixPath)
          (request.hostRead released.atAdd) port (request.secure.getD false) fd) ∧
        response.body = (createdText table.nextId (released.atEcho unixPath)
          (request.hostRead released.atEcho) port (request.secure.getD false)).take 511 := by
  have refused : forall {other : ForwardTable} {status : Nat} {text : List UInt8},
      (other, Response.mk status text) = (after, response) -> status = 200 := by
    intro other status text same
    rw [← (Prod.mk.inj same).2] at accepted
    exact accepted
  unfold handleTcpforwardPost at handled
  split at handled
  · exact absurd (refused handled) (by decide)
  next request isRequest =>
    split at handled
    · exact absurd (refused handled) (by decide)
    next unixPath isPath =>
      split at handled
      · exact absurd (refused handled) (by decide)
      next port isPort =>
        dsimp only at handled
        split at handled
        · exact absurd (refused handled) (by decide)
        next success =>
          have same := Prod.mk.inj handled
          rcases forwardAdd_cases (Prod.mk.eta (p := forwardAdd inetPton table (released.atAdd unixPath)
            (request.hostRead released.atAdd) port (request.secure.getD false) outcomes)).symm with
            ⟨failed, _⟩ | ⟨fd, isId, _, linked, _⟩
          · exact absurd failed success
          · refine ⟨request, unixPath, port, fd, isRequest, isPath, isPort, ?_, ?_⟩
            · rw [← same.1, linked, isId]
              rfl
            · rw [← same.2, isId]

/-- An accepted request whose strings are echoed as they are stored gets a response
that says what is stored if and only if it fits 511 bytes and the strings may be pasted. -/
theorem saysCreated_iff {port : Int} {fd : Nat} (echoes : EchoesStored released request unixPath)
    (linked : after.forwards.head? = some (newForward table.nextId (released.atAdd unixPath)
      (request.hostRead released.atAdd) port (request.secure.getD false) fd))
    (printed : response.body = (createdText table.nextId (released.atEcho unixPath)
      (request.hostRead released.atEcho) port (request.secure.getD false)).take 511) :
    SaysCreated after response ↔
      (createdText table.nextId (released.atEcho unixPath) (request.hostRead released.atEcho) port
        (request.secure.getD false)).length ≤ 511 ∧
      Pasteable (released.atEcho unixPath) ∧ Pasteable (request.hostRead released.atEcho) := by
  have denotes := denotes_created_iff (newForward table.nextId (released.atAdd unixPath)
    (request.hostRead released.atAdd) port (request.secure.getD false) fd)
  change Denotes ((createdText table.nextId (copied 256 (released.atAdd unixPath))
    (copied 64 (request.hostRead released.atAdd)) port (request.secure.getD false)).take 511) _ ↔
    (createdText table.nextId (copied 256 (released.atAdd unixPath))
      (copied 64 (request.hostRead released.atAdd)) port (request.secure.getD false)).length ≤ 511 ∧
      Pasteable (copied 256 (released.atAdd unixPath)) ∧
      Pasteable (copied 64 (request.hostRead released.atAdd)) at denotes
  rw [← echoes.unixPath, ← echoes.host, ← printed] at denotes
  rw [← denotes]
  constructor
  · rintro ⟨f, isHead, denotesHead⟩
    rw [Option.some.inj (linked.symm.trans isHead)]
    exact denotesHead
  · exact fun denotesHead => ⟨_, linked, denotesHead⟩

/-- The list that fits says what is stored if and only if every stored string may be
pasted.  The response to an accepted request, if what it echoes is what is stored,
says so if and only if it fits 511 bytes and its strings may be pasted. -/
theorem responses_say_iff (buf : Region listBuf) (forwards : List Tcpforward)
    (cjson : List UInt8 -> Option ForwardRequest) (released : Released) (inetPton : InetPton)
    (table : ForwardTable) (body : List UInt8) (outcomes : AddOutcomes) :
    ((forall f, f ∈ forwards -> f.Terminated) -> (listing forwards).length < listBuf ->
      (ListSays buf forwards ↔ forall f, f ∈ forwards -> Pasteable f.unixPath ∧ Pasteable f.host)) ∧
    (forall after response,
      handleTcpforwardPost cjson released inetPton table body outcomes = (after, response) ->
      response.status = 200 ->
      Exists fun request => Exists fun unixPath => Exists fun port =>
        cjson body = some request ∧ request.unixPath = some unixPath ∧ request.port = some port ∧
        (EchoesStored released request unixPath ->
          (SaysCreated after response ↔
            (createdText table.nextId (released.atEcho unixPath) (request.hostRead released.atEcho) port
              (request.secure.getD false)).length ≤ 511 ∧
            Pasteable (released.atEcho unixPath) ∧ Pasteable (request.hostRead released.atEcho)))) := by
  refine ⟨fun terminated fits => listSays_iff buf terminated fits, fun after response handled accepted => ?_⟩
  rcases handleTcpforwardPost_accepted handled accepted with
    ⟨request, unixPath, port, fd, isRequest, isPath, isPort, linked, printed⟩
  exact ⟨request, unixPath, port, isRequest, isPath, isPort, fun echoes =>
    saysCreated_iff echoes linked printed⟩

/-- A request for a path without anything to escape. -/
def plainRequest : ForwardRequest := ⟨some (ascii "/tmp/s"), none, some 8080, none⟩

/-- The response to it, when everything succeeds. -/
def plainPost : ForwardTable × Response :=
  handleTcpforwardPost (fun _ => some plainRequest) .intact dottedQuad .initial
    (ascii "\x7b\"unix_path\":\"/tmp/s\",\"port\":8080\x7d") succeeding

theorem responses_say_iff_plain_path :
    (forall buf, ListSays buf []) ∧ SaysCreated plainPost.1 plainPost.2 := by
  constructor
  · intro buf
    exact ((responses_say_iff buf [] (fun _ => none) .intact dottedQuad .initial [] succeeding).1
      (fun _ member => absurd member List.not_mem_nil) (by decide)).mpr
      (fun _ member => absurd member List.not_mem_nil)
  · rcases (responses_say_iff ⟨List.replicate listBuf 0, List.length_replicate⟩ [] (fun _ => some plainRequest)
      .intact dottedQuad .initial (ascii "\x7b\"unix_path\":\"/tmp/s\",\"port\":8080\x7d") succeeding).2
      plainPost.1 plainPost.2 rfl (by decide) with ⟨request, unixPath, port, isRequest, isPath, isPort, iff⟩
    cases isRequest
    cases isPath
    cases isPort
    exact (iff (echoesStored_intact_iff.mpr (by decide))).mpr
      ⟨by decide, ⟨forall_mem_of_all (by decide), Utf8.valid_of_ascii (forall_mem_of_all (by decide))⟩,
        ⟨forall_mem_of_all (by decide), Utf8.valid_of_ascii (forall_mem_of_all (by decide))⟩⟩

/-- A request for a path with a quote in it. -/
def quotedRequest : ForwardRequest := ⟨some (ascii "/tmp/a\"b"), none, some 8080, none⟩

/-- The response to it, when everything succeeds. -/
def quotedPost : ForwardTable × Response :=
  handleTcpforwardPost (fun _ => some quotedRequest) .intact dottedQuad .initial
    (ascii "\x7b\"unix_path\":\"/tmp/a\\\"b\",\"port\":8080\x7d") succeeding

/-- The forward it creates. -/
def quotedForward : Tcpforward := newForward 1 (ascii "/tmp/a\"b") (ascii "127.0.0.1") 8080 false 5

/-- The path is stored, and neither response says so. -/
theorem responses_misquote :
    quotedPost.2.status = 200 ∧ ¬ SaysCreated quotedPost.1 quotedPost.2 ∧
      (listing quotedPost.1.forwards).length < listBuf ∧
      forall buf, ¬ ListSays buf quotedPost.1.forwards := by
  have table : quotedPost.1.forwards = [quotedForward] := by decide
  have body : quotedPost.2.body = quotedForward.createdText.take 511 := by decide
  have quote : ¬ Pasteable quotedForward.unixPath := fun pasteable =>
    absurd (pasteable.plain 34 (by decide)).1 (by decide)
  have terminated : forall f, f ∈ [quotedForward] -> f.Terminated := by
    intro f member
    rw [List.mem_singleton.mp member]
    exact ⟨by decide, by decide⟩
  have fits : (listing [quotedForward]).length < listBuf := by decide +kernel
  refine ⟨by decide, ?_, by rw [table]; exact fits, ?_⟩
  · rintro ⟨f, isHead, denotes⟩
    rw [table] at isHead
    rw [body, ← Option.some.inj isHead] at denotes
    exact quote ((denotes_created_iff quotedForward).mp denotes).2.1
  · intro buf listed
    rw [table] at listed
    exact quote ((listSays_iff buf terminated fits).mp listed quotedForward List.mem_cons_self).1

end Forward
end AdbBridge
