import RaphDb.Connection.Command
import RaphDb.Connection.RoundTrip

/-!
# A request and its reply

`client/client.rs` writes a command with `Get::into_frame` or `Set::into_frame`; the server
reads the frame, dispatches it with `Command::from_frame`, applies it and writes one reply; the
client reads the reply with `Client::read_response`.  `Connection::write_frame` and
`Connection::read_frame` are not part of the sources: `Frame.wireBytes` is the bytes a frame
goes out as (`create_bytes`, and for an array its header and its elements' bytes, as the tests
write them), and the reader is `Frame::parse`.

For every key and value, the server reads the request back as the command the client made
(`request_read_back`), and after a successful `apply` the client reads back exactly what the
store answered (`reply_read_back`).  The reply to an unknown command puts the command name
into an `Error` line as it is: the client reads that one frame back exactly when the name holds
no `\r\n`, and otherwise the frame it reads ends inside the reply, leaving the rest of the name
to be read as the next reply (`unknown_reply_framing`).
-/

namespace RaphDb

/-- The bytes `Connection::write_frame` puts on the wire: `create_bytes`, and for an `Array` its
header and its elements' `create_bytes`. -/
def Frame.wireBytes : Frame → Option Bytes
  | .array frames => Frame.arrayBytes frames
  | frame => frame.createBytes

/-- What `Client::get` and `Client::set` return as an error. -/
inductive ClientError where
  /-- An `Error` frame from the server, with its message. -/
  | server (msg : RString)
  /-- `frame.to_error()`: `"unexpected frame: {}"` with the frame's `Display`. -/
  | unexpected (frame : Frame)
  /-- The server closed the connection: `"connection reset by server"`. -/
  | connectionReset

namespace Client

/-- `Client::read_response`, on what `Connection::read_frame` returned. -/
def readResponse : Option Frame → Except ClientError Frame
  | some (.error msg) => .error (.server msg)
  | some frame => .ok frame
  | none => .error .connectionReset

/-- `Client::get` once its request is written: what it makes of the response. -/
def getResponse (response : Option Frame) : Except ClientError (Option Bytes) := do
  match ← readResponse response with
  | .simple value => pure (some value.bytes)
  | .bulk value => pure (some value)
  | .null => pure none
  | frame => throw (.unexpected frame)

/-- `Client::set_cmd` once its request is written. -/
def setResponse (response : Option Frame) : Except ClientError Unit := do
  match ← readResponse response with
  | .simple response =>
    if response = okText then pure () else throw (.unexpected (.simple response))
  | frame => throw (.unexpected frame)

end Client

/-- A frame whose text holds no `\r\n`, and whose elements, for an array, hold none either, is
read back from its bytes, to the last byte. -/
lemma parse_wireBytes {F : Frame} {bytes : Bytes} (h : F.wireBytes = some bytes)
    (hs : F.lineSafe = true) (harr : ∀ frames, F = .array frames → ∀ G ∈ frames, G.lineSafe = true) :
    Frame.parse bytes 0 = .ok F bytes.length := by
  have hcreate : ∀ G : Frame, G.createBytes = some bytes → G.lineSafe = true →
      Frame.parse bytes 0 = .ok G bytes.length :=
    fun G hG hs => by simpa using @parse_of_createBytes G bytes hG hs bytes 0 [] (by simp)
  cases F with
  | array frames => simpa using @parse_of_arrayBytes frames bytes h (harr frames rfl) bytes 0 [] (by simp)
  | _ => exact hcreate _ h hs

/-! ## The request -/

section Request

variable {toLowercase : RString → RString}

/-- The elements of a request are `Bulk` strings, read by length and never as a line. -/
lemma lineSafe_of_mem_bulks {G : Frame} {payloads : List Bytes} {frames : List Frame}
    (hf : Frame.array (payloads.map .bulk) = .array frames) (hG : G ∈ frames) :
    G.lineSafe = true := by
  obtain ⟨_, -, rfl⟩ := List.mem_map.mp (Frame.array.inj hf ▸ hG)
  rfl

/-- **The server reads back what the client asks.**  Where `to_lowercase` leaves `get` and
`set` as they are, for every key and value, the bytes of `Get::into_frame` and
`Set::into_frame` parse back to those frames, to the last byte, and `from_frame` reads them as
that `get` and that `set`. -/
theorem request_read_back (hget : toLowercase getName = getName)
    (hset : toLowercase setName = setName) (key : RString) (value : Bytes) :
    (∀ bytes, (Get.intoFrame key).wireBytes = some bytes →
      Frame.parse bytes 0 = .ok (Get.intoFrame key) bytes.length ∧
        Command.fromFrame toLowercase (Get.intoFrame key) = .ok (.get key)) ∧
    (∀ bytes, (Set.intoFrame key value).wireBytes = some bytes →
      Frame.parse bytes 0 = .ok (Set.intoFrame key value) bytes.length ∧
        Command.fromFrame toLowercase (Set.intoFrame key value) = .ok (.set key value)) := by
  refine ⟨fun bytes h => ⟨parse_wireBytes h rfl fun _ hf _ =>
      @lineSafe_of_mem_bulks _ [getName.bytes, key.bytes] _ hf, ?_⟩,
    fun bytes h => ⟨parse_wireBytes h rfl fun _ hf _ =>
      @lineSafe_of_mem_bulks _ [setName.bytes, key.bytes, value] _ hf, ?_⟩⟩
  · obtain ⟨parts, rest, hf, hp⟩ := parse_of_dispatch (Dispatch.get (n := .bulk getName.bytes)
      (k := .bulk key.bytes) (RString.fromUtf8_bytes _) hget (RString.fromUtf8_bytes key))
    exact fromFrame_eq_ok.mpr ⟨parts, hf, rest, hp⟩
  · obtain ⟨parts, rest, hf, hp⟩ := parse_of_dispatch (Dispatch.set (n := .bulk setName.bytes)
      (k := .bulk key.bytes) (v := .bulk value) (RString.fromUtf8_bytes _) hset
      (RString.fromUtf8_bytes key) rfl)
    exact fromFrame_eq_ok.mpr ⟨parts, hf, rest, hp⟩

end Request

/-- With `lowercaseGet`, the request for `k` reads back as the `get` of `k`. -/
theorem request_read_back_get :
    (lowercaseGet getName = getName ∧ lowercaseGet setName = setName) ∧
      ((∀ bytes, (Get.intoFrame ⟨[107], rfl⟩).wireBytes = some bytes →
        Frame.parse bytes 0 = .ok (Get.intoFrame ⟨[107], rfl⟩) bytes.length ∧
          Command.fromFrame lowercaseGet (Get.intoFrame ⟨[107], rfl⟩) = .ok (.get ⟨[107], rfl⟩)) ∧
      (∀ bytes, (Set.intoFrame ⟨[107], rfl⟩ [13, 10]).wireBytes = some bytes →
        Frame.parse bytes 0 = .ok (Set.intoFrame ⟨[107], rfl⟩ [13, 10]) bytes.length ∧
          Command.fromFrame lowercaseGet (Set.intoFrame ⟨[107], rfl⟩ [13, 10]) =
            .ok (.set ⟨[107], rfl⟩ [13, 10]))) :=
  have hget : lowercaseGet getName = getName := by decide
  have hset : lowercaseGet setName = setName := by decide
  ⟨⟨hget, hset⟩, request_read_back hget hset ⟨[107], rfl⟩ [13, 10]⟩

/-! ## The reply -/

/-- **The client reads back what the store answered.**  For every store, every outcome of the
connection's writes and every key and value: where `apply` succeeds, it wrote exactly one frame,
the store call succeeded, the frame's bytes parse back to it, and the client makes of it exactly
the store's answer: the value or its absence for `get`, `Ok(())` for `set`. -/
theorem reply_read_back (writeError : Frame → Option RString) (kv : StoreOps)
    (out out' : List Frame) :
    (∀ key, Command.apply writeError kv (.get key) out = .ok () out' →
      ∃ frame r, out' = out ++ [frame] ∧ kv.get key = .ok r ∧
        (∀ bytes, frame.wireBytes = some bytes → Frame.parse bytes 0 = .ok frame bytes.length) ∧
        Client.getResponse (some frame) = .ok r) ∧
    (∀ key value, Command.apply writeError kv (.set key value) out = .ok () out' →
      ∃ frame, out' = out ++ [frame] ∧ kv.set key value = .ok () ∧
        (∀ bytes, frame.wireBytes = some bytes → Frame.parse bytes 0 = .ok frame bytes.length) ∧
        Client.setResponse (some frame) = .ok ()) := by
  refine ⟨fun key h => ?_, fun key value h => ?_⟩
  · obtain ⟨frame, hreply, -, hout⟩ := Command.apply_eq_ok h
    simp only [Command.reply] at hreply
    rcases hr : kv.get key with e | r <;> rw [hr] at hreply
    · cases hreply
    · cases hreply
      refine ⟨_, r, hout, rfl, fun bytes hb => parse_wireBytes hb ?_ ?_, ?_⟩ <;>
        rcases r with _ | v <;> first | rfl | nofun
  · obtain ⟨frame, hreply, -, hout⟩ := Command.apply_eq_ok h
    simp only [Command.reply] at hreply
    rcases hs : kv.set key value with e | u <;> rw [hs] at hreply
    · cases hreply
    · cases hreply
      exact ⟨_, hout, rfl, fun bytes hb => parse_wireBytes hb rfl nofun, rfl⟩

/-- A store that holds `v` for every key, on a connection whose writes succeed: the client's
`get` reads `v` back, and its `set` reads `OK`. -/
theorem reply_read_back_const :
    (∀ key, Command.apply (fun _ => none) ⟨fun _ => .ok (some [118]), fun _ _ => .ok ()⟩ (.get key)
        [] = .ok () [.bulk [118]] →
      ∃ frame r, [.bulk [118]] = [] ++ [frame] ∧
        (⟨fun _ => .ok (some [118]), fun _ _ => .ok ()⟩ : StoreOps).get key = .ok r ∧
        (∀ bytes, frame.wireBytes = some bytes → Frame.parse bytes 0 = .ok frame bytes.length) ∧
        Client.getResponse (some frame) = .ok r) ∧
    Command.apply (fun _ => none) ⟨fun _ => .ok (some [118]), fun _ _ => .ok ()⟩
      (.get ⟨[107], rfl⟩) [] = .ok () [.bulk [118]] :=
  ⟨(reply_read_back (fun _ => none) ⟨fun _ => .ok (some [118]), fun _ _ => .ok ()⟩ []
    [.bulk [118]]).1, rfl⟩

/-! ## The reply to an unknown command -/

/-- The text of `Unknown::apply`'s reply holds a `\r\n` exactly where the command name does,
21 bytes further on. -/
lemma crlfIndex_unknownCommandMessage (commandName : RString) :
    crlfIndex (unknownCommandMessage commandName).bytes =
      (crlfIndex commandName.bytes).map (21 + ·) := by
  dsimp only [unknownCommandMessage]
  rw [List.append_assoc, crlfIndex_append_left ?_ ?_, crlfIndex_append_right ?_ ?_]
  all_goals first | rfl | decide

/-- **An unknown command's name can split its reply.**  `Unknown::apply` writes the name into
an `Error` line as it is.  If the name holds no `\r\n`, the client reads the reply back as that
one frame, to the last byte.  If its first `\r\n` is at `j`, the frame the client reads ends
at byte `j + 24`, inside the reply, and what follows is read as the next reply. -/
theorem unknown_reply_framing (commandName : RString) {bytes : Bytes}
    (hb : (Frame.error (unknownCommandMessage commandName)).wireBytes = some bytes) :
    (crlfIndex commandName.bytes = none →
      Frame.parse bytes 0 = .ok (.error (unknownCommandMessage commandName)) bytes.length) ∧
    (∀ j, crlfIndex commandName.bytes = some j → j + 24 < bytes.length ∧
      ((∃ F, Frame.parse bytes 0 = .ok F (j + 24)) ∨
        Frame.parse bytes 0 = .error (.frame invalidFrameFormat) (j + 24))) := by
  have hmsg := crlfIndex_unknownCommandMessage commandName
  refine ⟨fun hn => parse_wireBytes hb (by simp [Frame.lineSafe, hmsg, hn]) nofun, fun j hj => ?_⟩
  obtain ⟨rfl, -⟩ := bytesMut_eq_some hb
  have hline : crlfIndex ((unknownCommandMessage commandName).bytes ++ crlf) = some (21 + j) :=
    crlfIndex_append_of_eq_some _ (by rw [hmsg, hj]; rfl)
  have hget : getLine (45 :: ((unknownCommandMessage commandName).bytes ++ crlf)) 1 =
      .ok (((unknownCommandMessage commandName).bytes ++ crlf).take (21 + j)) (j + 24) := by
    rw [getLine_eq (List.cons_ne_nil _ _), List.drop_one, List.tail_cons, hline]
    exact congrArg (EStateM.Result.ok _) (by omega)
  have hlen := crlfIndex_add_two_le hj
  refine ⟨by simp [unknownCommandMessage, crlf]; omega, ?_⟩
  rw [List.cons_append, @parse_of_drop_cons _ 0 45 _ rfl, parseByte_error, bind_of_ok hget]
  cases RString.fromUtf8 _
  · exact .inr rfl
  · exact .inl ⟨_, rfl⟩

/-- The name `x\r\n+OK`: the client reads an `Error` that ends after `x`, and then the rest of
the reply as a second reply, the `Simple` frame `OK'`. -/
theorem unknown_reply_framing_injected :
    ∃ bytes, (Frame.error (unknownCommandMessage ⟨[120, 13, 10, 43, 79, 75], rfl⟩)).wireBytes =
        some bytes ∧
      ((crlfIndex [120, 13, 10, 43, 79, 75] = none →
          Frame.parse bytes 0 =
            .ok (.error (unknownCommandMessage ⟨[120, 13, 10, 43, 79, 75], rfl⟩)) bytes.length) ∧
        (∀ j, crlfIndex [120, 13, 10, 43, 79, 75] = some j → j + 24 < bytes.length ∧
          ((∃ F, Frame.parse bytes 0 = .ok F (j + 24)) ∨
            Frame.parse bytes 0 = .error (.frame invalidFrameFormat) (j + 24)))) ∧
      Frame.parse bytes 25 = .ok (.simple ⟨[79, 75, 39], rfl⟩) bytes.length :=
  ⟨_, rfl, unknown_reply_framing ⟨[120, 13, 10, 43, 79, 75], rfl⟩ rfl, rfl⟩

end RaphDb
