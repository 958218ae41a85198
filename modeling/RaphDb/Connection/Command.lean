import RaphDb.Connection.Frame

/-!
# The command dispatcher

`connection/cmd/mod.rs` turns a frame into a `Command` and applies it.  `Command::from_frame`
reads the frame through a `Parser` (`connection/parser.rs`): the frame must be an array; its
first element, read as a string and lower-cased, names the command; `get` reads a key, `set` a
key and a value, and both then require the array to end.  Any other name is `Unknown`, and its
remaining elements are not read.

`str::to_lowercase` is Unicode's lower-case mapping; here it is the parameter `toLowercase`, and
nothing below depends on which function it is.  `fromFrame_dispatch` says that `from_frame`
accepts exactly the frames of the dispatcher grammar `Dispatch`, which follows the words of
the specification.

`Command::apply` calls the store and writes one reply, the frame `Command.reply` gives.  A
store error is returned with `?` before the reply is written, so the connection gets no frame
for it (`apply_get_store_error`); an `apply` that succeeds has written that one frame and no
other (`Command.apply_eq_ok`).
`Connection::write_frame` is not part of the sources; its outcome is the parameter
`writeError`.
-/

namespace RaphDb

/-- The errors of `Parser`, one per message. -/
inductive ParserError where
  /-- `EndOfStream`: `"protocol error; unexpected end of stream"`. -/
  | endOfStream
  /-- `"protocol error; expected array, got {:?}"`. -/
  | expectedArray (frame : Frame)
  /-- `"protocol error; invalid string"`. -/
  | invalidString
  /-- `"protocol error; expected simple frame or bulk frame, got {:?}"`. -/
  | expectedSimpleOrBulk (frame : Frame)
  /-- `"protocol error; expected end of frame, but there was more"`. -/
  | expectedEnd

/-- A `Parser` reading: the elements of the array not read yet as its state. -/
abbrev ParserM := StateT (List Frame) (Except ParserError)

namespace Parser

/-- `Parser::new`: the elements of an array frame. -/
def new (frame : Frame) : Except ParserError (List Frame) :=
  match frame with
  | .array array => .ok array
  | frame => .error (.expectedArray frame)

/-- `Parser::next`. -/
def next : ParserM Frame := fun parts =>
  match parts with
  | [] => .error .endOfStream
  | frame :: rest => .ok (frame, rest)

/-- `Parser::next_string`: a `Simple` frame's text, or a `Bulk` frame's bytes read as UTF-8. -/
def nextString : ParserM RString := do
  match ← next with
  | .simple s => pure s
  | .bulk data =>
    match RString.fromUtf8 data with
    | some s => pure s
    | none => throw .invalidString
  | frame => throw (.expectedSimpleOrBulk frame)

/-- `Parser::next_bytes`: the bytes of a `Simple` or `Bulk` frame. -/
def nextBytes : ParserM Bytes := do
  match ← next with
  | .simple s => pure s.bytes
  | .bulk data => pure data
  | frame => throw (.expectedSimpleOrBulk frame)

/-- `Parser::finish`. -/
def finish : ParserM Unit := fun parts =>
  match parts with
  | [] => .ok ((), [])
  | _ :: _ => .error .expectedEnd

end Parser

/-- `Command`. -/
inductive Command where
  | get (key : RString)
  | set (key : RString) (value : Bytes)
  | unknown (commandName : RString)

/-- `"get"`. -/
def getName : RString := ⟨[103, 101, 116], rfl⟩

/-- `"set"`. -/
def setName : RString := ⟨[115, 101, 116], rfl⟩

/-- `Get::parse_frames`. -/
def Get.parseFrames : ParserM RString := Parser.nextString

/-- `Set::parse_frames`. -/
def Set.parseFrames : ParserM (RString × Bytes) := do
  let key ← Parser.nextString
  let value ← Parser.nextBytes
  pure (key, value)

/-- `Get::into_frame`: the request `Client::get` writes. -/
def Get.intoFrame (key : RString) : Frame := .array [.bulk getName.bytes, .bulk key.bytes]

/-- `Set::into_frame`: the request `Client::set` writes. -/
def Set.intoFrame (key : RString) (value : Bytes) : Frame :=
  .array [.bulk setName.bytes, .bulk key.bytes, .bulk value]

section FromFrame

variable (toLowercase : RString → RString)

/-- The `Parser` part of `Command::from_frame`. -/
def Command.parse : ParserM Command := do
  let commandName := toLowercase (← Parser.nextString)
  if commandName = getName then
    let key ← Get.parseFrames
    Parser.finish
    pure (.get key)
  else if commandName = setName then
    let (key, value) ← Set.parseFrames
    Parser.finish
    pure (.set key value)
  else
    -- `return` skips `finish`: the other elements are left unread
    pure (.unknown commandName)

/-- `Command::from_frame`. -/
def Command.fromFrame (frame : Frame) : Except ParserError Command :=
  Parser.new frame >>= fun parts => Prod.fst <$> Command.parse toLowercase parts

end FromFrame

/-! ## What the parser reads -/

namespace Parser

variable {α β : Type} {x : ParserM α} {f : α → ParserM β} {parts rest : List Frame}

lemma bind_apply (x : ParserM α) (f : α → ParserM β) (parts : List Frame) :
    (x >>= f) parts = match x parts with
      | .ok (a, rest) => f a rest
      | .error e => .error e := by
  show StateT.bind x f parts = _
  simp only [StateT.bind]
  rcases x parts with e | ⟨a, rest⟩ <;> rfl

lemma bind_eq_ok {r : β × List Frame} (h : (x >>= f) parts = .ok r) :
    ∃ a rest, x parts = .ok (a, rest) ∧ f a rest = .ok r := by
  rw [bind_apply] at h
  split at h
  · exact ⟨_, _, ‹_›, h⟩
  · cases h

lemma bind_of_ok {a : α} (h : x parts = .ok (a, rest)) : (x >>= f) parts = f a rest := by
  rw [bind_apply, h]

@[simp] lemma pure_apply (a : α) (parts : List Frame) : (pure a : ParserM α) parts = .ok (a, parts) :=
  rfl

@[simp] lemma throw_apply (e : ParserError) (parts : List Frame) :
    (throw e : ParserM α) parts = .error e :=
  rfl

end Parser

/-- The text of a string-like element: a `Simple` frame, or a `Bulk` frame that is UTF-8. -/
def Frame.text? : Frame → Option RString
  | .simple s => some s
  | .bulk data => RString.fromUtf8 data
  | _ => none

/-- The bytes of a `Simple` or `Bulk` element. -/
def Frame.bytes? : Frame → Option Bytes
  | .simple s => some s.bytes
  | .bulk data => some data
  | _ => none

namespace Parser

variable {parts rest : List Frame}

/-- `next_string` reads the first element, string-like. -/
lemma nextString_eq_ok {s : RString} :
    nextString parts = .ok (s, rest) ↔ ∃ frame, parts = frame :: rest ∧ frame.text? = some s := by
  rcases parts with _ | ⟨frame, rest'⟩
  · simp [nextString, next, bind_apply]
  · rw [nextString, bind_of_ok rfl]
    simp only [List.cons.injEq, and_assoc, exists_eq_left']
    cases frame with
    | bulk data => cases h : RString.fromUtf8 data <;> simp [Frame.text?, h, eq_comm, and_comm]
    | _ => simp [Frame.text?, eq_comm, and_comm]

/-- `next_bytes` reads the first element, `Simple` or `Bulk`. -/
lemma nextBytes_eq_ok {b : Bytes} :
    nextBytes parts = .ok (b, rest) ↔ ∃ frame, parts = frame :: rest ∧ frame.bytes? = some b := by
  rcases parts with _ | ⟨frame, rest'⟩
  · simp [nextBytes, next, bind_apply]
  · rw [nextBytes, bind_of_ok rfl]
    simp only [List.cons.injEq, and_assoc, exists_eq_left']
    cases frame <;> simp [Frame.bytes?, eq_comm, and_comm]

/-- `finish` succeeds on an empty rest. -/
lemma finish_eq_ok {u : Unit} : finish parts = .ok (u, rest) ↔ parts = [] ∧ rest = [] := by
  rcases parts with _ | ⟨frame, rest'⟩ <;> simp [finish, eq_comm]

end Parser

/-- `Set::parse_frames` reads a string-like key and a `Simple` or `Bulk` value. -/
lemma Set.parseFrames_eq_ok {parts rest : List Frame} {key : RString} {value : Bytes} :
    Set.parseFrames parts = .ok ((key, value), rest) ↔
      ∃ k v, parts = k :: v :: rest ∧ k.text? = some key ∧ v.bytes? = some value := by
  constructor
  · intro h
    obtain ⟨_, rest1, hkey, h1⟩ := Parser.bind_eq_ok h
    obtain ⟨k, rfl, hk⟩ := Parser.nextString_eq_ok.mp hkey
    obtain ⟨_, rest2, hval, h2⟩ := Parser.bind_eq_ok h1
    obtain ⟨v, rfl, hv⟩ := Parser.nextBytes_eq_ok.mp hval
    cases h2
    exact ⟨k, v, rfl, hk, hv⟩
  · rintro ⟨k, v, rfl, hk, hv⟩
    rw [Set.parseFrames, Parser.bind_of_ok (Parser.nextString_eq_ok.mpr ⟨k, rfl, hk⟩),
      Parser.bind_of_ok (Parser.nextBytes_eq_ok.mpr ⟨v, rfl, hv⟩)]
    rfl

section Grammar

variable (toLowercase : RString → RString)

/-- The dispatcher grammar, in the words of the specification: `Get` for an array of a
string-like name that lower-cases to `get` and a string-like key; `Set` for a name that
lower-cases to `set`, a string-like key and a `Simple` or `Bulk` value; `Unknown` for any other
string-like name, whatever follows it. -/
inductive Dispatch : Frame → Command → Prop where
  | get {n k : Frame} {name key : RString} (hn : n.text? = some name)
      (hname : toLowercase name = getName) (hk : k.text? = some key) :
      Dispatch (.array [n, k]) (.get key)
  | set {n k v : Frame} {name key : RString} {value : Bytes} (hn : n.text? = some name)
      (hname : toLowercase name = setName) (hk : k.text? = some key)
      (hv : v.bytes? = some value) :
      Dispatch (.array [n, k, v]) (.set key value)
  | unknown {n : Frame} {rest : List Frame} {name : RString} (hn : n.text? = some name)
      (hget : toLowercase name ≠ getName) (hset : toLowercase name ≠ setName) :
      Dispatch (.array (n :: rest)) (.unknown (toLowercase name))

variable {toLowercase}

/-- **Nothing outside the grammar.**  What `parse` accepts is a grammar frame. -/
lemma dispatch_of_parse {parts rest : List Frame} {c : Command}
    (h : Command.parse toLowercase parts = .ok (c, rest)) :
    Dispatch toLowercase (.array parts) c := by
  obtain ⟨name, rest1, hname, h1⟩ := Parser.bind_eq_ok h
  obtain ⟨n, rfl, hn⟩ := Parser.nextString_eq_ok.mp hname
  dsimp only at h1
  by_cases hget : toLowercase name = getName
  · rw [if_pos hget] at h1
    obtain ⟨key, rest2, hkey, h2⟩ := Parser.bind_eq_ok h1
    obtain ⟨k, rfl, hk⟩ := Parser.nextString_eq_ok.mp hkey
    obtain ⟨_, rest3, hfin, h3⟩ := Parser.bind_eq_ok h2
    obtain ⟨rfl, rfl⟩ := Parser.finish_eq_ok.mp hfin
    cases h3
    exact .get hn hget hk
  rw [if_neg hget] at h1
  by_cases hset : toLowercase name = setName
  · rw [if_pos hset] at h1
    obtain ⟨⟨key, value⟩, rest2, hkv, h2⟩ := Parser.bind_eq_ok h1
    obtain ⟨k, v, rfl, hk, hv⟩ := Set.parseFrames_eq_ok.mp hkv
    obtain ⟨_, rest3, hfin, h3⟩ := Parser.bind_eq_ok h2
    obtain ⟨rfl, rfl⟩ := Parser.finish_eq_ok.mp hfin
    cases h3
    exact .set hn hset hk hv
  · rw [if_neg hset] at h1
    cases h1
    exact .unknown hn hget hset

/-- **Every grammar frame is accepted.**  It is an array, and `parse` reads its elements. -/
lemma parse_of_dispatch {f : Frame} {c : Command} (h : Dispatch toLowercase f c) :
    ∃ parts rest, f = .array parts ∧ Command.parse toLowercase parts = .ok (c, rest) := by
  cases h with
  | @get n k name key hn hname hk =>
    refine ⟨_, [], rfl, ?_⟩
    rw [Command.parse, Parser.bind_of_ok (Parser.nextString_eq_ok.mpr ⟨n, rfl, hn⟩)]
    dsimp only
    rw [if_pos hname, Get.parseFrames, Parser.bind_of_ok (Parser.nextString_eq_ok.mpr ⟨k, rfl, hk⟩)]
    rfl
  | @set n k v name key value hn hname hk hv =>
    refine ⟨_, [], rfl, ?_⟩
    have hget : toLowercase name ≠ getName := by rw [hname]; decide
    rw [Command.parse, Parser.bind_of_ok (Parser.nextString_eq_ok.mpr ⟨n, rfl, hn⟩)]
    dsimp only
    rw [if_neg hget, if_pos hname,
      Parser.bind_of_ok (Set.parseFrames_eq_ok.mpr ⟨k, v, rfl, hk, hv⟩)]
    rfl
  | @unknown n rest name hn hget hset =>
    refine ⟨_, rest, rfl, ?_⟩
    rw [Command.parse, Parser.bind_of_ok (Parser.nextString_eq_ok.mpr ⟨n, rfl, hn⟩)]
    dsimp only
    rw [if_neg hget, if_neg hset]
    rfl

/-- `from_frame` succeeds on an array whose elements `parse` reads. -/
lemma fromFrame_eq_ok {f : Frame} {c : Command} :
    Command.fromFrame toLowercase f = .ok c ↔
      ∃ parts, f = .array parts ∧ ∃ rest, Command.parse toLowercase parts = .ok (c, rest) := by
  cases f with
  | array parts =>
    simp only [Frame.array.injEq, exists_eq_left']
    show Prod.fst <$> Command.parse toLowercase parts = _ ↔ _
    rcases Command.parse toLowercase parts with e | ⟨c', rest⟩ <;>
      simp [Functor.map, Except.map, eq_comm]
  | _ => simp [Command.fromFrame, Parser.new, bind, Except.bind]

variable (toLowercase)

/-- **`Command::from_frame` is the dispatcher grammar.**  For every frame, `from_frame`
returns `Ok c` exactly when the frame derives `c` in `Dispatch`, and an error exactly when it
derives nothing: a non-array, an empty array, a first element that is not string-like, or the
wrong number or kind of elements for `get` or `set`. -/
theorem fromFrame_dispatch (f : Frame) :
    (∀ c, Command.fromFrame toLowercase f = .ok c ↔ Dispatch toLowercase f c) ∧
      ((∃ e, Command.fromFrame toLowercase f = .error e) ↔ ¬ ∃ c, Dispatch toLowercase f c) := by
  have hok : ∀ c, Command.fromFrame toLowercase f = .ok c ↔ Dispatch toLowercase f c :=
    fun c => fromFrame_eq_ok.trans
      ⟨fun ⟨_, hf, _, h⟩ => hf ▸ dispatch_of_parse h,
        fun h => (parse_of_dispatch h).imp fun _ ⟨rest, hf, hp⟩ => ⟨hf, rest, hp⟩⟩
  refine ⟨hok, ?_⟩
  simp only [← hok]
  cases Command.fromFrame toLowercase f <;> simp

end Grammar

/-- A lower-casing that sends `GET` to `get` and leaves other text as it is. -/
def lowercaseGet (s : RString) : RString := if s = ⟨[71, 69, 84], rfl⟩ then getName else s

/-- `[GET]` lacks the key: `from_frame` fails on it, so the grammar derives nothing from it. -/
theorem fromFrame_dispatch_missing_key :
    (∃ e, Command.fromFrame lowercaseGet (.array [.simple ⟨[71, 69, 84], rfl⟩]) = .error e) ∧
      ¬ ∃ c, Dispatch lowercaseGet (.array [.simple ⟨[71, 69, 84], rfl⟩]) c :=
  have herr : ∃ e, Command.fromFrame lowercaseGet (.array [.simple ⟨[71, 69, 84], rfl⟩]) =
      .error e := ⟨.endOfStream, rfl⟩
  ⟨herr, ((fromFrame_dispatch lowercaseGet (.array [.simple ⟨[71, 69, 84], rfl⟩])).2).mp herr⟩

example : Command.fromFrame lowercaseGet (.array [.bulk [71, 69, 84], .bulk [107]]) =
    .ok (.get ⟨[107], rfl⟩) := rfl

/-! ## Applying a command -/

/-- The calls `apply` makes on `Box<dyn KeyValueStore>`; an error is its message. -/
structure StoreOps where
  get : RString → Except RString (Option Bytes)
  set : RString → Bytes → Except RString Unit

/-- Applying a command to a connection: the frames written so far as the state, and the
message of the error `apply` returns. -/
abbrev ApplyM := EStateM RString (List Frame)

/-- The `?` after a store call. -/
def tryStore {α : Type} : Except RString α → ApplyM α
  | .ok a => pure a
  | .error e => throw e

/-- `"OK"`. -/
def okText : RString := ⟨[79, 75], rfl⟩

/-- `format!("ERR unknown command '{}'", command_name)`. -/
def unknownCommandMessage (commandName : RString) : RString :=
  ⟨[69, 82, 82, 32, 117, 110, 107, 110, 111, 119, 110, 32, 99, 111, 109, 109, 97, 110, 100, 32,
      39] ++ commandName.bytes ++ [39], by
    rw [utf8Valid_append [39] (by rw [utf8Valid_append _ (by decide)]; exact commandName.valid)]
    rfl⟩

section Apply

variable (writeError : Frame → Option RString)

/-- `Connection::write_frame`: appends the frame, unless the write fails with
`writeError frame`. -/
def writeFrame (frame : Frame) : ApplyM Unit := fun out =>
  match writeError frame with
  | some e => .error e out
  | none => .ok () (out ++ [frame])

/-- `Get::apply`. -/
def Get.apply (kv : StoreOps) (key : RString) : ApplyM Unit := do
  let response := match ← tryStore (kv.get key) with
    | some value => Frame.bulk value
    | none => Frame.null
  writeFrame writeError response

/-- `Set::apply`. -/
def Set.apply (kv : StoreOps) (key : RString) (value : Bytes) : ApplyM Unit := do
  tryStore (kv.set key value)
  writeFrame writeError (.simple okText)

/-- `Unknown::apply`. -/
def Unknown.apply (commandName : RString) : ApplyM Unit :=
  writeFrame writeError (.error (unknownCommandMessage commandName))

/-- `Command::apply`. -/
def Command.apply (kv : StoreOps) : Command → ApplyM Unit
  | .get key => Get.apply writeError kv key
  | .set key value => Set.apply writeError kv key value
  | .unknown commandName => Unknown.apply writeError commandName

end Apply

/-- What `apply` answers for a command: the reply frame, or the store's error. -/
def Command.reply (kv : StoreOps) : Command → Except RString Frame
  | .get key => (kv.get key).map fun
    | some value => .bulk value
    | none => .null
  | .set key value => (kv.set key value).map fun _ => .simple okText
  | .unknown commandName => .ok (.error (unknownCommandMessage commandName))

/-- A `get` of `k` from a store whose `get` fails with `io`, on a connection whose writes all
succeed: `apply` returns the error and writes no frame. -/
theorem apply_get_store_error :
    Command.fromFrame lowercaseGet (.array [.bulk [103, 101, 116], .bulk [107]]) =
        .ok (.get ⟨[107], rfl⟩) ∧
      Command.apply (fun _ => none) ⟨fun _ => .error ⟨[105, 111], rfl⟩, fun _ _ => .ok ()⟩
          (.get ⟨[107], rfl⟩) [] = .error ⟨[105, 111], rfl⟩ [] :=
  ⟨rfl, rfl⟩

/-- `write_frame` succeeds only by appending its frame. -/
lemma writeFrame_eq_ok {writeError : Frame → Option RString} {frame : Frame} {out out' : List Frame}
    {u : Unit} (h : writeFrame writeError frame out = .ok u out') :
    writeError frame = none ∧ out' = out ++ [frame] := by
  unfold writeFrame at h
  split at h
  · cases h
  · cases h
    exact ⟨‹_›, rfl⟩

/-- `apply` succeeds only by writing the reply: the store call succeeded, and so did the one
write. -/
lemma Command.apply_eq_ok {writeError : Frame → Option RString} {kv : StoreOps} {c : Command}
    {out out' : List Frame} {u : Unit} (h : c.apply writeError kv out = .ok u out') :
    ∃ frame, c.reply kv = .ok frame ∧ writeError frame = none ∧ out' = out ++ [frame] := by
  cases c with
  | get key =>
    dsimp only [Command.apply, Get.apply, Command.reply] at h ⊢
    revert h
    rcases kv.get key with e | _ | v
    · nofun
    all_goals exact fun h => ⟨_, rfl, writeFrame_eq_ok h⟩
  | set key value =>
    dsimp only [Command.apply, Set.apply, Command.reply] at h ⊢
    revert h
    rcases kv.set key value with e | _
    · nofun
    · exact fun h => ⟨_, rfl, writeFrame_eq_ok h⟩
  | unknown commandName => exact ⟨_, rfl, writeFrame_eq_ok h⟩

end RaphDb
