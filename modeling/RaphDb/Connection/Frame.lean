import RaphDb.Connection.Cursor

/-!
# RESP frames: `create_bytes`, `check` and `parse`

The frame type of `connection/frame.rs` and its three codec functions.

* `Frame.createBytes` is `Frame::create_bytes`.  It returns `none` where the code panics:
  on an `Array` (`unreachable!()`), and on a frame whose encoding would grow the `BytesMut`
  past `isize::MAX` bytes.  `Frame.arrayBytes` writes an array as the tests
  `test_check`/`test_parse` do: the header, then every element's `create_bytes`.
* `Frame.check` and `Frame.parse` are `Frame::check` and `Frame::parse`.  Each is one level
  of the source's body, `checkStep` and `parseStep`, whose recursive call for the elements
  of an `Array` is a parameter.  The function itself is that level unrolled
  `buf.length + 1` times.
* `Frame.eq` is the hand-written `impl PartialEq<Frame> for Frame`, the `==` of the tests; it
  is structural equality (`Frame.eq_iff_eq`).

## The recursion is bounded by the buffer

Every level starts with `get_u8`, so a nested call starts strictly further into the
buffer, and `buf.length + 1` levels are more than any run can use.  `Unrollable` names the
three facts this takes of a level, `unroll_fuel` shows that above the bound the result does
not depend on the number of levels, and `Frame.check_eq` and `Frame.parse_eq` give the
unfolding equations `check = checkStep check` and `parse = parseStep parse`.  Everything
after this module reasons through these two equations and never sees the fuel.

## What the model leaves out

Two limits of the code are not in the model.  `Vec::with_capacity(len)` in `parse`'s `Array`
arm is taken to succeed: it panics (capacity overflow) once `len` elements of a `Frame` pass
`isize::MAX` bytes, which a frame of at least 8 bytes reaches from `len = 2 ^ 60` on
(`*1152921504606846976\r\n`), and the allocator aborts the process on a smaller length it
cannot serve.  `parse` run on its own reaches both; after a successful `check` the array has
at most one element per byte of the buffer.  And `check` and `parse` recurse once per level
of `Array` nesting, so a nesting deep enough overflows the thread's stack, which aborts; the
model's recursion is bounded only by the buffer's length.
-/

namespace RaphDb

/-- `Frame`. -/
inductive Frame where
  | simple (s : RString)
  | error (s : RString)
  | integer (n : UInt64)
  | bulk (data : Bytes)
  | null
  | array (frames : List Frame)

/-- `b"\r\n"`. -/
def crlf : Bytes := [13, 10]

/-- `isize::MAX`, the most bytes a `BytesMut` can hold. -/
def isizeMax : Nat := 2 ^ 63 - 1

/-- A `BytesMut` filled with `out`; past `isize::MAX` bytes the growth panics. -/
def bytesMut (out : Bytes) : Option Bytes := if out.length ≤ isizeMax then some out else none

namespace Frame

/-- `Frame::create_bytes`; `none` is a panic. -/
def createBytes : Frame → Option Bytes
  | .simple s => bytesMut (43 :: s.bytes ++ crlf)
  | .error s => bytesMut (45 :: s.bytes ++ crlf)
  | .integer n => bytesMut (58 :: decimal n.toNat ++ crlf)
  | .null => bytesMut [36, 45, 49, 13, 10]
  | .bulk v => bytesMut (36 :: decimal v.length ++ crlf ++ v ++ crlf)
  | .array _ => none

/-- An `Array` as the connection writer and the tests `test_check`/`test_parse` write it:
`*`, the element count, `\r\n`, then each element's `create_bytes`. -/
def arrayBytes (frames : List Frame) : Option Bytes := do
  let parts ← frames.mapM createBytes
  bytesMut (42 :: decimal frames.length ++ crlf ++ parts.flatten)

example : (simple ⟨[102, 111, 111], rfl⟩).createBytes = some [43, 102, 111, 111, 13, 10] := by
  decide

/-! ## Equality

`impl PartialEq<Frame> for Frame` is written by hand: the contents of two frames of one
variant are compared, two `Array`s element by element through `Vec`'s `==`, and any other
pair by its `discriminant`.  It is structural equality (`Frame.eq_iff_eq`): the `assert_eq!`
of the tests on frames checks the equality the theorems here state. -/

/-- `core::mem::discriminant`: the variant. -/
def discriminant : Frame → Nat
  | .simple _ => 0
  | .error _ => 1
  | .integer _ => 2
  | .bulk _ => 3
  | .null => 4
  | .array _ => 5

mutual

/-- `impl PartialEq<Frame> for Frame`. -/
def eq : Frame → Frame → Bool
  | .simple l0, .simple r0 => l0.bytes == r0.bytes
  | .error l0, .error r0 => l0.bytes == r0.bytes
  | .integer l0, .integer r0 => l0 == r0
  | .bulk l0, .bulk r0 => l0 == r0
  | .array l0, .array r0 => eqList l0 r0
  | a, b => a.discriminant == b.discriminant

/-- `==` on `Vec<Frame>`: the same length, and `==` element by element. -/
def eqList : List Frame → List Frame → Bool
  | [], [] => true
  | a :: l, b :: r => eq a b && eqList l r
  | _, _ => false

end

/-- `==` on `Vec<Frame>` is list equality, where `==` on the elements is equality. -/
lemma eqList_iff {l r : List Frame} (h : ∀ a ∈ l, ∀ b, eq a b = true ↔ a = b) :
    eqList l r = true ↔ l = r := by
  induction l generalizing r with
  | nil => cases r <;> simp [eqList]
  | cons a l ih =>
    cases r with
    | nil => simp [eqList]
    | cons b r =>
      simp [eqList, h a (List.mem_cons_self _ _) b,
        ih fun a' ha' => h a' (List.mem_cons_of_mem _ ha')]

/-- **`==` on frames is structural equality**: the same variant with equal contents, arrays
element by element, at every depth. -/
theorem eq_iff_eq : ∀ a b : Frame, eq a b = true ↔ a = b
  | .array l0, b => by
    cases b with
    | array r0 => simp [eq, @eqList_iff l0 r0 fun a _ b => eq_iff_eq a b]
    | _ => simp [eq, discriminant]
  | .simple _, b | .error _, b | .integer _, b | .bulk _, b | .null, b => by
    cases b <;> simp [eq, discriminant, RString.bytes_inj]
termination_by a => a

end Frame

/-! ## The loops of `check` and `parse` -/

/-- `for _ in 0..n { body?; }`. -/
def repeatM (n : Nat) (body : CursorM Unit) : CursorM Unit :=
  match n with
  | 0 => pure ()
  | n + 1 => body >>= fun _ => repeatM n body

/-- `for _ in 0..n { out.push(item?); }`, from an empty `out`. -/
def collectM (n : Nat) (item : CursorM Frame) : CursorM (List Frame) :=
  match n with
  | 0 => pure []
  | n + 1 => item >>= fun f => collectM n item >>= fun fs => pure (f :: fs)

lemma Forward.repeatM {r : CursorM Unit} (hr : Forward r) : ∀ n, Forward (RaphDb.repeatM n r)
  | 0 => Forward.pure _
  | n + 1 => hr.bind fun _ => Forward.repeatM hr n

lemma Forward.collectM {r : CursorM Frame} (hr : Forward r) : ∀ n, Forward (RaphDb.collectM n r)
  | 0 => Forward.pure _
  | n + 1 => hr.bind fun _ => (Forward.collectM hr n).bind fun _ => Forward.pure _

lemma repeatM_congr {r r' : CursorM Unit} (hr : Forward r) {p : Nat}
    (h : ∀ q, p ≤ q → r q = r' q) : ∀ n q, p ≤ q → repeatM n r q = repeatM n r' q
  | 0, _, _ => rfl
  | n + 1, q, hq => by
    simp only [repeatM, bind_apply, ← h q hq]
    rcases hrq : r q with ⟨a, q'⟩ | _
    · exact repeatM_congr hr h n q' (hq.trans (hr hrq))
    · rfl

lemma collectM_congr {r r' : CursorM Frame} (hr : Forward r) {p : Nat}
    (h : ∀ q, p ≤ q → r q = r' q) : ∀ n q, p ≤ q → collectM n r q = collectM n r' q
  | 0, _, _ => rfl
  | n + 1, q, hq => by
    simp only [collectM, bind_apply, ← h q hq]
    rcases hrq : r q with ⟨a, q'⟩ | _
    · simp only [collectM_congr hr h n q' (hq.trans (hr hrq))]
    · rfl

/-! ## One level of `check` and of `parse` -/

/-- The `Other` error for a frame type byte that is none of `+ - : $ *`. -/
def invalidTypeByte (b : UInt8) : FrameError :=
  .other ("protocol error; invalid frame type byte `" ++ toString b ++ "`")

/-- `Frame::check` once its first byte `b` is read, with `check` the recursive call for the
elements of an array. -/
def checkByte (buf : Bytes) (check : CursorM Unit) (b : UInt8) : CursorM Unit :=
  if b = 43 then do         -- b'+'
    let _ ← getLine buf
    pure ()
  else if b = 45 then do    -- b'-'
    let _ ← getLine buf
    pure ()
  else if b = 58 then do    -- b':'
    let _ ← getDecimal buf
    pure ()
  else if b = 36 then do    -- b'$'
    if (← peekU8 buf) = 45 then skip buf 4  -- skip '-1\r\n'
    else
      let len ← getDecimal buf  -- `try_into::<usize>` cannot fail on 64 bits
      skip buf (← addUsize len.toNat 2)
  else if b = 42 then do    -- b'*'
    let len ← getDecimal buf
    repeatM len.toNat check
  else throw (.frame (invalidTypeByte b))

/-- The body of `Frame::check`: `match get_u8(src)? { .. }`. -/
def checkStep (buf : Bytes) (check : CursorM Unit) : CursorM Unit :=
  getU8 buf >>= checkByte buf check

/-- The rest of the `$` arm of `Frame::parse` once the length `len` is read: `n = len + 2`,
`Incomplete` unless `n` bytes remain, then the payload and the skip past it and its
`\r\n`. -/
def readBulk (buf : Bytes) (len : Nat) : CursorM Frame := do
  let n ← addUsize len 2
  if (← remaining buf) < n then throw (.frame .incomplete)
  let data ← chunkPrefix buf len
  skip buf n
  pure (.bulk data)

/-- `Frame::parse` once its first byte `b` is read, with `parse` the recursive call for the
elements of an array.  `Vec::with_capacity(len)` is taken to succeed (see the module's
note on what the model leaves out). -/
def parseByte (buf : Bytes) (parse : CursorM Frame) (b : UInt8) : CursorM Frame :=
  if b = 43 then do         -- b'+'
    let line ← getLine buf
    match RString.fromUtf8 line with
    | some s => pure (.simple s)
    | none => throw (.frame invalidFrameFormat)
  else if b = 45 then do    -- b'-'
    let line ← getLine buf
    match RString.fromUtf8 line with
    | some s => pure (.error s)
    | none => throw (.frame invalidFrameFormat)
  else if b = 58 then do    -- b':'
    let n ← getDecimal buf
    pure (.integer n)
  else if b = 36 then do    -- b'$'
    if (← peekU8 buf) = 45 then
      let line ← getLine buf
      if line ≠ [45, 49] then throw (.frame invalidFrameFormat)  -- b"-1"
      pure .null
    else
      let len := (← getDecimal buf).toNat
      readBulk buf len
  else if b = 42 then do    -- b'*'
    let len := (← getDecimal buf).toNat
    let out ← collectM len parse
    pure (.array out)
  else throw .panic         -- unimplemented!()

/-- The body of `Frame::parse`: `match get_u8(src)? { .. }`. -/
def parseStep (buf : Bytes) (parse : CursorM Frame) : CursorM Frame :=
  getU8 buf >>= parseByte buf parse

/-! ### One lemma per type byte -/

section ByByte

variable {buf : Bytes} {c : CursorM Unit} {r : CursorM Frame}

lemma checkByte_simple : checkByte buf c 43 = (getLine buf >>= fun _ => pure ()) := rfl

lemma checkByte_error : checkByte buf c 45 = (getLine buf >>= fun _ => pure ()) := rfl

/-- `+` and `-` are checked alike: one line. -/
lemma checkByte_line {b : UInt8} (hb : b = 43 ∨ b = 45) :
    checkByte buf c b = (getLine buf >>= fun _ => pure ()) := by
  rcases hb with rfl | rfl <;> rfl

lemma checkByte_integer : checkByte buf c 58 = (getDecimal buf >>= fun _ => pure ()) := rfl

lemma checkByte_bulk : checkByte buf c 36 = (peekU8 buf >>= fun d =>
    if d = 45 then skip buf 4
    else getDecimal buf >>= fun len => addUsize len.toNat 2 >>= skip buf) := rfl

lemma checkByte_array : checkByte buf c 42 =
    (getDecimal buf >>= fun len => repeatM len.toNat c) := rfl

lemma checkByte_other {b : UInt8} (h43 : b ≠ 43) (h45 : b ≠ 45) (h58 : b ≠ 58) (h36 : b ≠ 36)
    (h42 : b ≠ 42) : checkByte buf c b = throw (.frame (invalidTypeByte b)) := by
  simp [checkByte, *]

lemma parseByte_simple : parseByte buf r 43 = (getLine buf >>= fun line =>
    match RString.fromUtf8 line with
    | some s => pure (.simple s)
    | none => throw (.frame invalidFrameFormat)) := rfl

lemma parseByte_error : parseByte buf r 45 = (getLine buf >>= fun line =>
    match RString.fromUtf8 line with
    | some s => pure (.error s)
    | none => throw (.frame invalidFrameFormat)) := rfl

lemma parseByte_integer : parseByte buf r 58 = (getDecimal buf >>= fun n => pure (.integer n)) :=
  rfl

lemma parseByte_bulk : parseByte buf r 36 = (peekU8 buf >>= fun d =>
    if d = 45 then getLine buf >>= fun line =>
      if line ≠ [45, 49] then throw (.frame invalidFrameFormat) else pure .null
    else getDecimal buf >>= fun len => readBulk buf len.toNat) := rfl

lemma parseByte_array : parseByte buf r 42 =
    (getDecimal buf >>= fun len => collectM len.toNat r >>= fun out => pure (.array out)) := rfl

lemma parseByte_other {b : UInt8} (h43 : b ≠ 43) (h45 : b ≠ 45) (h58 : b ≠ 58) (h36 : b ≠ 36)
    (h42 : b ≠ 42) : parseByte buf r b = throw .panic := by
  simp [parseByte, *]

end ByByte

/-- **`readBulk`.** Past `usize` the length panics; otherwise it takes `len` bytes and the two
after them, or asks for more input. -/
lemma readBulk_eq (buf : Bytes) (len pos : Nat) :
    readBulk buf len pos =
      if len + 2 < 2 ^ 64 then
        if buf.length - pos < len + 2 then incompleteAt pos
        else .ok (.bulk ((buf.drop pos).take len)) (pos + (len + 2))
      else .error .panic pos := by
  unfold readBulk
  by_cases h1 : len + 2 < 2 ^ 64
  · rw [bind_of_ok (show addUsize len 2 pos = .ok (len + 2) pos from if_pos h1), if_pos h1]
    by_cases h2 : buf.length - pos < len + 2
    · simp only [bind_apply, remaining, if_pos h2]
      rfl
    · have hc : len ≤ buf.length - pos := by omega
      simp only [bind_apply, remaining, if_neg h2, pure_apply, chunkPrefix, if_pos hc, skip]
  · rw [bind_of_error (show addUsize len 2 pos = .error .panic pos from if_neg h1), if_neg h1]

lemma Forward.readBulk {buf : Bytes} (len : Nat) : Forward (RaphDb.readBulk buf len) := by
  intro p a q h
  rw [readBulk_eq] at h
  split_ifs at h
  cases h
  omega

/-! ## Unrolling a level -/

section Unroll

variable {α : Type} {len : Nat} {F : CursorM α → CursorM α}

/-- `F` unrolled `n` times; out of levels it fails as `Incomplete`. -/
def unroll (F : CursorM α → CursorM α) : Nat → CursorM α
  | 0 => fun pos => incompleteAt pos
  | n + 1 => F (unroll F n)

/-- What bounding the recursion of a decoder over a buffer of length `len` takes of one
level `F`: it advances strictly when its nested calls go forward, it only makes nested calls
beyond where it starts, and it fails with `Incomplete` at the end of the buffer. -/
structure Unrollable (len : Nat) (F : CursorM α → CursorM α) : Prop where
  advance : ∀ r, Forward r → ∀ ⦃p a q⦄, F r p = .ok a q → p < q
  congr : ∀ r r' p, Forward r → (∀ q, p < q → r q = r' q) → F r p = F r' p
  at_end : ∀ r p, len ≤ p → F r p = incompleteAt p

namespace Unrollable

variable (hF : Unrollable len F)
include hF

lemma forward_unroll : ∀ n, Forward (unroll F n)
  | 0 => fun _ _ _ h => by cases h
  | n + 1 => fun _ _ _ h => (hF.advance _ (forward_unroll n) h).le

/-- Above `len - p` levels the result no longer depends on the number of levels. -/
lemma unroll_fuel : ∀ n m p, len - p < n → len - p < m → unroll F n p = unroll F m p
  | 0, _, _, h, _ => absurd h (Nat.not_lt_zero _)
  | _ + 1, 0, _, _, h => absurd h (Nat.not_lt_zero _)
  | n + 1, m + 1, p, hn, hm => by
    show F (unroll F n) p = F (unroll F m) p
    by_cases hp : len ≤ p
    · rw [hF.at_end _ _ hp, hF.at_end _ _ hp]
    · exact hF.congr _ _ _ (hF.forward_unroll n) fun q hq =>
        unroll_fuel n m q (by omega) (by omega)

lemma unroll_eq (p : Nat) : unroll F (len + 1) p = F (unroll F (len + 1)) p := by
  show F (unroll F len) p = _
  by_cases hp : len ≤ p
  · rw [hF.at_end _ _ hp, hF.at_end _ _ hp]
  · exact hF.congr _ _ _ (hF.forward_unroll len) fun q hq =>
      hF.unroll_fuel _ _ q (by omega) (by omega)

end Unrollable

end Unroll

/-! ## `check` and `parse` -/

section Levels

variable {buf : Bytes}

lemma Forward.ite {α : Type} {c : Prop} [Decidable c] {a b : CursorM α} (ha : Forward a)
    (hb : Forward b) : Forward (if c then a else b) := by
  split <;> assumption

lemma checkByte_forward {r : CursorM Unit} (hr : Forward r) (b : UInt8) :
    Forward (checkByte buf r b) := by
  by_cases hl : b = 43 ∨ b = 45
  · rw [checkByte_line hl]; exact Forward.getLine.bind fun _ => .pure _
  obtain ⟨h43, h45⟩ := not_or.mp hl
  by_cases h58 : b = 58
  · subst h58; rw [checkByte_integer]; exact Forward.getDecimal.bind fun _ => .pure _
  by_cases h36 : b = 36
  · subst h36; rw [checkByte_bulk]
    exact Forward.peekU8.bind fun _ => .ite (.skip _)
      (Forward.getDecimal.bind fun _ => (Forward.addUsize _ _).bind fun _ => .skip _)
  by_cases h42 : b = 42
  · subst h42; rw [checkByte_array]; exact Forward.getDecimal.bind fun _ => hr.repeatM _
  rw [checkByte_other h43 h45 h58 h36 h42]
  exact .throw _

lemma parseByte_forward {r : CursorM Frame} (hr : Forward r) (b : UInt8) :
    Forward (parseByte buf r b) := by
  by_cases hl : b = 43 ∨ b = 45
  · rcases hl with rfl | rfl <;> simp only [parseByte_simple, parseByte_error] <;>
      exact Forward.getLine.bind fun _ => by split; exacts [.pure _, .throw _]
  obtain ⟨h43, h45⟩ := not_or.mp hl
  by_cases h58 : b = 58
  · subst h58; rw [parseByte_integer]; exact Forward.getDecimal.bind fun _ => .pure _
  by_cases h36 : b = 36
  · subst h36; rw [parseByte_bulk]
    exact Forward.peekU8.bind fun _ => .ite (Forward.getLine.bind fun _ => .ite (.throw _) (.pure _))
      (Forward.getDecimal.bind fun _ => .readBulk _)
  by_cases h42 : b = 42
  · subst h42; rw [parseByte_array]
    exact Forward.getDecimal.bind fun _ => (hr.collectM _).bind fun _ => .pure _
  rw [parseByte_other h43 h45 h58 h36 h42]
  exact .throw _

lemma checkStep_unrollable : Unrollable buf.length (checkStep buf) where
  advance _ hr _ _ _ h := getU8_bind_advance (checkByte_forward hr) h
  congr r r' p hr h := by
    unfold checkStep
    rw [bind_apply, bind_apply]
    rcases hb : getU8 buf p with ⟨b, q⟩ | _
    · have hq := getU8_advance hb
      dsimp only
      by_cases h42 : b = 42
      · subst h42
        rw [checkByte_array, checkByte_array, bind_apply, bind_apply]
        rcases hd : getDecimal buf q with ⟨n, q'⟩ | _
        · exact repeatM_congr hr (fun _ _ => h _ (by omega)) _ _ (Forward.getDecimal hd)
        · rfl
      · simp only [checkByte, h42, if_false]
    · rfl
  at_end r p hp := by
    unfold checkStep
    rw [bind_of_error (by rw [getU8_eq, List.drop_eq_nil_of_le hp])]

lemma parseStep_unrollable : Unrollable buf.length (parseStep buf) where
  advance _ hr _ _ _ h := getU8_bind_advance (parseByte_forward hr) h
  congr r r' p hr h := by
    unfold parseStep
    rw [bind_apply, bind_apply]
    rcases hb : getU8 buf p with ⟨b, q⟩ | _
    · have hq := getU8_advance hb
      dsimp only
      by_cases h42 : b = 42
      · subst h42
        rw [parseByte_array, parseByte_array, bind_apply, bind_apply]
        rcases hd : getDecimal buf q with ⟨n, q'⟩ | _
        · simp only [bind_apply,
            collectM_congr hr (fun _ _ => h _ (by omega)) _ _ (Forward.getDecimal hd)]
        · rfl
      · simp only [parseByte, h42, if_false]
    · rfl
  at_end r p hp := by
    unfold parseStep
    rw [bind_of_error (by rw [getU8_eq, List.drop_eq_nil_of_le hp])]

end Levels

namespace Frame

/-- `Frame::check`. -/
def check (buf : Bytes) : CursorM Unit := unroll (checkStep buf) (buf.length + 1)

/-- `Frame::parse`. -/
def parse (buf : Bytes) : CursorM Frame := unroll (parseStep buf) (buf.length + 1)

/-- **Unfolding `check`.** `Frame::check` is its own body, with itself for the elements of
an array. -/
lemma check_eq (buf : Bytes) (p : Nat) : check buf p = checkStep buf (check buf) p :=
  checkStep_unrollable.unroll_eq p

/-- **Unfolding `parse`.** -/
lemma parse_eq (buf : Bytes) (p : Nat) : parse buf p = parseStep buf (parse buf) p :=
  parseStep_unrollable.unroll_eq p

lemma forward_check (buf : Bytes) : Forward (check buf) :=
  checkStep_unrollable.forward_unroll _

lemma forward_parse (buf : Bytes) : Forward (parse buf) :=
  parseStep_unrollable.forward_unroll _

end Frame

end RaphDb
