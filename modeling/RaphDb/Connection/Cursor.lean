import RaphDb.Basic

/-!
# The byte cursor under the frame codec

`connection/frame.rs` decodes frames through a `std::io::Cursor<&[u8]>`: a borrowed buffer
that never changes, and a position that the helpers `get_u8`, `peek_u8`, `skip`,
`get_line` and `get_decimal` move forward.  A helper that fails through `?` leaves the
position where the failure found it, and a panic ends the task.

The cursor is therefore `EStateM Fault Nat` over a fixed buffer: the state is the position,
an `EStateM.Result.error` keeps the position it failed at, and `Fault.panic` stands for every
way the code can panic (an index or slice out of range, an arithmetic overflow in a build
with overflow checks, `unimplemented!()`).

The helpers are translated one by one.  `getLine` keeps the source's loop
`for i in start..end` with `end = len - 1`, and its indexing `src.get_ref()[i]`, `[i + 1]`
and `[start..i]` panics out of range as Rust's does (`byteAt`, `sliceRange`).
`getLine_eq` then says once what it computes, in terms of `crlfIndex`, the position of the
first `\r\n` of a byte string, and every later proof reads `get_line` through that lemma;
`getLine_ne_panic` shows its reads stay in range.

## Cursor programs that move forward

`Forward m` says that `m`, when it succeeds, leaves the cursor at or after where it found
it.  Every helper is forward and `Forward` is closed under `>>=`; `getU8` moves strictly.
The frame module uses these facts to show that the recursion of `Frame::check` and
`Frame::parse` is bounded by the buffer's length.
-/

namespace RaphDb

/-- `FrameError`: `Incomplete`, or `Other` with its message. -/
inductive FrameError where
  | incomplete
  | other (msg : String)
  deriving DecidableEq, Repr

/-- How a cursor computation stops early: a `FrameError` returned through `?`, or a panic. -/
inductive Fault where
  | frame (e : FrameError)
  | panic
  deriving DecidableEq, Repr

/-- A computation on `&mut Cursor<&[u8]>`: the state is the cursor position. -/
abbrev CursorM := EStateM Fault Nat

/-- The message of the `From<FromUtf8Error>` and `From<TryFromIntError>` conversions and of
the failed `atoi`. -/
def invalidFrameFormat : FrameError := .other "protocol error; invalid frame format"

/-- The `Incomplete` failure, at the position it leaves the cursor. -/
abbrev incompleteAt (pos : Nat) : EStateM.Result Fault Nat α := .error (.frame .incomplete) pos

/-! ## The helpers of `frame.rs` -/

/-- `get_u8`: the byte under the cursor, which then moves past it. -/
def getU8 (buf : Bytes) : CursorM UInt8 := fun pos =>
  match buf[pos]? with
  | some b => .ok b (pos + 1)
  | none => incompleteAt pos

/-- `peek_u8`: the byte under the cursor; the cursor stays. -/
def peekU8 (buf : Bytes) : CursorM UInt8 := fun pos =>
  match buf[pos]? with
  | some b => .ok b pos
  | none => incompleteAt pos

/-- `skip`: move `n` bytes forward, or fail with `Incomplete` if fewer remain. -/
def skip (buf : Bytes) (n : Nat) : CursorM Unit := fun pos =>
  if buf.length - pos < n then incompleteAt pos else .ok () (pos + n)

/-- `src.get_ref()[i]`: the byte at `i`; an index past the end panics. -/
def byteAt (buf : Bytes) (i : Nat) : CursorM UInt8 := fun pos =>
  match buf[i]? with
  | some b => .ok b pos
  | none => .error .panic pos

/-- `&src.get_ref()[lo..hi]`: a range that runs backwards or past the end panics. -/
def sliceRange (buf : Bytes) (lo hi : Nat) : CursorM Bytes := fun pos =>
  if lo ≤ hi ∧ hi ≤ buf.length then .ok ((buf.take hi).drop lo) pos else .error .panic pos

/-- `src.set_position(n)`. -/
def setPosition (n : Nat) : CursorM Unit := fun _ => .ok () n

/-- The loop `for i in start..end` of `get_line`, over the indices it has left.  The test
`src.get_ref()[i] == b'\r' && src.get_ref()[i + 1] == b'\n'` reads `i + 1` only after a
`\r`; a match moves the cursor to `i + 2` and returns `&src.get_ref()[start..i]`. -/
def getLineLoop (buf : Bytes) (start : Nat) : List Nat → CursorM Bytes
  | [] => throw (.frame .incomplete)
  | i :: rest =>
    byteAt buf i >>= fun a =>
    if a = 13 then            -- b'\r'
      byteAt buf (i + 1) >>= fun b =>
      if b = 10 then          -- b'\n'
        setPosition (i + 2) >>= fun _ => sliceRange buf start i
      else getLineLoop buf start rest
    else getLineLoop buf start rest

/-- `get_line`: `end = len - 1`, which underflows on an empty buffer, then the loop over
`start..end`. -/
def getLine (buf : Bytes) : CursorM Bytes := fun start =>
  if buf.length = 0 then .error .panic start
  else getLineLoop buf start (List.range' start (buf.length - 1 - start)) start

/-- `get_decimal`: a line read with `atoi::<u64>`. -/
def getDecimal (buf : Bytes) : CursorM UInt64 := do
  let line ← getLine buf
  match atoi line with
  | some n => pure n
  | none => throw (.frame invalidFrameFormat)

/-- `a + b` on `usize`, 64 bits wide: an overflow panics. -/
def addUsize (a b : Nat) : CursorM Nat := fun pos =>
  if a + b < 2 ^ 64 then .ok (a + b) pos else .error .panic pos

/-- `src.remaining()`. -/
def remaining (buf : Bytes) : CursorM Nat := fun pos => .ok (buf.length - pos) pos

/-- `&src.chunk()[..len]`: the `len` bytes under the cursor; slicing past the end panics. -/
def chunkPrefix (buf : Bytes) (len : Nat) : CursorM Bytes := fun pos =>
  if len ≤ buf.length - pos then .ok ((buf.drop pos).take len) pos else .error .panic pos

/-! ## Running `>>=` -/

section Bind

variable {α β : Type} {x : CursorM α} {f : α → CursorM β} {p q : Nat}

lemma bind_apply (x : CursorM α) (f : α → CursorM β) (p : Nat) :
    (x >>= f) p = match x p with
      | .ok a q => f a q
      | .error e q => .error e q := by
  show EStateM.bind x f p = _
  rcases h : x p with ⟨a, q⟩ | ⟨e, q⟩ <;> simp only [EStateM.bind, h]

lemma bind_of_ok {a : α} (h : x p = .ok a q) : (x >>= f) p = f a q := by
  rw [bind_apply, h]

lemma bind_of_error {e : Fault} (h : x p = .error e q) : (x >>= f) p = .error e q := by
  rw [bind_apply, h]

lemma bind_eq_ok {b : β} {r : Nat} (h : (x >>= f) p = .ok b r) :
    ∃ a q, x p = .ok a q ∧ f a q = .ok b r := by
  rw [bind_apply] at h
  split at h
  · exact ⟨_, _, ‹_›, h⟩
  · cases h

lemma bind_eq_error {e : Fault} {r : Nat} (h : (x >>= f) p = .error e r) :
    x p = .error e r ∨ ∃ a q, x p = .ok a q ∧ f a q = .error e r := by
  rw [bind_apply] at h
  split at h
  · exact .inr ⟨_, _, ‹_›, h⟩
  · cases h
    exact .inl ‹_›

@[simp] lemma pure_apply (a : α) (p : Nat) : (pure a : CursorM α) p = .ok a p := rfl

@[simp] lemma throw_apply (e : Fault) (p : Nat) : (throw e : CursorM α) p = .error e p := rfl

end Bind

/-! ## What the helpers compute -/

section Helpers

variable {buf : Bytes} {pos : Nat}

lemma getU8_eq (buf : Bytes) (pos : Nat) :
    getU8 buf pos = match buf.drop pos with
      | [] => incompleteAt pos
      | b :: _ => .ok b (pos + 1) := by
  rw [getU8, ← List.head?_drop]
  cases buf.drop pos <;> rfl

lemma peekU8_eq (buf : Bytes) (pos : Nat) :
    peekU8 buf pos = match buf.drop pos with
      | [] => incompleteAt pos
      | b :: _ => .ok b pos := by
  rw [peekU8, ← List.head?_drop]
  cases buf.drop pos <;> rfl

lemma getU8_of_drop {b : UInt8} {rest : Bytes} (h : buf.drop pos = b :: rest) :
    getU8 buf pos = .ok b (pos + 1) := by
  rw [getU8_eq, h]

lemma peekU8_of_drop {b : UInt8} {rest : Bytes} (h : buf.drop pos = b :: rest) :
    peekU8 buf pos = .ok b pos := by
  rw [peekU8_eq, h]

lemma skip_eq (buf : Bytes) (n pos : Nat) :
    skip buf n pos = if (buf.drop pos).length < n then incompleteAt pos else .ok () (pos + n) := by
  rw [skip, List.length_drop]

/-- The index of the first `\r\n` in a byte string. -/
def crlfIndex : Bytes → Option Nat
  | a :: b :: rest => if a = 13 ∧ b = 10 then some 0 else (crlfIndex (b :: rest)).map (· + 1)
  | _ => none

/-- The loop of `get_line` finds, as an absolute index, the first `\r\n` after `start`. -/
lemma find_crlf_eq (buf : Bytes) : ∀ k start, buf.length - 1 - start = k →
    (List.range' start k).find? (fun i => buf[i]? == some 13 && buf[i + 1]? == some 10) =
      (crlfIndex (buf.drop start)).map (start + ·) := by
  intro k
  induction k with
  | zero =>
    intro start hk
    have hshort : (buf.drop start).length ≤ 1 := by simp; omega
    rcases hd : buf.drop start with _ | ⟨a, _ | ⟨b, rest⟩⟩
    · rfl
    · rfl
    · simp [hd] at hshort
  | succ k ih =>
    intro start hk
    have h1 : start < buf.length := by omega
    have h2 : start + 1 < buf.length := by omega
    rw [List.range'_succ, List.find?_cons, ih (start + 1) (by omega),
      List.drop_eq_getElem_cons h1, List.drop_eq_getElem_cons h2, crlfIndex,
      ← List.drop_eq_getElem_cons h2, List.getElem?_eq_getElem h1, List.getElem?_eq_getElem h2]
    by_cases h : buf[start] = 13 ∧ buf[start + 1] = 10
    · simp [h]
    · have hb : (some buf[start] == some 13 && some buf[start + 1] == some 10) = false := by
        simpa using h
      rw [if_neg h, hb]
      simp [Option.map_map, Function.comp_def, Nat.add_assoc, Nat.add_comm 1]

lemma byteAt_of_lt {i : Nat} (h : i < buf.length) : byteAt buf i pos = .ok buf[i] pos := by
  simp [byteAt, h]

/-- The loop of `get_line` over indices whose reads and slice are in range stops at the first
index that holds `\r\n`. -/
lemma getLineLoop_eq {start : Nat} : ∀ {idx : List Nat}, (∀ i ∈ idx, start ≤ i ∧ i + 1 < buf.length) →
    getLineLoop buf start idx pos =
      match idx.find? (fun i => buf[i]? == some 13 && buf[i + 1]? == some 10) with
      | some i => .ok ((buf.take i).drop start) (i + 2)
      | none => incompleteAt pos
  | [], _ => rfl
  | i :: idx, h => by
    obtain ⟨hs, hi⟩ := h i (List.mem_cons_self _ _)
    have ih := @getLineLoop_eq start idx fun j hj => h j (List.mem_cons_of_mem _ hj)
    have hi0 : i < buf.length := by omega
    rw [getLineLoop, bind_of_ok (byteAt_of_lt hi0), List.find?_cons,
      List.getElem?_eq_getElem hi0, List.getElem?_eq_getElem hi]
    by_cases hc : buf[i] = 13 ∧ buf[i + 1] = 10
    · have hb : (some buf[i] == some 13 && some buf[i + 1] == some 10) = true := by simp [hc]
      rw [if_pos hc.1, bind_of_ok (byteAt_of_lt hi), if_pos hc.2,
        bind_of_ok (show setPosition (i + 2) pos = .ok () (i + 2) from rfl), hb]
      exact if_pos ⟨hs, hi0.le⟩
    · have hb : (some buf[i] == some 13 && some buf[i + 1] == some 10) = false := by
        simpa using hc
      rw [hb]
      dsimp only
      rw [← ih]
      by_cases h13 : buf[i] = 13
      · rw [if_pos h13, bind_of_ok (byteAt_of_lt hi), if_neg (hc ⟨h13, ·⟩)]
      · rw [if_neg h13]

/-- **`get_line`.** On a non-empty buffer, `get_line` ends the line at the first `\r\n` from
the cursor on, and fails with `Incomplete`, the cursor unmoved, when there is none. -/
lemma getLine_eq (hbuf : buf ≠ []) :
    getLine buf pos = match crlfIndex (buf.drop pos) with
      | some j => .ok ((buf.drop pos).take j) (pos + j + 2)
      | none => incompleteAt pos := by
  have hlen : buf.length ≠ 0 := by simpa using hbuf
  rw [getLine, if_neg hlen, getLineLoop_eq fun i hi => by rw [List.mem_range'_1] at hi; omega,
    find_crlf_eq buf _ pos rfl]
  cases crlfIndex (buf.drop pos) with
  | none => rfl
  | some j => simp [List.drop_take]

/-- `get_line` on a non-empty buffer never panics: its reads and its slice stay in range. -/
lemma getLine_ne_panic (hbuf : buf ≠ []) {r : Nat} : getLine buf pos ≠ .error .panic r := by
  rw [getLine_eq hbuf]; split <;> simp [incompleteAt]

lemma crlfIndex_cons_cons (a b : UInt8) (t : Bytes) : crlfIndex (a :: b :: t) =
    if a = 13 ∧ b = 10 then some 0 else (crlfIndex (b :: t)).map (· + 1) := rfl

lemma crlfIndex_append_crlf : ∀ {t : Bytes} (r : Bytes), crlfIndex t = none →
    crlfIndex (t ++ 13 :: 10 :: r) = some t.length
  | [], _, _ => rfl
  | [a], r, _ => by simp [crlfIndex]
  | a :: b :: t, r, h => by
    rw [crlfIndex_cons_cons] at h
    have hab : ¬(a = 13 ∧ b = 10) := fun hab => by simp [hab] at h
    have ht : crlfIndex (b :: t) = none := by simpa [hab] using h
    have ih := crlfIndex_append_crlf r ht
    simp only [List.cons_append, List.length_cons] at ih ⊢
    rw [crlfIndex_cons_cons, if_neg hab, ih]
    rfl

lemma crlfIndex_append_of_eq_some : ∀ {l : Bytes} {j : Nat} (s : Bytes), crlfIndex l = some j →
    crlfIndex (l ++ s) = some j
  | a :: b :: t, j, s, h => by
    simp only [List.cons_append]
    rw [crlfIndex_cons_cons] at h ⊢
    split_ifs at h ⊢ with hab
    · exact h
    · obtain ⟨i, hi, rfl⟩ := Option.map_eq_some'.mp h
      have ih := crlfIndex_append_of_eq_some s hi
      simp only [List.cons_append] at ih
      simp [ih]

/-- A suffix with no `\r\n` that does not start with `\n` leaves the first `\r\n` where it
was. -/
lemma crlfIndex_append_right {r : Bytes} (hr : crlfIndex r = none) (hh : r.head? ≠ some 10) :
    ∀ l : Bytes, crlfIndex (l ++ r) = crlfIndex l
  | [] => hr
  | [a] => by
    rcases r with _ | ⟨b, r⟩
    · rfl
    · rw [List.singleton_append, crlfIndex_cons_cons, if_neg fun h => hh (by simp [h.2]), hr]
      rfl
  | a :: b :: t => by
    rw [List.cons_append, List.cons_append, crlfIndex_cons_cons, crlfIndex_cons_cons,
      ← List.cons_append, crlfIndex_append_right hr hh (b :: t)]

/-- A prefix with no `\r\n` that does not end in `\r` moves the first `\r\n` by its length. -/
lemma crlfIndex_append_left : ∀ {l : Bytes}, crlfIndex l = none → l.getLast? ≠ some 13 →
    ∀ r : Bytes, crlfIndex (l ++ r) = (crlfIndex r).map (l.length + ·)
  | [], _, _, r => by simp
  | [a], _, hlast, r => by
    rcases r with _ | ⟨b, r⟩
    · rfl
    · rw [List.singleton_append, crlfIndex_cons_cons, if_neg fun h => hlast (by simp [h.1])]
      simp [Nat.add_comm]
  | a :: b :: t, hl, hlast, r => by
    rw [crlfIndex_cons_cons] at hl
    split_ifs at hl with hab
    have ih := crlfIndex_append_left (Option.map_eq_none'.mp hl)
      (by rwa [List.getLast?_cons_cons] at hlast) r
    rw [List.cons_append, List.cons_append, crlfIndex_cons_cons, if_neg hab, ← List.cons_append, ih,
      Option.map_map]
    congr 1
    funext i
    simp only [Function.comp, List.length_cons]
    omega

lemma crlfIndex_add_two_le : ∀ {l : Bytes} {j : Nat}, crlfIndex l = some j → j + 2 ≤ l.length
  | a :: b :: t, j, h => by
    rw [crlfIndex_cons_cons] at h
    split_ifs at h with hab
    · cases h; simp
    · obtain ⟨i, hi, rfl⟩ := Option.map_eq_some'.mp h
      have := crlfIndex_add_two_le hi
      simp only [List.length_cons] at this ⊢
      omega

/-- A byte string is its text up to its first `\r\n`, the `\r\n`, and the rest. -/
lemma crlfIndex_split : ∀ {l : Bytes} {j : Nat}, crlfIndex l = some j →
    l = l.take j ++ 13 :: 10 :: l.drop (j + 2)
  | a :: b :: t, j, h => by
    rw [crlfIndex_cons_cons] at h
    split_ifs at h with hab
    · cases h
      obtain ⟨rfl, rfl⟩ := hab
      rfl
    · obtain ⟨i, hi, rfl⟩ := Option.map_eq_some'.mp h
      have ih := crlfIndex_split hi
      rw [show i + 1 + 2 = i + 2 + 1 by omega, List.take_succ_cons, List.drop_succ_cons,
        List.cons_append, ← ih]

/-- Cut before its first `\r\n` is complete, a byte string holds no `\r\n`. -/
lemma crlfIndex_take : ∀ {l : Bytes} {j k : Nat}, crlfIndex l = some j → k ≤ j + 1 →
    crlfIndex (l.take k) = none
  | a :: b :: t, j, k, h, hk => by
    rcases k with _ | _ | k
    · rfl
    · rfl
    unfold crlfIndex at h
    split_ifs at h with hab
    · cases h; omega
    · obtain ⟨i, hi, rfl⟩ := Option.map_eq_some'.mp h
      have := crlfIndex_take (k := k + 1) hi (by omega)
      simp only [List.take_succ_cons] at this ⊢
      simp [crlfIndex, hab, this]

lemma crlfIndex_of_digits : ∀ {ds : Bytes}, (∀ b ∈ ds, isDigit b = true) → crlfIndex ds = none
  | [], _ => rfl
  | [_], _ => rfl
  | a :: b :: t, h => by
    have ha : a ≠ 13 := fun ha => by simpa [ha, isDigit] using h a (by simp)
    have ht : crlfIndex (b :: t) = none :=
      crlfIndex_of_digits fun x hx => h x (List.mem_cons_of_mem a hx)
    simp [crlfIndex, ha, ht]

/-- `get_line` at a line that ends with the first `\r\n` of what follows the cursor. -/
lemma getLine_of_drop {t rest : Bytes} (h : buf.drop pos = t ++ 13 :: 10 :: rest)
    (ht : crlfIndex t = none) : getLine buf pos = .ok t (pos + t.length + 2) := by
  have hbuf : buf ≠ [] := by rintro rfl; simp at h
  rw [getLine_eq hbuf, h, crlfIndex_append_crlf rest ht]
  simp

/-- `get_line` with no `\r\n` after the cursor. -/
lemma getLine_of_crlfIndex_none (hbuf : buf ≠ []) (h : crlfIndex (buf.drop pos) = none) :
    getLine buf pos = incompleteAt pos := by
  rw [getLine_eq hbuf, h]

/-- `l` holds `\r\n` at `i`: a `\r` at `i` and a `\n` right after it. -/
def CrlfAt (l : Bytes) (i : Nat) : Prop := l[i]? = some 13 ∧ l[i + 1]? = some 10

instance (l : Bytes) (i : Nat) : Decidable (CrlfAt l i) := inferInstanceAs (Decidable (_ ∧ _))

lemma crlfAt_cons {a : UInt8} {l : Bytes} {i : Nat} : CrlfAt (a :: l) (i + 1) ↔ CrlfAt l i := by
  simp only [CrlfAt, List.getElem?_cons_succ]

lemma crlfAt_drop {l : Bytes} {n i : Nat} : CrlfAt (l.drop n) i ↔ CrlfAt l (n + i) := by
  simp only [CrlfAt, List.getElem?_drop, Nat.add_assoc]

lemma crlfIndex_eq_none : ∀ {l : Bytes}, crlfIndex l = none → ∀ i, ¬ CrlfAt l i
  | [], _, _ => by simp [CrlfAt]
  | [_], _, i => by rcases i with _ | i <;> simp [CrlfAt]
  | a :: b :: t, h, i => by
    rw [crlfIndex_cons_cons] at h
    split_ifs at h with hab
    rcases i with _ | i
    · simpa [CrlfAt] using hab
    · exact mt crlfAt_cons.mp (crlfIndex_eq_none (Option.map_eq_none'.mp h) i)

lemma crlfIndex_eq_some : ∀ {l : Bytes} {j : Nat}, crlfIndex l = some j →
    CrlfAt l j ∧ ∀ i < j, ¬ CrlfAt l i
  | a :: b :: t, j, h => by
    rw [crlfIndex_cons_cons] at h
    split_ifs at h with hab
    · cases h
      exact ⟨by simp [CrlfAt, hab.1, hab.2], fun i hi => absurd hi (Nat.not_lt_zero _)⟩
    · obtain ⟨j, hj, rfl⟩ := Option.map_eq_some'.mp h
      obtain ⟨hat, hmin⟩ := crlfIndex_eq_some hj
      refine ⟨crlfAt_cons.mpr hat, fun i hi => ?_⟩
      rcases i with _ | i
      · simpa [CrlfAt] using hab
      · exact mt crlfAt_cons.mp (hmin i (by omega))

/-- `crlfIndex` is the least index of a `\r\n`. -/
lemma crlfIndex_eq_some_iff {l : Bytes} {j : Nat} :
    crlfIndex l = some j ↔ CrlfAt l j ∧ ∀ i < j, ¬ CrlfAt l i := by
  refine ⟨crlfIndex_eq_some, fun ⟨hat, hmin⟩ => ?_⟩
  rcases h : crlfIndex l with _ | j'
  · exact absurd hat (crlfIndex_eq_none h j)
  · obtain ⟨hat', hmin'⟩ := crlfIndex_eq_some h
    rcases Nat.lt_trichotomy j j' with hlt | rfl | hgt
    · exact absurd hat (hmin' j hlt)
    · rfl
    · exact absurd hat' (hmin j' hgt)

/-- **`get_line` finds exactly the first `\r\n`.**  On a non-empty buffer, where the least
`i` from `start` on with `buf[i] = \r` and `buf[i + 1] = \n` exists, `get_line` returns
`buf[start..i]` and moves the cursor to `i + 2`; it fails with `Incomplete`, the cursor
unmoved, exactly when there is none.  It never panics: none of its reads `buf[i]`,
`buf[i + 1]` and none of its slices is out of range. -/
theorem getLine_first_crlf {buf : Bytes} {start : Nat} (hbuf : buf ≠ []) :
    (∀ i, start ≤ i → CrlfAt buf i → (∀ i' < i, start ≤ i' → ¬ CrlfAt buf i') →
      getLine buf start = .ok ((buf.drop start).take (i - start)) (i + 2)) ∧
    (getLine buf start = .error (.frame .incomplete) start ↔ ∀ i, start ≤ i → ¬ CrlfAt buf i) ∧
    (∀ r, getLine buf start ≠ .error .panic r) := by
  refine ⟨fun i hi hat hmin => ?_, ?_, fun r => getLine_ne_panic hbuf⟩
  · have hj : crlfIndex (buf.drop start) = some (i - start) := by
      refine crlfIndex_eq_some_iff.mpr ⟨crlfAt_drop.mpr ?_, fun i' hi' => ?_⟩
      · rwa [Nat.add_sub_cancel' hi]
      · rw [crlfAt_drop]; exact hmin _ (by omega) (by omega)
    rw [getLine_eq hbuf, hj]
    dsimp only
    rw [Nat.add_sub_cancel' hi]
  · rw [getLine_eq hbuf]
    rcases hj : crlfIndex (buf.drop start) with _ | j
    · exact iff_of_true rfl fun i hi hat =>
        crlfIndex_eq_none hj (i - start) (by rwa [crlfAt_drop, Nat.add_sub_cancel' hi])
    · exact iff_of_false nofun fun h =>
        h _ (Nat.le_add_right _ _) (crlfAt_drop.mp (crlfIndex_eq_some hj).1)

/-- `a\r\r\n`: the bare `\r` at 1 does not end the line; the `\r\n` at 2 does. -/
theorem getLine_first_crlf_bare_cr : getLine [97, 13, 13, 10] 0 = .ok [97, 13] 4 :=
  (@getLine_first_crlf [97, 13, 13, 10] 0 (by decide)).1 2 (by decide) (by decide) (by decide)

lemma getDecimal_eq (buf : Bytes) (pos : Nat) :
    getDecimal buf pos = match getLine buf pos with
      | .ok line q => match atoi line with
        | some n => .ok n q
        | none => .error (.frame invalidFrameFormat) q
      | .error e q => .error e q := by
  rw [getDecimal, bind_apply]
  rcases getLine buf pos with ⟨line, q⟩ | ⟨e, q⟩
  · dsimp only
    cases atoi line <;> rfl
  · rfl

lemma drop_add_of_drop {l r : Bytes} (h : buf.drop pos = l ++ r) :
    buf.drop (pos + l.length) = r := by
  rw [← List.drop_drop, h, List.drop_left]

lemma drop_succ_of_drop {b : UInt8} {r : Bytes} (h : buf.drop pos = b :: r) :
    buf.drop (pos + 1) = r :=
  drop_add_of_drop (l := [b]) h

lemma ne_nil_of_drop {b : UInt8} {r : Bytes} (h : buf.drop pos = b :: r) : buf ≠ [] := by
  rintro rfl; simp at h

/-- `get_decimal` on a decimal field followed by `\r\n`. -/
lemma getDecimal_of_drop {ds rest : Bytes} (h : buf.drop pos = ds ++ 13 :: 10 :: rest)
    (hds : Digits ds) :
    getDecimal buf pos = .ok (UInt64.ofNat (digitsValue ds)) (pos + ds.length + 2) := by
  rw [getDecimal_eq, getLine_of_drop h (crlfIndex_of_digits hds.all_digit)]
  simp [hds.atoi]

/-- `get_line` where the buffer ends before the `\r\n` that ends `t` is complete. -/
lemma getLine_of_drop_take {t rest : Bytes} {k : Nat} (hbuf : buf ≠ [])
    (h : buf.drop pos = (t ++ 13 :: 10 :: rest).take k) (ht : crlfIndex t = none)
    (hk : k ≤ t.length + 1) : getLine buf pos = incompleteAt pos :=
  getLine_of_crlfIndex_none hbuf (h ▸ crlfIndex_take (crlfIndex_append_crlf rest ht) hk)

lemma getDecimal_of_drop_take {ds rest : Bytes} {k : Nat} (hbuf : buf ≠ [])
    (h : buf.drop pos = (ds ++ 13 :: 10 :: rest).take k) (hds : Digits ds)
    (hk : k ≤ ds.length + 1) : getDecimal buf pos = incompleteAt pos := by
  rw [getDecimal_eq, getLine_of_drop_take hbuf h (crlfIndex_of_digits hds.all_digit) hk]

end Helpers

/-! ## Forward computations -/

/-- On success `m` leaves the cursor at or after where it found it. -/
def Forward {α : Type} (m : CursorM α) : Prop := ∀ ⦃p : Nat⦄ ⦃a : α⦄ ⦃q : Nat⦄, m p = .ok a q → p ≤ q

namespace Forward

variable {α β : Type} {buf : Bytes}

lemma pure (a : α) : Forward (Pure.pure a : CursorM α) := by
  intro p b q h; cases h; exact le_rfl

lemma throw (e : Fault) : Forward (MonadExcept.throw e : CursorM α) := by
  intro p b q h; cases h

lemma bind {x : CursorM α} {f : α → CursorM β} (hx : Forward x) (hf : ∀ a, Forward (f a)) :
    Forward (x >>= f) := by
  intro p b r h
  obtain ⟨a, q, hxq, hfq⟩ := bind_eq_ok h
  exact (hx hxq).trans (hf a hfq)

lemma getU8 : Forward (RaphDb.getU8 buf) := by
  intro p a q h
  unfold RaphDb.getU8 at h
  split at h <;> cases h
  omega

lemma peekU8 : Forward (RaphDb.peekU8 buf) := by
  intro p a q h
  unfold RaphDb.peekU8 at h
  split at h <;> cases h
  exact le_rfl

lemma skip (n : Nat) : Forward (RaphDb.skip buf n) := by
  intro p a q h
  unfold RaphDb.skip at h
  split at h <;> cases h
  omega

lemma getLine : Forward (RaphDb.getLine buf) := by
  intro p a q h
  rcases eq_or_ne buf [] with rfl | hbuf
  · cases h
  rw [getLine_eq hbuf] at h
  split at h <;> cases h
  omega

lemma getDecimal : Forward (RaphDb.getDecimal buf) :=
  getLine.bind fun line => by
    cases atoi line
    · exact throw _
    · exact pure _

lemma addUsize (a b : Nat) : Forward (RaphDb.addUsize a b) := by
  intro p c q h
  unfold RaphDb.addUsize at h
  split at h <;> cases h
  exact le_rfl

lemma remaining : Forward (RaphDb.remaining buf) := by
  intro p a q h; cases h; exact le_rfl

lemma chunkPrefix (len : Nat) : Forward (RaphDb.chunkPrefix buf len) := by
  intro p a q h
  unfold RaphDb.chunkPrefix at h
  split at h <;> cases h
  exact le_rfl

end Forward

/-! ## What a success says -/

section Inversion

variable {buf : Bytes} {p q : Nat}

/-- `get_u8` succeeds on the byte under the cursor and moves one byte. -/
lemma getU8_eq_ok {b : UInt8} (h : getU8 buf p = .ok b q) : q = p + 1 ∧ buf[p]? = some b := by
  unfold getU8 at h
  split at h <;> cases h
  exact ⟨rfl, by assumption⟩

lemma getU8_advance {b : UInt8} (h : getU8 buf p = .ok b q) : q = p + 1 :=
  (getU8_eq_ok h).1

lemma peekU8_eq_ok {b : UInt8} (h : peekU8 buf p = .ok b q) : q = p ∧ buf[p]? = some b := by
  unfold peekU8 at h
  split at h <;> cases h
  exact ⟨rfl, by assumption⟩

lemma skip_eq_ok {n : Nat} {u : Unit} (h : skip buf n p = .ok u q) :
    q = p + n ∧ n ≤ buf.length - p := by
  unfold skip at h
  split at h <;> cases h
  exact ⟨rfl, by omega⟩

lemma addUsize_eq_ok {a b n : Nat} (h : addUsize a b p = .ok n q) :
    n = a + b ∧ q = p ∧ a + b < 2 ^ 64 := by
  unfold addUsize at h
  split at h <;> cases h
  exact ⟨rfl, rfl, by assumption⟩

/-- `get_line` succeeds on the bytes up to the first `\r\n` and moves past it. -/
lemma getLine_eq_ok {line : Bytes} (h : getLine buf p = .ok line q) :
    ∃ j, crlfIndex (buf.drop p) = some j ∧ line = (buf.drop p).take j ∧ q = p + j + 2 := by
  have hbuf : buf ≠ [] := by rintro rfl; cases h
  rw [getLine_eq hbuf] at h
  split at h
  · cases h; exact ⟨_, by assumption, rfl, rfl⟩
  · cases h

lemma getDecimal_eq_ok {n : UInt64} (h : getDecimal buf p = .ok n q) :
    ∃ line, getLine buf p = .ok line q ∧ atoi line = some n := by
  rw [getDecimal_eq] at h
  split at h
  · split at h
    · cases h; exact ⟨_, by assumption, by assumption⟩
    · cases h
  · cases h

end Inversion

/-! ## Where a panic can come from

Of the helpers only `get_line` on an empty buffer, `len + 2` and the slice panic. -/

section Panics

variable {buf : Bytes} {p r : Nat}

/-- A panic after a step that never panics comes from what follows it. -/
lemma bind_eq_panic {α β : Type} {x : CursorM α} {f : α → CursorM β}
    (hx : ∀ r, x p ≠ .error .panic r) (h : (x >>= f) p = .error .panic r) :
    ∃ a q, x p = .ok a q ∧ f a q = .error .panic r :=
  (bind_eq_error h).resolve_left (hx r)

lemma getU8_ne_panic : getU8 buf p ≠ .error .panic r := by
  unfold getU8; split <;> simp [incompleteAt]

lemma peekU8_ne_panic : peekU8 buf p ≠ .error .panic r := by
  unfold peekU8; split <;> simp [incompleteAt]

lemma skip_ne_panic {n : Nat} : skip buf n p ≠ .error .panic r := by
  unfold skip; split <;> simp [incompleteAt]

lemma getDecimal_ne_panic (hbuf : buf ≠ []) : getDecimal buf p ≠ .error .panic r := fun h => by
  obtain ⟨line, q, -, h⟩ := bind_eq_panic (fun _ => getLine_ne_panic hbuf) h
  cases hn : atoi line <;> simp [hn] at h

/-- `len + 2` panics where it is computed, on a sum past `usize::MAX`. -/
lemma addUsize_eq_error {a b : Nat} {e : Fault} (h : addUsize a b p = .error e r) :
    e = .panic ∧ r = p ∧ 2 ^ 64 ≤ a + b := by
  unfold addUsize at h
  split at h <;> cases h
  exact ⟨rfl, rfl, by omega⟩

end Panics

/-- A computation that starts with `get_u8` and goes on forward moves the cursor strictly. -/
lemma getU8_bind_advance {α : Type} {buf : Bytes} {f : UInt8 → CursorM α}
    (hf : ∀ b, Forward (f b)) {p q : Nat} {a : α} (h : (getU8 buf >>= f) p = .ok a q) :
    p < q := by
  obtain ⟨b, r, hb, hr⟩ := bind_eq_ok h
  have := getU8_advance hb
  have := hf b hr
  omega

end RaphDb
