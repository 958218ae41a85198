import RaphDb.Connection.Frame

/-!
# `check` and `parse` agree

The connection runs `Frame::check` over its buffer first and `Frame::parse` only once `check`
has succeeded.  Where `check` read a frame ending at `q`, `parse` from the same start reads a
frame ending at `q` too, or fails with `invalid frame format` (a line that is not UTF-8, a
`$-` line that is not `-1`).  There is one more outcome, a defect of `check`: its docstring
says it returns `Incomplete` whenever the buffer does not hold a whole frame, but at `$-` it
skips the four bytes after the `-` unread, where `parse` reads a line and compares it with
`-1`.  When no `\r\n` follows, `check` succeeds and `parse` fails with `Incomplete`, just
after the `$`; on `$-abc`, `check` returns `Ok` at 5 and `parse` `Incomplete` at 1.  That is
the only other way the two disagree (`check_then_parse`), and `parse` never panics there.

`AfterCheck b q r` lists these outcomes for a result `r` of `parse`; the level lemma
`afterCheck_byte` shows it one type byte at a time, and `afterCheck_parse` over the whole
run, down the buffer as in `Stability`.

`check` itself can panic: on a bulk length of `u64::MAX` or `u64::MAX - 1`, `len + 2`
overflows (`check_bulk_length_overflow`).  That is the only way it panics
(`check_panic_bulk_overflow`): the other helpers it calls fail only with `Incomplete` or
`invalid frame format` once a byte has been read, and a nested panic is one of its elements'.
-/

namespace RaphDb

/-- The errors `parse` may return where `check` succeeded: `Incomplete` just after a `$` that
is followed by `-` and by no `\r\n`, and `invalid frame format`. -/
def ParseErrorAfterCheck (b : Bytes) : Fault → Nat → Prop
  | .frame .incomplete, r =>
    0 < r ∧ b[r - 1]? = some 36 ∧ b[r]? = some 45 ∧ crlfIndex (b.drop r) = none
  | .frame (.other msg), _ => FrameError.other msg = invalidFrameFormat
  | .panic, _ => False

/-- What `parse` may return where `check` read a frame ending at `q`. -/
def AfterCheck {α : Type} (b : Bytes) (q : Nat) : EStateM.Result Fault Nat α → Prop
  | .ok _ q' => q' = q
  | .error e r => ParseErrorAfterCheck b e r

section Outcomes

variable {α β : Type} {b : Bytes} {q : Nat}

@[simp] lemma afterCheck_ok {a : α} {q' : Nat} : AfterCheck b q (.ok a q') ↔ q' = q := Iff.rfl

@[simp] lemma afterCheck_error {e : Fault} {r : Nat} :
    AfterCheck (α := α) b q (.error e r) ↔ ParseErrorAfterCheck b e r := Iff.rfl

lemma afterCheck_invalid {r : Nat} :
    AfterCheck (α := α) b q (.error (.frame invalidFrameFormat) r) := rfl

/-- Wrapping the value read keeps the outcome. -/
lemma afterCheck_bind_pure {m : CursorM α} {g : α → β} {p : Nat} (h : AfterCheck b q (m p)) :
    AfterCheck b q ((m >>= fun a => pure (g a)) p) := by
  rw [bind_apply]
  rcases hm : m p with ⟨a, q'⟩ | ⟨e, r⟩ <;> rw [hm] at h <;> exact h

end Outcomes

section Levels

variable {b : Bytes} {lo : Nat}

/-- The array loop: where `check`'s loop read its elements up to `q`, `parse`'s loop reads
them up to `q` too, or stops with one of the element's allowed errors. -/
lemma afterCheck_collectM {rc : CursorM Unit} {rp : CursorM Frame} (hfc : Forward rc)
    (ih : ∀ p, lo ≤ p → ∀ q, rc p = .ok () q → AfterCheck b q (rp p)) :
    ∀ n p, lo ≤ p → ∀ q, repeatM n rc p = .ok () q → AfterCheck b q (collectM n rp p)
  | 0, _, _, _, h => by cases h; rfl
  | n + 1, p, hp, q, h => by
    obtain ⟨_, q1, h1, h2⟩ := bind_eq_ok h
    have hq1 := ih p hp q1 h1
    rw [collectM, bind_apply]
    rcases hr : rp p with ⟨f, q1'⟩ | ⟨e, r⟩ <;> rw [hr] at hq1
    · cases hq1
      exact afterCheck_bind_pure (afterCheck_collectM hfc ih n q1 (hp.trans (hfc h1)) q h2)
    · exact hq1

/-- **One level.**  After the type byte `x` at `p - 1`, where `check`'s branch for `x`
succeeds, `parse`'s branch for `x` ends as `AfterCheck` allows, given that the recursive
calls do beyond it. -/
lemma afterCheck_byte {rc : CursorM Unit} {rp : CursorM Frame} (hfc : Forward rc)
    (ih : ∀ p, lo ≤ p → ∀ q, rc p = .ok () q → AfterCheck b q (rp p))
    {x : UInt8} {p q : Nat} (hp : lo ≤ p) (hpos : 0 < p) (hx : b[p - 1]? = some x)
    (h : checkByte b rc x p = .ok () q) : AfterCheck b q (parseByte b rp x p) := by
  by_cases hl : x = 43 ∨ x = 45
  · rw [checkByte_line hl] at h
    obtain ⟨line, _, hline, ⟨⟩⟩ := bind_eq_ok h
    rcases hl with rfl | rfl <;> simp only [parseByte_simple, parseByte_error, bind_of_ok hline] <;>
      cases RString.fromUtf8 line <;> rfl
  obtain ⟨h43, h45⟩ := not_or.mp hl
  by_cases h58 : x = 58
  · subst h58
    rw [checkByte_integer] at h
    obtain ⟨n, _, hn, ⟨⟩⟩ := bind_eq_ok h
    rw [parseByte_integer, bind_of_ok hn]
    rfl
  by_cases h36 : x = 36
  · subst h36
    rw [checkByte_bulk] at h
    obtain ⟨d, p1, hd, h⟩ := bind_eq_ok h
    obtain ⟨hp1, hbd⟩ := peekU8_eq_ok hd
    subst p1
    rw [parseByte_bulk, bind_of_ok hd]
    by_cases hd45 : d = 45
    · rw [if_pos hd45] at h ⊢
      obtain ⟨rfl, -⟩ := skip_eq_ok h
      have hbuf : b ≠ [] := by rintro rfl; cases hbd
      rcases hj : crlfIndex (b.drop p) with _ | j
      · rw [bind_of_error (by rw [getLine_eq hbuf, hj])]
        exact ⟨hpos, hx, hd45 ▸ hbd, hj⟩
      · rw [bind_of_ok (by rw [getLine_eq hbuf, hj])]
        by_cases hline : (b.drop p).take j = [45, 49]
        · rw [if_neg (not_not.mpr hline)]
          have hlen := congrArg List.length hline
          have := crlfIndex_add_two_le hj
          simp only [List.length_take, List.length_drop, List.length_cons, List.length_nil] at hlen this
          show p + j + 2 = p + 4
          omega
        · rw [if_pos hline]
          exact afterCheck_invalid
    · rw [if_neg hd45] at h ⊢
      obtain ⟨len, q1, hlen, h⟩ := bind_eq_ok h
      obtain ⟨n, q2, hn, hs⟩ := bind_eq_ok h
      obtain ⟨hn', hq2, hmax⟩ := addUsize_eq_ok hn
      obtain ⟨hq, hrem⟩ := skip_eq_ok hs
      subst hn' hq2 hq
      rw [bind_of_ok hlen, readBulk_eq, if_pos hmax, if_neg (by omega)]
      rfl
  by_cases h42 : x = 42
  · subst h42
    rw [checkByte_array] at h
    obtain ⟨len, q1, hlen, h⟩ := bind_eq_ok h
    rw [parseByte_array, bind_of_ok hlen]
    exact afterCheck_bind_pure
      (afterCheck_collectM hfc ih _ q1 (hp.trans (Forward.getDecimal hlen)) q h)
  rw [checkByte_other h43 h45 h58 h36 h42] at h
  cases h

/-- **The whole run**, from every position down the buffer. -/
lemma afterCheck_parse (b : Bytes) : ∀ n p, b.length - n ≤ p → ∀ q,
    Frame.check b p = .ok () q → AfterCheck b q (Frame.parse b p)
  | 0, p, hp, q, h => by
    rw [Frame.check_eq, checkStep_unrollable.at_end _ _ (by omega)] at h
    cases h
  | n + 1, p, hp, q, h => by
    rw [Frame.check_eq, checkStep] at h
    obtain ⟨x, p1, hx, h⟩ := bind_eq_ok h
    obtain ⟨rfl, hbx⟩ := getU8_eq_ok hx
    rw [Frame.parse_eq, parseStep, bind_of_ok hx]
    exact afterCheck_byte (Frame.forward_check b)
      (fun p' hp' q' h' => afterCheck_parse b n p' (by omega) q' h') le_rfl (by omega)
      (by simpa using hbx) h

end Levels

/-- `$-abc`: `check` skips `-abc` and succeeds at 5; `parse` finds no line after `$` and
fails with `Incomplete` at 1. -/
theorem check_then_parse_dash :
    Frame.check [36, 45, 97, 98, 99] 0 = .ok () 5 ∧
      Frame.parse [36, 45, 97, 98, 99] 0 = .error (.frame .incomplete) 1 :=
  ⟨rfl, rfl⟩

/-- A bulk header from `lo` on whose length `n` makes `n + 2` overflow: `$` at `i`, and the
length line read up to `r`. -/
def BulkOverflow (b : Bytes) (lo r : Nat) : Prop :=
  ∃ i n, lo ≤ i ∧ b[i]? = some 36 ∧ getDecimal b (i + 1) = .ok n r ∧ 2 ^ 64 ≤ n.toNat + 2

section Panics

variable {b : Bytes}

lemma BulkOverflow.mono {lo lo' r : Nat} (h : BulkOverflow b lo r) (hle : lo' ≤ lo) :
    BulkOverflow b lo' r :=
  let ⟨i, n, hi, h⟩ := h
  ⟨i, n, hle.trans hi, h⟩

/-- The array loop panics where one of its elements does. -/
lemma repeatM_eq_panic {rc : CursorM Unit} (hfc : Forward rc) :
    ∀ n p r, repeatM n rc p = .error .panic r → ∃ p', p ≤ p' ∧ rc p' = .error .panic r
  | 0, _, _, h => by cases h
  | n + 1, p, r, h => by
    rcases bind_eq_error h with h1 | ⟨_, q, h1, h2⟩
    · exact ⟨p, le_rfl, h1⟩
    · obtain ⟨p', hq, h'⟩ := repeatM_eq_panic hfc n q r h2
      exact ⟨p', (hfc h1).trans hq, h'⟩

/-- **One level.**  After the type byte `x` at `p`, `check`'s branch for `x` panics only on
a bulk length that overflows, or where a nested call does. -/
lemma panic_checkByte {rc : CursorM Unit} (hfc : Forward rc) {x : UInt8} {p r : Nat}
    (hx : b[p]? = some x) (ih : ∀ p', p < p' → ∀ r, rc p' = .error .panic r → BulkOverflow b p r)
    (h : checkByte b rc x (p + 1) = .error .panic r) : BulkOverflow b p r := by
  have hb : b ≠ [] := by rintro rfl; cases hx
  by_cases hl : x = 43 ∨ x = 45
  · rw [checkByte_line hl] at h
    obtain ⟨_, _, -, ⟨⟩⟩ := bind_eq_panic (fun _ => getLine_ne_panic hb) h
  obtain ⟨h43, h45⟩ := not_or.mp hl
  by_cases h58 : x = 58
  · subst h58
    rw [checkByte_integer] at h
    obtain ⟨_, _, -, ⟨⟩⟩ := bind_eq_panic (fun _ => getDecimal_ne_panic hb) h
  by_cases h36 : x = 36
  · subst h36
    rw [checkByte_bulk] at h
    obtain ⟨d, _, hd, h⟩ := bind_eq_panic (fun _ => peekU8_ne_panic) h
    obtain ⟨rfl, -⟩ := peekU8_eq_ok hd
    by_cases hd45 : d = 45
    · rw [if_pos hd45] at h
      exact absurd h skip_ne_panic
    rw [if_neg hd45] at h
    obtain ⟨len, q1, hlen, h⟩ := bind_eq_panic (fun _ => getDecimal_ne_panic hb) h
    rcases bind_eq_error h with h | ⟨_, _, -, hs⟩
    · obtain ⟨-, rfl, hover⟩ := addUsize_eq_error h
      exact ⟨p, len, le_rfl, hx, hlen, hover⟩
    · exact absurd hs skip_ne_panic
  by_cases h42 : x = 42
  · subst h42
    rw [checkByte_array] at h
    obtain ⟨len, q1, hlen, h⟩ := bind_eq_panic (fun _ => getDecimal_ne_panic hb) h
    obtain ⟨p', hp', h'⟩ := repeatM_eq_panic hfc _ q1 r h
    exact ih p' (by have := Forward.getDecimal hlen; omega) r h'
  rw [checkByte_other h43 h45 h58 h36 h42] at h
  cases h

/-- **The whole run**, from every position down the buffer. -/
lemma panic_check (b : Bytes) : ∀ n p, b.length - n ≤ p → ∀ r,
    Frame.check b p = .error .panic r → BulkOverflow b p r
  | 0, p, hp, r, h => by
    rw [Frame.check_eq, checkStep_unrollable.at_end _ _ (by omega)] at h
    cases h
  | n + 1, p, hp, r, h => by
    rw [Frame.check_eq, checkStep] at h
    obtain ⟨x, _, hx, h⟩ := bind_eq_panic (fun _ => getU8_ne_panic) h
    obtain ⟨rfl, hbx⟩ := getU8_eq_ok hx
    exact panic_checkByte (Frame.forward_check b) hbx
      (fun p' hp' r' h' => (panic_check b n p' (by omega) r' h').mono hp'.le) h

end Panics

/-- **`check` panics only on a bulk length that overflows.**  Where `Frame::check` panics at
`r`, a `$` at some `i` from the start on is followed by a length `n` with `n + 2 ≥ 2 ^ 64`
(`u64::MAX - 1` or `u64::MAX`) whose line ends at `r`: `len + 2` is the only operation of
`check` that can panic. -/
theorem check_panic_bulk_overflow {b : Bytes} {p r : Nat} (h : Frame.check b p = .error .panic r) :
    ∃ i n, p ≤ i ∧ b[i]? = some 36 ∧ getDecimal b (i + 1) = .ok n r ∧ 2 ^ 64 ≤ n.toNat + 2 :=
  panic_check b b.length p (by omega) r h

/-- The panic of a bulk length of `u64::MAX`, located. -/
theorem check_panic_at_max :
    ∃ i n, 0 ≤ i ∧ (36 :: decimal (2 ^ 64 - 1) ++ crlf)[i]? = some 36 ∧
      getDecimal (36 :: decimal (2 ^ 64 - 1) ++ crlf) (i + 1) = .ok n 23 ∧
      2 ^ 64 ≤ n.toNat + 2 :=
  check_panic_bulk_overflow (b := 36 :: decimal (2 ^ 64 - 1) ++ crlf) (p := 0) rfl

/-- A bulk length of `u64::MAX`: `len + 2` overflows in `check`, which panics where the
header ends. -/
theorem check_bulk_length_overflow :
    Frame.check (36 :: decimal (2 ^ 64 - 1) ++ crlf) 0 = .error .panic 23 :=
  rfl

end RaphDb
