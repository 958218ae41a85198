import RaphDb.Connection.Agreement
import RaphDb.Connection.Framing

/-!
# What the decoder accepts

`Accepted e F` is the grammar `Frame::parse` reads, with the frame each encoding denotes.  It
is looser than the wire grammar `Encoding` of §4.1 in two places, both inherited from the
helpers of `frame.rs`:

* a decimal field is whatever `atoi` reads: a run of digits followed by any bytes that do not
  start with a digit, so `:7x\r\n` is the integer 7 (`check_parse_loose_integer`);
* the two bytes after a bulk payload are skipped unread, so `$3\r\nfooXY` is the bulk `foo`.

Everything else is as strict as `Encoding`: a null is exactly `$-1\r\n`, and a simple or
error line ends at its first `\r\n` and is UTF-8.  `parse_accepted` shows that every
successful `parse` read such an encoding of the frame it returned, and `check_parse_accepted`
adds that `check` stopped at the same byte.

Spans are written as in the `Json.Parser` soundness proofs: `Spans b p q e` says the bytes of
`b` from `p` to `q` are `e`, with `b.drop p = e ++ b.drop q`, so that consecutive reads
compose by `Spans.append`.
-/

namespace RaphDb

/-- The grammar `Frame::parse` accepts, with the frame each encoding denotes. -/
inductive Accepted : Bytes → Frame → Prop
  | simple (s : RString) (hs : crlfIndex s.bytes = none) : Accepted (43 :: s.bytes ++ crlf) (.simple s)
  | error (s : RString) (hs : crlfIndex s.bytes = none) : Accepted (45 :: s.bytes ++ crlf) (.error s)
  | integer {line : Bytes} {n : UInt64} (hline : crlfIndex line = none) (hn : atoi line = some n) :
      Accepted (58 :: line ++ crlf) (.integer n)
  | null : Accepted [36, 45, 49, 13, 10] .null
  | bulk {line payload t : Bytes} {n : UInt64} (hline : crlfIndex line = none)
      (hn : atoi line = some n) (hlen : payload.length = n.toNat) (ht : t.length = 2)
      (hmax : n.toNat + 2 < 2 ^ 64) : Accepted (36 :: line ++ crlf ++ payload ++ t) (.bulk payload)
  | array {line : Bytes} {n : UInt64} {es : List (Bytes × Frame)} (hline : crlfIndex line = none)
      (hn : atoi line = some n) (hlen : es.length = n.toNat) (hes : ∀ e ∈ es, Accepted e.1 e.2) :
      Accepted (42 :: line ++ crlf ++ (es.map Prod.fst).flatten) (.array (es.map Prod.snd))

/-- The bytes of `b` from `p` to `q` are `e`. -/
def Spans (b : Bytes) (p q : Nat) (e : Bytes) : Prop := b.drop p = e ++ b.drop q ∧ p + e.length = q

section Spans

variable {b : Bytes} {p q r : Nat} {u v : Bytes}

lemma Spans.append (h1 : Spans b p q u) (h2 : Spans b q r v) : Spans b p r (u ++ v) :=
  ⟨by rw [h1.1, h2.1, List.append_assoc], by rw [List.length_append, ← h2.2, ← h1.2, Nat.add_assoc]⟩

lemma Spans.take (h : Spans b p q u) : (b.drop p).take (q - p) = u := by
  rw [h.1, ← h.2, Nat.add_sub_cancel_left, List.take_left]

lemma spans_nil (p : Nat) : Spans b p p [] := ⟨rfl, rfl⟩

lemma spans_getU8 {x : UInt8} (h : getU8 b p = .ok x q) : Spans b p q [x] := by
  obtain ⟨rfl, hx⟩ := getU8_eq_ok h
  obtain ⟨hp, rfl⟩ := List.getElem?_eq_some_iff.mp hx
  exact ⟨List.drop_eq_getElem_cons hp, rfl⟩

lemma spans_getLine {line : Bytes} (h : getLine b p = .ok line q) :
    Spans b p q (line ++ crlf) ∧ crlfIndex line = none := by
  obtain ⟨j, hj, rfl, rfl⟩ := getLine_eq_ok h
  have hlen : j + 2 ≤ b.length - p := by simpa using crlfIndex_add_two_le hj
  have hdrop : b.drop (p + j + 2) = (b.drop p).drop (j + 2) := by
    simp only [List.drop_drop, Nat.add_assoc]
  refine ⟨⟨?_, ?_⟩, crlfIndex_take hj (by omega)⟩
  · rw [hdrop, List.append_assoc]
    exact crlfIndex_split hj
  · simp [crlf]; omega

lemma spans_getDecimal {n : UInt64} (h : getDecimal b p = .ok n q) :
    ∃ line, Spans b p q (line ++ crlf) ∧ crlfIndex line = none ∧ atoi line = some n := by
  obtain ⟨line, hl, hn⟩ := getDecimal_eq_ok h
  exact ⟨line, (spans_getLine hl).1, (spans_getLine hl).2, hn⟩

lemma spans_readBulk {len : Nat} {F : Frame} (h : readBulk b len p = .ok F q) :
    ∃ payload t, F = .bulk payload ∧ Spans b p q (payload ++ t) ∧ payload.length = len ∧
      t.length = 2 ∧ len + 2 < 2 ^ 64 := by
  rw [readBulk_eq] at h
  split_ifs at h with hmax hrem
  cases h
  refine ⟨(b.drop p).take len, ((b.drop p).drop len).take 2, rfl, ⟨?_, ?_⟩, ?_, ?_, hmax⟩
  · have hdrop : b.drop (p + (len + 2)) = ((b.drop p).drop len).drop 2 := by
      simp only [List.drop_drop, Nat.add_assoc]
    rw [hdrop, List.append_assoc, List.take_append_drop, List.take_append_drop]
  all_goals simp only [List.length_append, List.length_take, List.length_drop]; omega

end Spans

section Levels

variable {b : Bytes} {lo : Nat}

/-- What a call at `p` that returned `F` at `q` read: an accepted encoding of `F`. -/
def ReadsAccepted (b : Bytes) (rp : CursorM Frame) (lo : Nat) : Prop :=
  ∀ p, lo ≤ p → ∀ F q, rp p = .ok F q → ∃ e, Spans b p q e ∧ Accepted e F

lemma ReadsAccepted.mono {rp : CursorM Frame} (h : ReadsAccepted b rp lo) {lo' : Nat}
    (hle : lo ≤ lo') : ReadsAccepted b rp lo' :=
  fun p hp => h p (hle.trans hp)

/-- The array loop of `parse` reads one accepted encoding per element. -/
lemma collectM_accepted {rp : CursorM Frame} (hfp : Forward rp) (ih : ReadsAccepted b rp lo) :
    ∀ n p, lo ≤ p → ∀ fs q, collectM n rp p = .ok fs q →
      ∃ es : List (Bytes × Frame), es.length = n ∧ fs = es.map Prod.snd ∧
        Spans b p q (es.map Prod.fst).flatten ∧ ∀ e ∈ es, Accepted e.1 e.2
  | 0, p, _, _, _, h => by cases h; exact ⟨[], rfl, rfl, spans_nil p, by simp⟩
  | n + 1, p, hp, fs, q, h => by
    obtain ⟨F, q1, h1, h⟩ := bind_eq_ok h
    obtain ⟨fs', q2, h2, ⟨⟩⟩ := bind_eq_ok h
    obtain ⟨e, he, hacc⟩ := ih p hp F q1 h1
    obtain ⟨es, hlen, rfl, hes, hall⟩ :=
      collectM_accepted hfp ih n q1 (hp.trans (hfp h1)) fs' q h2
    refine ⟨(e, F) :: es, by simp [hlen], rfl, he.append hes, ?_⟩
    rintro x (_ | ⟨_, hx⟩)
    · exact hacc
    · exact hall x hx

/-- **One level.**  After the type byte `x`, what `parse`'s branch for `x` read is an
accepted encoding of the frame it returned, once `x` is put in front. -/
lemma parseByte_accepted {rp : CursorM Frame} (hfp : Forward rp) (ih : ReadsAccepted b rp lo)
    {x : UInt8} {p q : Nat} {F : Frame} (hp : lo ≤ p) (h : parseByte b rp x p = .ok F q) :
    ∃ e, Spans b p q e ∧ Accepted (x :: e) F := by
  by_cases h43 : x = 43
  · subst h43
    rw [parseByte_simple] at h
    obtain ⟨line, q1, hl, h⟩ := bind_eq_ok h
    obtain ⟨hsp, hline⟩ := spans_getLine hl
    rcases hs : RString.fromUtf8 line with _ | s <;> rw [hs] at h <;> cases h
    obtain rfl := RString.fromUtf8_eq_some hs
    exact ⟨_, hsp, Accepted.simple s hline⟩
  by_cases h45 : x = 45
  · subst h45
    rw [parseByte_error] at h
    obtain ⟨line, q1, hl, h⟩ := bind_eq_ok h
    obtain ⟨hsp, hline⟩ := spans_getLine hl
    rcases hs : RString.fromUtf8 line with _ | s <;> rw [hs] at h <;> cases h
    obtain rfl := RString.fromUtf8_eq_some hs
    exact ⟨_, hsp, Accepted.error s hline⟩
  by_cases h58 : x = 58
  · subst h58
    rw [parseByte_integer] at h
    obtain ⟨n, q1, hn, ⟨⟩⟩ := bind_eq_ok h
    obtain ⟨line, hsp, hline, hatoi⟩ := spans_getDecimal hn
    exact ⟨_, hsp, Accepted.integer hline hatoi⟩
  by_cases h36 : x = 36
  · subst h36
    rw [parseByte_bulk] at h
    obtain ⟨d, p1, hd, h⟩ := bind_eq_ok h
    obtain ⟨hp1, -⟩ := peekU8_eq_ok hd
    subst p1
    by_cases hd45 : d = 45
    · rw [if_pos hd45] at h
      obtain ⟨line, q1, hl, h⟩ := bind_eq_ok h
      by_cases hline : line = [45, 49]
      · rw [if_neg (not_not.mpr hline)] at h
        cases h
        subst hline
        exact ⟨_, (spans_getLine hl).1, Accepted.null⟩
      · rw [if_pos hline] at h
        cases h
    · rw [if_neg hd45] at h
      obtain ⟨len, q1, hlen, h⟩ := bind_eq_ok h
      obtain ⟨line, hsp, hline, hatoi⟩ := spans_getDecimal hlen
      obtain ⟨payload, t, rfl, hsp', hpl, ht, hmax⟩ := spans_readBulk h
      refine ⟨_, hsp.append hsp', ?_⟩
      simpa [List.append_assoc] using Accepted.bulk hline hatoi hpl ht hmax
  by_cases h42 : x = 42
  · subst h42
    rw [parseByte_array] at h
    obtain ⟨len, q1, hlen, h⟩ := bind_eq_ok h
    obtain ⟨fs, q2, hfs, ⟨⟩⟩ := bind_eq_ok h
    obtain ⟨line, hsp, hline, hatoi⟩ := spans_getDecimal hlen
    obtain ⟨es, hes_len, rfl, hsp', hall⟩ :=
      collectM_accepted hfp ih _ q1 (hp.trans (Forward.getDecimal hlen)) fs q hfs
    refine ⟨_, hsp.append hsp', ?_⟩
    simpa [List.append_assoc] using Accepted.array hline hatoi hes_len hall
  rw [parseByte_other h43 h45 h58 h36 h42] at h
  cases h

/-- **The whole run**: every successful `parse` read an accepted encoding of its frame. -/
lemma parse_reads_accepted (b : Bytes) : ∀ n, ReadsAccepted b (Frame.parse b) (b.length - n)
  | 0, p, hp, F, q, h => by
    rw [Frame.parse_eq, parseStep_unrollable.at_end _ _ (by omega)] at h
    cases h
  | n + 1, p, hp, F, q, h => by
    rw [Frame.parse_eq, parseStep] at h
    obtain ⟨x, p1, hx, h⟩ := bind_eq_ok h
    have hp1 := getU8_advance hx
    obtain ⟨e, hsp, hacc⟩ := parseByte_accepted (Frame.forward_parse b)
      ((parse_reads_accepted b n).mono (by omega)) le_rfl h
    exact ⟨x :: e, (spans_getU8 hx).append hsp, hacc⟩

end Levels

/-- An encoding of §4.1 that starts with `:` is `:`, digits and `\r\n`. -/
lemma Encoding.integer_inv {e : Bytes} (he : Encoding e) (h : e.head? = some 58) :
    ∃ ds, Digits ds ∧ e = 58 :: ds ++ crlf := by
  cases he
  case integer ds hds => exact ⟨ds, hds, rfl⟩
  all_goals simp at h

/-- **The decoder accepts only its grammar.**  Where `check` succeeds at `q` and `parse`
returns `F`, `parse` also stops at `q`, and the bytes from the start to `q` are an accepted
encoding of `F`. -/
theorem check_parse_accepted {b : Bytes} {p q q' : Nat} {F : Frame}
    (hc : Frame.check b p = .ok () q) (hp : Frame.parse b p = .ok F q') :
    q' = q ∧ Accepted ((b.drop p).take (q - p)) F := by
  have hq : q' = q := by simpa [hp] using afterCheck_parse b b.length p (by omega) q hc
  subst hq
  obtain ⟨e, hsp, hacc⟩ := parse_reads_accepted b b.length p (by omega) F q' hp
  exact ⟨rfl, hsp.take ▸ hacc⟩

/-- `:7x\r\n` at the start of a buffer, which `check` and `parse` both take as the integer 7:
its decimal field is not all digits, so it is no encoding of §4.1. -/
theorem check_parse_loose_integer :
    Frame.check [58, 55, 120, 13, 10] 0 = .ok () 5 ∧
      Frame.parse [58, 55, 120, 13, 10] 0 = .ok (.integer 7) 5 ∧
      ¬ Encoding [58, 55, 120, 13, 10] := by
  refine ⟨rfl, rfl, fun he => ?_⟩
  obtain ⟨ds, hds, h⟩ := Encoding.integer_inv he rfl
  have hds' : ds = [55, 120] := List.append_cancel_right (List.cons.inj h.symm).2
  subst hds'
  exact absurd (hds.all_digit 120 (by simp)) (by decide)

/-- The same buffer through `check_parse_accepted`: an `Accepted` encoding of `7`. -/
theorem check_parse_accepted_loose :
    (5 : Nat) = 5 ∧ Accepted ((([58, 55, 120, 13, 10] : Bytes).drop 0).take (5 - 0)) (.integer 7) :=
  check_parse_accepted (b := [58, 55, 120, 13, 10]) (p := 0) rfl rfl

end RaphDb
