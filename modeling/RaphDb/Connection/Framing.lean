import RaphDb.Connection.Frame

/-!
# Framing is exact on well-formed input

`Encoding` is the wire grammar of §4.1 of the specification, as syntax: simple and error
lines whose text holds no `\r\n`, decimal fields of ASCII digits that fit in `u64`, the null
marker `$-1\r\n`, bulk strings whose payload has the declared length, and arrays of
well-formed elements, nested to any depth.

`Frame.check` reads exactly such an encoding, whatever bytes follow it
(`check_of_encoding`), and fails with `Incomplete` on every proper prefix of one
(`check_of_encoding_take`).  Both are stated at any cursor position through
`buf.drop pos`, the bytes the cursor has ahead of it; `check_frames_exactly` is the case of a
buffer that starts with the encoding.  These are what the read loop of the connection relies
on when TCP splits or merges frames: `check` never cuts a frame short, never runs past its
end, and never takes a frame that has not fully arrived for a malformed one.
-/

namespace RaphDb

/-- The RESP grammar of §4.1, as syntax. -/
inductive Encoding : Bytes → Prop
  | simple {t : Bytes} (ht : crlfIndex t = none) : Encoding (43 :: t ++ crlf)
  | error {t : Bytes} (ht : crlfIndex t = none) : Encoding (45 :: t ++ crlf)
  | integer {ds : Bytes} (hds : Digits ds) : Encoding (58 :: ds ++ crlf)
  | null : Encoding [36, 45, 49, 13, 10]
  | bulk {ds payload : Bytes} (hds : Digits ds) (hlen : payload.length = digitsValue ds)
      (hmax : digitsValue ds < 2 ^ 64 - 2) : Encoding (36 :: ds ++ crlf ++ payload ++ crlf)
  | array {ds : Bytes} {es : List Bytes} (hds : Digits ds) (hlen : es.length = digitsValue ds)
      (hes : ∀ e ∈ es, Encoding e) : Encoding (42 :: ds ++ crlf ++ es.flatten)

section Check

variable {buf : Bytes} {pos : Nat}

/-- `check` at a type byte: `get_u8`, then the branch for that byte. -/
lemma check_of_drop_cons {b : UInt8} {rest : Bytes} (h : buf.drop pos = b :: rest) :
    Frame.check buf pos = checkByte buf (Frame.check buf) b (pos + 1) := by
  rw [Frame.check_eq, checkStep, bind_of_ok (getU8_of_drop h)]

lemma check_of_drop_nil (h : buf.drop pos = []) : Frame.check buf pos = incompleteAt pos := by
  rw [Frame.check_eq, checkStep, bind_of_error (by rw [getU8_eq, h])]

lemma ne_45_of_digits {ds : Bytes} (hds : Digits ds) : ∃ d rest, ds = d :: rest ∧ d ≠ 45 := by
  obtain ⟨d, rest, rfl⟩ := List.exists_cons_of_ne_nil hds.ne_nil
  refine ⟨d, rest, rfl, fun h => ?_⟩
  simpa [h, isDigit] using hds.all_digit d (by simp)

/-- The array loop of `check` over elements that `check` each reads exactly. -/
lemma repeatM_check_flatten : ∀ {es : List Bytes},
    (∀ e ∈ es, ∀ {buf : Bytes} {pos s}, buf.drop pos = e ++ s →
      Frame.check buf pos = .ok () (pos + e.length)) →
    ∀ {pos s}, buf.drop pos = es.flatten ++ s →
      repeatM es.length (Frame.check buf) pos = .ok () (pos + es.flatten.length)
  | [], _, pos, _, _ => rfl
  | e :: es, hes, pos, s, h => by
    rw [List.flatten_cons, List.append_assoc] at h
    rw [List.length_cons, repeatM, bind_of_ok (hes e (by simp) h),
      repeatM_check_flatten (fun e' he' => hes e' (by simp [he'])) (drop_add_of_drop h)]
    simp [Nat.add_assoc]

/-- **`check` reads a well-formed encoding exactly**, whatever follows it. -/
theorem check_of_encoding {e : Bytes} (he : Encoding e) :
    ∀ {buf pos s}, buf.drop pos = e ++ s → Frame.check buf pos = .ok () (pos + e.length) := by
  induction he with
  | simple ht | error ht =>
    intro buf pos s h
    simp only [crlf, List.cons_append, List.append_assoc] at h
    rw [check_of_drop_cons h, checkByte_line (by decide),
      bind_of_ok (getLine_of_drop (drop_succ_of_drop h) ht)]
    simp [crlf]; omega
  | integer hds =>
    intro buf pos s h
    simp only [crlf, List.cons_append, List.append_assoc] at h
    rw [check_of_drop_cons h, checkByte_integer,
      bind_of_ok (getDecimal_of_drop (drop_succ_of_drop h) hds)]
    simp [crlf]; omega
  | null =>
    intro buf pos s h
    simp only [List.cons_append, List.nil_append] at h
    rw [check_of_drop_cons h, checkByte_bulk,
      bind_of_ok (peekU8_of_drop (drop_succ_of_drop h)), if_pos rfl, skip_eq,
      drop_succ_of_drop h, if_neg (by simp)]
    simp
  | @bulk ds payload hds hlen hmax =>
    intro buf pos s h
    obtain ⟨d, rest, rfl, hd⟩ := ne_45_of_digits hds
    simp only [crlf, List.cons_append, List.append_assoc] at h
    have h1 := drop_succ_of_drop h
    have h2 : buf.drop (pos + 1 + (d :: rest).length + 2) = payload ++ 13 :: 10 :: s := by
      rw [show pos + 1 + (d :: rest).length + 2 = pos + 1 + (d :: rest ++ [13, 10]).length by
        simp; omega]
      exact drop_add_of_drop (by simpa using h1)
    rw [check_of_drop_cons h, checkByte_bulk, bind_of_ok (peekU8_of_drop h1), if_neg hd,
      bind_of_ok (getDecimal_of_drop (by simpa using h1) hds), bind_apply]
    simp only [addUsize, hds.toNat_ofNat, show digitsValue (d :: rest) + 2 < 2 ^ 64 by omega,
      if_true, skip_eq, h2]
    rw [if_neg (by simp [hlen])]
    simp [crlf, hlen]; omega

  | @array ds es hds hlen hes ih =>
    intro buf pos s h
    simp only [crlf, List.cons_append, List.append_assoc] at h
    have h1 := drop_succ_of_drop h
    have h2 := drop_add_of_drop (l := ds ++ [13, 10]) (by simpa using h1)
    rw [check_of_drop_cons h, checkByte_array,
      bind_of_ok (getDecimal_of_drop (by simpa using h1) hds), hds.toNat_ofNat, ← hlen,
      repeatM_check_flatten ih (s := s) (by simpa using h2)]
    simp [crlf]; omega

lemma take_append_of_length_le {l r : Bytes} {k : Nat} (h : l.length ≤ k) :
    (l ++ r).take k = l ++ r.take (k - l.length) := by
  rw [List.take_append_eq_append_take, List.take_of_length_le h]

/-- `get_decimal` on a prefix of a decimal line and what follows it: either the line is cut
and it fails with `Incomplete`, or it reads the line and what is left of the prefix follows. -/
lemma getDecimal_of_drop_take_cases {ds more : Bytes} {k : Nat} (hbuf : buf ≠ [])
    (hds : Digits ds) (h : buf.drop pos = (ds ++ (crlf ++ more)).take k) :
    getDecimal buf pos = incompleteAt pos ∨
      getDecimal buf pos = .ok (UInt64.ofNat (digitsValue ds)) (pos + ds.length + 2) ∧
        buf.drop (pos + ds.length + 2) = more.take (k - (ds.length + 2)) ∧
        ds.length + 2 ≤ k := by
  by_cases hk : k ≤ ds.length + 1
  · exact .inl (getDecimal_of_drop_take hbuf h hds hk)
  · rw [← List.append_assoc, take_append_of_length_le (by simp [crlf]; omega)] at h
    have hq := drop_add_of_drop h
    simp only [List.length_append, crlf, List.length_cons, List.length_nil] at hq
    exact .inr ⟨getDecimal_of_drop (by simpa [crlf] using h) hds,
      by simpa [Nat.add_assoc] using hq, by omega⟩

/-- `check` on a prefix of `b :: l`, from what the branch for `b` does on prefixes of `l`. -/
lemma check_take_cons {b : UInt8} {l : Bytes}
    (H : ∀ {buf : Bytes} {pos k}, buf ≠ [] → k < l.length → buf.drop pos = l.take k →
      ∃ q, checkByte buf (Frame.check buf) b pos = incompleteAt q) :
    ∀ {buf pos k}, k < (b :: l).length → buf.drop pos = (b :: l).take k →
      ∃ q, Frame.check buf pos = incompleteAt q
  | _, pos, 0, _, h => ⟨pos, check_of_drop_nil h⟩
  | _, _, k + 1, hk, h => by
    rw [List.take_succ_cons] at h
    rw [check_of_drop_cons h]
    exact H (ne_nil_of_drop h) (by simpa using hk) (drop_succ_of_drop h)

/-- The array loop of `check` where the buffer ends inside the elements. -/
lemma repeatM_check_flatten_take : ∀ {es : List Bytes},
    (∀ e ∈ es, Encoding e ∧ ∀ {buf : Bytes} {pos k}, k < e.length → buf.drop pos = e.take k →
      ∃ q, Frame.check buf pos = incompleteAt q) →
    ∀ {pos k}, k < es.flatten.length → buf.drop pos = es.flatten.take k →
      ∃ q, repeatM es.length (Frame.check buf) pos = incompleteAt q
  | [], _, _, k, hk, _ => absurd hk (by simp)
  | e :: es, hes, pos, k, hk, h => by
    obtain ⟨he, ihe⟩ := hes e (by simp)
    rw [List.flatten_cons] at h hk
    rw [List.length_cons, repeatM]
    by_cases hke : k < e.length
    · rw [List.take_append_of_le_length hke.le] at h
      obtain ⟨q, hq⟩ := ihe hke h
      exact ⟨q, bind_of_error hq⟩
    · rw [take_append_of_length_le (by omega)] at h
      rw [bind_of_ok (check_of_encoding he h)]
      exact repeatM_check_flatten_take (fun e' he' => hes e' (by simp [he']))
        (by rw [List.length_append] at hk; omega) (drop_add_of_drop h)

/-- **`check` waits for the rest of a frame**: on every proper prefix of a well-formed
encoding it fails with `Incomplete`. -/
theorem check_of_encoding_take {e : Bytes} (he : Encoding e) :
    ∀ {buf pos k}, k < e.length → buf.drop pos = e.take k →
      ∃ q, Frame.check buf pos = incompleteAt q := by
  induction he with
  | @simple t ht | @error t ht =>
    refine check_take_cons (l := t ++ crlf) fun {buf pos k} hbuf hk h => ⟨pos, ?_⟩
    rw [checkByte_line (by decide)]
    exact bind_of_error (getLine_of_drop_take hbuf h ht (by simp [crlf] at hk; omega))
  | @integer ds hds =>
    refine check_take_cons (l := ds ++ crlf) fun {buf pos k} hbuf hk h => ⟨pos, ?_⟩
    rw [checkByte_integer]
    exact bind_of_error (getDecimal_of_drop_take hbuf h hds (by simp [crlf] at hk; omega))
  | null =>
    refine check_take_cons (l := [45, 49, 13, 10]) fun {buf pos k} _ hk h => ?_
    rw [checkByte_bulk]
    rcases k with _ | k
    · exact ⟨pos, bind_of_error (by rw [peekU8_eq, h]; rfl)⟩
    · rw [List.take_succ_cons] at h
      refine ⟨pos, ?_⟩
      rw [bind_of_ok (peekU8_of_drop h), if_pos rfl, skip_eq, h, if_pos (by simp at hk ⊢; omega)]
  | @bulk ds payload hds hlen hmax =>
    refine check_take_cons (l := ds ++ crlf ++ payload ++ crlf)
      fun {buf pos k} hbuf hk h => ?_
    rw [checkByte_bulk]
    rcases k with _ | k
    · exact ⟨pos, bind_of_error (by rw [peekU8_eq, h]; rfl)⟩
    obtain ⟨d, rest, hdr, hd⟩ := ne_45_of_digits hds
    simp only [List.append_assoc] at h hk
    rw [bind_of_ok (peekU8_of_drop (by rw [h, hdr, List.cons_append, List.take_succ_cons])),
      if_neg hd]
    rcases getDecimal_of_drop_take_cases hbuf hds h with hinc | ⟨hdec, hq, hk'⟩
    · exact ⟨pos, bind_of_error hinc⟩
    · refine ⟨pos + ds.length + 2, ?_⟩
      rw [bind_of_ok hdec, bind_apply]
      simp only [addUsize, hds.toNat_ofNat, show digitsValue ds + 2 < 2 ^ 64 by omega,
        if_true, skip_eq, hq]
      rw [if_pos (by
        simp only [List.length_take, List.length_append, crlf, List.length_cons,
          List.length_nil] at hk ⊢
        omega)]
  | @array ds es hds hlen hes ih =>
    refine check_take_cons (l := ds ++ crlf ++ es.flatten) fun {buf pos k} hbuf hk h => ?_
    rw [checkByte_array]
    simp only [List.append_assoc] at h hk
    rcases getDecimal_of_drop_take_cases hbuf hds h with hinc | ⟨hdec, hq, hk'⟩
    · exact ⟨pos, bind_of_error hinc⟩
    · rw [bind_of_ok hdec, hds.toNat_ofNat, ← hlen]
      exact repeatM_check_flatten_take (fun e he => ⟨hes e he, ih e he⟩)
        (by simp [crlf] at hk ⊢; omega) hq

end Check

/-- **Framing is exact on well-formed input.** On a buffer that starts with a well-formed
encoding `e`, `check` succeeds with the cursor exactly past `e`, whatever bytes `s` follow;
on a buffer holding only a proper prefix of `e` it fails with `Incomplete`. -/
theorem check_frames_exactly {e : Bytes} (he : Encoding e) (s : Bytes) :
    Frame.check (e ++ s) 0 = .ok () e.length ∧
      ∀ k < e.length, ∃ q, Frame.check (e.take k) 0 = .error (.frame .incomplete) q :=
  ⟨by simpa using check_of_encoding he (show (e ++ s).drop 0 = e ++ s from rfl),
    fun _ hk => check_of_encoding_take he hk (by simp)⟩

/-- `*1\r\n$2\r\n\r\n\r\n`: an array holding one bulk string whose payload is `\r\n`. -/
theorem check_frames_exactly_nested :
    Encoding [42, 49, 13, 10, 36, 50, 13, 10, 13, 10, 13, 10] ∧
      (Frame.check ([42, 49, 13, 10, 36, 50, 13, 10, 13, 10, 13, 10] ++ [43]) 0 = .ok () 12 ∧
        ∀ k < 12, ∃ q, Frame.check ([42, 49, 13, 10, 36, 50, 13, 10, 13, 10, 13, 10].take k) 0 =
          .error (.frame .incomplete) q) := by
  have hd1 : Digits [49] := ⟨by decide, by simp, by decide⟩
  have hd2 : Digits [50] := ⟨by decide, by simp, by decide⟩
  have hbulk : Encoding [36, 50, 13, 10, 13, 10, 13, 10] :=
    @Encoding.bulk [50] [13, 10] hd2 rfl (by decide)
  have he : Encoding [42, 49, 13, 10, 36, 50, 13, 10, 13, 10, 13, 10] :=
    @Encoding.array [49] [[36, 50, 13, 10, 13, 10, 13, 10]] hd1 rfl
      (by simpa using hbulk)
  exact ⟨he, check_frames_exactly he [43]⟩


end RaphDb
