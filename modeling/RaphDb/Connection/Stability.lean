import RaphDb.Connection.Frame

/-!
# Decisions stay the same when more input arrives

The read loop of the connection runs `check` and `parse` on what it has buffered so far, and
reads more only when they fail with `Incomplete`.  This module shows that the loop cannot
tell how the stream was cut into reads: once `Frame.check` or `Frame.parse` decides on a
buffer `b` (with a result, another error, or a panic), it decides the same on `b ++ s` for
every `s` (`check_parse_prefix_stable`).

`Extends m m' lo` says that `m'`, run over a longer buffer, does what `m` does at every
position from `lo` on where `m` does not ask for more input.  Each helper of `frame.rs`
extends itself (`get_line` needs a non-empty buffer, which the `get_u8` before it gives),
`>>=` preserves the relation, and one level of `check` or `parse` extends itself when its
recursive call does beyond the type byte.  The run lemmas `extends_check` and
`extends_parse` then go down the buffer one position at a time.
-/

namespace RaphDb

/-- `m'` decides as `m` does at every position from `lo` on where `m` does not fail with
`Incomplete`. -/
def Extends {α : Type} (m m' : CursorM α) (lo : Nat) : Prop :=
  ∀ p, lo ≤ p → (∀ q, m p ≠ incompleteAt q) → m' p = m p

namespace Extends

variable {α β : Type} {m m' : CursorM α} {lo : Nat}

lemma refl (m : CursorM α) (lo : Nat) : Extends m m lo := fun _ _ _ => rfl

lemma mono (h : Extends m m' lo) {lo' : Nat} (hle : lo ≤ lo') : Extends m m' lo' :=
  fun p hp => h p (hle.trans hp)

lemma bind {f f' : α → CursorM β} (hm : Extends m m' lo) (hfw : Forward m)
    (hf : ∀ a, Extends (f a) (f' a) lo) : Extends (m >>= f) (m' >>= f') lo := by
  intro p hp hd
  have hnm : ∀ q, m p ≠ incompleteAt q := fun q h => hd q (bind_of_error h)
  rcases h : m p with ⟨a, q⟩ | ⟨e, q⟩
  · rw [bind_of_ok h, bind_of_ok ((hm p hp hnm).trans h)]
    rw [bind_of_ok h] at hd
    exact hf a q (hp.trans (hfw h)) hd
  · rw [bind_of_error h, bind_of_error ((hm p hp hnm).trans h)]

end Extends

section Helpers

variable {b s : Bytes} {lo : Nat}

lemma extends_getU8_bind {α : Type} {f f' : UInt8 → CursorM α}
    (hf : ∀ x, b ≠ [] → Extends (f x) (f' x) (lo + 1)) :
    Extends (getU8 b >>= f) (getU8 (b ++ s) >>= f') lo := by
  intro p hp hd
  by_cases hpl : p < b.length
  · have hx : getU8 b p = .ok b[p] (p + 1) := by simp [getU8, hpl]
    have hx' : getU8 (b ++ s) p = .ok b[p] (p + 1) := by
      simp [getU8, List.getElem?_append_left hpl, hpl]
    rw [bind_of_ok hx] at hd ⊢
    rw [bind_of_ok hx']
    exact hf _ (List.ne_nil_of_length_pos (by omega)) (p + 1) (by omega) hd
  · exact (hd p (bind_of_error (by simp [getU8, List.getElem?_eq_none (by omega : b.length ≤ p)]))).elim

lemma extends_peekU8 : Extends (peekU8 b) (peekU8 (b ++ s)) lo := by
  intro p _ hd
  by_cases hpl : p < b.length
  · simp only [peekU8, List.getElem?_append_left hpl]
  · exact (hd p (by simp [peekU8, List.getElem?_eq_none (by omega : b.length ≤ p)])).elim

lemma extends_skip (n : Nat) : Extends (skip b n) (skip (b ++ s) n) lo := by
  intro p _ hd
  by_cases h : b.length - p < n
  · exact (hd p (if_pos h)).elim
  · simp only [skip, if_neg h, List.length_append]
    rw [if_neg (by omega)]

lemma extends_getLine (hb : b ≠ []) : Extends (getLine b) (getLine (b ++ s)) lo := by
  intro p _ hd
  rw [getLine_eq hb] at hd ⊢
  rw [getLine_eq (by simp [hb])]
  rcases hj : crlfIndex (b.drop p) with _ | j
  · rw [hj] at hd
    exact (hd p rfl).elim
  · have hp : p ≤ b.length := by
      by_contra hp
      rw [List.drop_eq_nil_of_le (by omega)] at hj
      cases hj
    rw [List.drop_append_of_le_length hp, crlfIndex_append_of_eq_some s hj]
    dsimp only
    rw [List.take_append_of_le_length (by have := crlfIndex_add_two_le hj; omega)]

lemma extends_getDecimal (hb : b ≠ []) : Extends (getDecimal b) (getDecimal (b ++ s)) lo :=
  (extends_getLine hb).bind Forward.getLine fun _ => Extends.refl _ _

lemma extends_readBulk (len : Nat) : Extends (readBulk b len) (readBulk (b ++ s) len) lo := by
  intro p _ hd
  rw [readBulk_eq] at hd ⊢
  rw [readBulk_eq]
  by_cases h1 : len + 2 < 2 ^ 64
  · by_cases h2 : b.length - p < len + 2
    · simp only [if_pos h1, if_pos h2] at hd
      exact (hd p rfl).elim
    · simp only [if_pos h1, if_neg h2, List.length_append]
      rw [if_neg (by omega), List.drop_append_of_le_length (by omega),
        List.take_append_of_le_length (by simp; omega)]
  · simp only [if_neg h1]

lemma extends_repeatM {r r' : CursorM Unit} (hr : Extends r r' lo) (hfr : Forward r) :
    ∀ n, Extends (repeatM n r) (repeatM n r') lo
  | 0 => Extends.refl _ _
  | n + 1 => hr.bind hfr fun _ => extends_repeatM hr hfr n

lemma extends_collectM {r r' : CursorM Frame} (hr : Extends r r' lo) (hfr : Forward r) :
    ∀ n, Extends (collectM n r) (collectM n r') lo
  | 0 => Extends.refl _ _
  | n + 1 => hr.bind hfr fun _ =>
    (extends_collectM hr hfr n).bind (Forward.collectM hfr n) fun _ => Extends.refl _ _

end Helpers

/-! ## One level, then the whole run -/

section Levels

variable {b s : Bytes} {lo : Nat}

lemma extends_checkByte {r r' : CursorM Unit} (hb : b ≠ []) (hr : Extends r r' lo)
    (hfr : Forward r) (x : UInt8) : Extends (checkByte b r x) (checkByte (b ++ s) r' x) lo := by
  by_cases hl : x = 43 ∨ x = 45
  · rw [checkByte_line hl, checkByte_line hl]
    exact (extends_getLine hb).bind Forward.getLine fun _ => .refl _ _
  obtain ⟨h43, h45⟩ := not_or.mp hl
  by_cases h58 : x = 58
  · subst h58; rw [checkByte_integer, checkByte_integer]
    exact (extends_getDecimal hb).bind Forward.getDecimal fun _ => .refl _ _
  by_cases h36 : x = 36
  · subst h36; rw [checkByte_bulk, checkByte_bulk]
    refine extends_peekU8.bind Forward.peekU8 fun d => ?_
    split
    · exact extends_skip 4
    · exact (extends_getDecimal hb).bind Forward.getDecimal fun _ =>
        (Extends.refl _ _).bind (Forward.addUsize _ _) fun n => extends_skip n
  by_cases h42 : x = 42
  · subst h42; rw [checkByte_array, checkByte_array]
    exact (extends_getDecimal hb).bind Forward.getDecimal fun _ => extends_repeatM hr hfr _
  rw [checkByte_other h43 h45 h58 h36 h42, checkByte_other h43 h45 h58 h36 h42]
  exact .refl _ _

lemma extends_parseByte {r r' : CursorM Frame} (hb : b ≠ []) (hr : Extends r r' lo)
    (hfr : Forward r) (x : UInt8) : Extends (parseByte b r x) (parseByte (b ++ s) r' x) lo := by
  by_cases hl : x = 43 ∨ x = 45
  · rcases hl with rfl | rfl <;> simp only [parseByte_simple, parseByte_error] <;>
      exact (extends_getLine hb).bind Forward.getLine fun _ => .refl _ _
  obtain ⟨h43, h45⟩ := not_or.mp hl
  by_cases h58 : x = 58
  · subst h58; rw [parseByte_integer, parseByte_integer]
    exact (extends_getDecimal hb).bind Forward.getDecimal fun _ => .refl _ _
  by_cases h36 : x = 36
  · subst h36; rw [parseByte_bulk, parseByte_bulk]
    refine extends_peekU8.bind Forward.peekU8 fun d => ?_
    split
    · exact (extends_getLine hb).bind Forward.getLine fun _ => .refl _ _
    · exact (extends_getDecimal hb).bind Forward.getDecimal fun _ => extends_readBulk _
  by_cases h42 : x = 42
  · subst h42; rw [parseByte_array, parseByte_array]
    exact (extends_getDecimal hb).bind Forward.getDecimal fun _ =>
      (extends_collectM hr hfr _).bind (Forward.collectM hfr _) fun _ => .refl _ _
  rw [parseByte_other h43 h45 h58 h36 h42, parseByte_other h43 h45 h58 h36 h42]
  exact .refl _ _

/-- **`check` decides the same on a longer buffer**, at every position. -/
lemma extends_check (b s : Bytes) :
    ∀ n, Extends (Frame.check b) (Frame.check (b ++ s)) (b.length - n)
  | 0 => fun p hp hd =>
    (hd p (by rw [Frame.check_eq]; exact checkStep_unrollable.at_end _ _ (by omega))).elim
  | n + 1 => fun p hp => by
    have h : Extends (checkStep b (Frame.check b)) (checkStep (b ++ s) (Frame.check (b ++ s)))
        (b.length - (n + 1)) := extends_getU8_bind fun x hb =>
      extends_checkByte hb ((extends_check b s n).mono (by omega)) (Frame.forward_check b) x
    have := h p hp
    rwa [← Frame.check_eq, ← Frame.check_eq] at this

/-- **`parse` decides the same on a longer buffer**, at every position. -/
lemma extends_parse (b s : Bytes) :
    ∀ n, Extends (Frame.parse b) (Frame.parse (b ++ s)) (b.length - n)
  | 0 => fun p hp hd =>
    (hd p (by rw [Frame.parse_eq]; exact parseStep_unrollable.at_end _ _ (by omega))).elim
  | n + 1 => fun p hp => by
    have h : Extends (parseStep b (Frame.parse b)) (parseStep (b ++ s) (Frame.parse (b ++ s)))
        (b.length - (n + 1)) := extends_getU8_bind fun x hb =>
      extends_parseByte hb ((extends_parse b s n).mono (by omega)) (Frame.forward_parse b) x
    have := h p hp
    rwa [← Frame.parse_eq, ← Frame.parse_eq] at this

end Levels

/-- **Decisions stay the same when more input arrives.**  Unless `check` or `parse` asks for
more input on `b`, it returns the same on `b ++ s`, with the cursor at the same place. -/
theorem check_parse_prefix_stable (b s : Bytes) (p : Nat) :
    ((∀ q, Frame.check b p ≠ .error (.frame .incomplete) q) →
      Frame.check (b ++ s) p = Frame.check b p) ∧
    ((∀ q, Frame.parse b p ≠ .error (.frame .incomplete) q) →
      Frame.parse (b ++ s) p = Frame.parse b p) :=
  ⟨extends_check b s b.length p (by omega), extends_parse b s b.length p (by omega)⟩

/-- `:7\r\n` followed by the start of another frame: `check` and `parse` decide on the first
frame as they would without it. -/
theorem check_parse_prefix_stable_integer :
    Frame.check ([58, 55, 13, 10] ++ [43]) 0 = .ok () 4 ∧
      Frame.parse ([58, 55, 13, 10] ++ [43]) 0 = .ok (.integer 7) 4 := by
  have hc : Frame.check [58, 55, 13, 10] 0 = .ok () 4 := rfl
  have hp : Frame.parse [58, 55, 13, 10] 0 = .ok (.integer 7) 4 := rfl
  refine ⟨?_, ?_⟩
  · rw [(check_parse_prefix_stable [58, 55, 13, 10] [43] 0).1 (by rw [hc]; simp), hc]
  · rw [(check_parse_prefix_stable [58, 55, 13, 10] [43] 0).2 (by rw [hp]; simp), hp]

end RaphDb
