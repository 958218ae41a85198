import RaphDb.Connection.Framing

/-!
# `parse` undoes `create_bytes`

`Frame.parse` reads back every frame that `Frame.createBytes` writes, whatever bytes follow
it, and leaves the cursor where the encoding ends (`parse_of_createBytes`); an array written
as the connection writer and the tests write it, `Frame.arrayBytes`, reads back as that array
(`parse_of_arrayBytes`).  Both are stated at any cursor position through `buf.drop pos`, as
in `Framing`.

`create_bytes` writes the text of a `Simple` or `Error` frame verbatim, and `get_line` ends a
line at its first `\r\n`.  So the law needs the text to hold no `\r\n` (`Frame.lineSafe`);
without it `parse` stops inside the text and gives back a shorter frame
(`parse_createBytes_crlf_text`).  Bulk payloads need nothing: they are read by length, and a
payload holding `\r\n` reads back whole.
-/

namespace RaphDb

namespace Frame

/-- The text of a `Simple` or `Error` frame holds no `\r\n`, so the line that
`create_bytes` writes for it ends where the text does. -/
def lineSafe : Frame → Bool
  | .simple s | .error s => (crlfIndex s.bytes).isNone
  | _ => true

end Frame

section Write

lemma bytesMut_eq_some {out b : Bytes} (h : bytesMut out = some b) :
    b = out ∧ out.length ≤ isizeMax := by
  unfold bytesMut at h
  split at h
  · cases h; exact ⟨rfl, ‹_›⟩
  · cases h

lemma createBytes_ne_nil {F : Frame} {bytes : Bytes} (h : F.createBytes = some bytes) :
    bytes ≠ [] := by
  cases F <;> first | (obtain ⟨rfl, -⟩ := bytesMut_eq_some h; simp) | cases h

lemma mapM_createBytes_cons {F : Frame} {frames : List Frame} {parts : List Bytes}
    (h : (F :: frames).mapM Frame.createBytes = some parts) :
    ∃ b, F.createBytes = some b ∧
      ∃ ps, frames.mapM Frame.createBytes = some ps ∧ parts = b :: ps := by
  simp only [List.mapM_cons, Option.bind_eq_bind, Option.bind_eq_some, Option.pure_def,
    Option.some.injEq] at h
  obtain ⟨b, hb, ps, hps, rfl⟩ := h
  exact ⟨b, hb, ps, hps, rfl⟩

/-- Every element's encoding takes at least a byte, so an array has no more elements than
its body has bytes. -/
lemma length_le_flatten_of_mapM : ∀ {frames : List Frame} {parts : List Bytes},
    frames.mapM Frame.createBytes = some parts → frames.length ≤ parts.flatten.length
  | [], _, _ => Nat.zero_le _
  | _ :: _, _, h => by
    obtain ⟨b, hb, ps, hps, rfl⟩ := mapM_createBytes_cons h
    have hb' := List.length_pos_of_ne_nil (createBytes_ne_nil hb)
    have := length_le_flatten_of_mapM hps
    simp only [List.length_cons, List.flatten_cons, List.length_append]
    omega

end Write

section Read

variable {buf : Bytes} {pos : Nat}

/-- `parse` at a type byte: `get_u8`, then the branch for that byte. -/
lemma parse_of_drop_cons {b : UInt8} {rest : Bytes} (h : buf.drop pos = b :: rest) :
    Frame.parse buf pos = parseByte buf (Frame.parse buf) b (pos + 1) := by
  rw [Frame.parse_eq, parseStep, bind_of_ok (getU8_of_drop h)]

/-- `parse` reads a bulk string of the declared length and skips the two bytes after it. -/
lemma parse_bulk_of_drop {ds payload s : Bytes} (hds : Digits ds)
    (hlen : payload.length = digitsValue ds) (hmax : digitsValue ds + 2 < 2 ^ 64)
    (h : buf.drop pos = 36 :: ds ++ crlf ++ payload ++ crlf ++ s) :
    Frame.parse buf pos = .ok (.bulk payload) (pos + (36 :: ds ++ crlf ++ payload ++ crlf).length) := by
  obtain ⟨d, rest, rfl, hd⟩ := ne_45_of_digits hds
  simp only [crlf, List.cons_append, List.append_assoc] at h
  have h1 := drop_succ_of_drop h
  have h2 : buf.drop (pos + 1 + (d :: rest).length + 2) = payload ++ 13 :: 10 :: s := by
    rw [show pos + 1 + (d :: rest).length + 2 = pos + 1 + (d :: rest ++ [13, 10]).length by
      simp; omega]
    exact drop_add_of_drop (by simpa using h1)
  have hrem : buf.length - (pos + 1 + (d :: rest).length + 2) = payload.length + 2 + s.length := by
    rw [← List.length_drop, h2]; simp; omega
  rw [parse_of_drop_cons h, parseByte_bulk, bind_of_ok (peekU8_of_drop h1), if_neg hd,
    bind_of_ok (getDecimal_of_drop (by simpa using h1) hds), hds.toNat_ofNat, readBulk_eq,
    if_pos hmax, if_neg (by omega), h2, List.take_left' hlen]
  simp [crlf]; omega

/-- **`parse` reads back what `create_bytes` wrote**, for a frame whose text holds no
`\r\n`. -/
theorem parse_of_createBytes {F : Frame} {bytes : Bytes} (hF : F.createBytes = some bytes)
    (hsafe : F.lineSafe = true) :
    ∀ {buf pos s}, buf.drop pos = bytes ++ s → Frame.parse buf pos = .ok F (pos + bytes.length) := by
  intro buf pos s h
  cases F with
  | simple t | error t =>
    obtain ⟨rfl, -⟩ := bytesMut_eq_some hF
    simp only [crlf, List.cons_append, List.append_assoc] at h
    rw [parse_of_drop_cons h]
    simp only [parseByte_simple, parseByte_error]
    rw [bind_of_ok (getLine_of_drop (drop_succ_of_drop h) (by simpa [Frame.lineSafe] using hsafe)),
      RString.fromUtf8_bytes]
    simp [crlf]; omega
  | integer n =>
    obtain ⟨rfl, -⟩ := bytesMut_eq_some hF
    simp only [crlf, List.cons_append, List.append_assoc] at h
    rw [parse_of_drop_cons h, parseByte_integer,
      bind_of_ok (getDecimal_of_drop (drop_succ_of_drop h) (Digits.decimal n.toNat_lt))]
    simp [crlf]; omega
  | bulk v =>
    obtain ⟨rfl, hmax⟩ := bytesMut_eq_some hF
    have hv : v.length + 2 < 2 ^ 64 := by simp [isizeMax] at hmax; omega
    have := parse_bulk_of_drop (Digits.decimal (by omega)) (digitsValue_decimal _).symm
      (by simpa using hv) h
    simpa using this
  | null =>
    obtain ⟨rfl, -⟩ := bytesMut_eq_some hF
    simp only [List.cons_append, List.nil_append] at h
    rw [parse_of_drop_cons h, parseByte_bulk, bind_of_ok (peekU8_of_drop (drop_succ_of_drop h)),
      if_pos rfl, bind_of_ok (getLine_of_drop (t := [45, 49]) (drop_succ_of_drop h) rfl),
      if_neg (by simp)]
    simp
  | array _ => cases hF

/-- The array loop of `parse` over elements written by `create_bytes`. -/
lemma collectM_parse_of_mapM : ∀ {frames : List Frame} {parts : List Bytes},
    frames.mapM Frame.createBytes = some parts → (∀ F ∈ frames, F.lineSafe = true) →
    ∀ {pos s}, buf.drop pos = parts.flatten ++ s →
      collectM frames.length (Frame.parse buf) pos = .ok frames (pos + parts.flatten.length)
  | [], _, h, _, _, _, _ => by cases h; rfl
  | F :: frames, _, h, hs, pos, s, hd => by
    obtain ⟨b, hb, ps, hps, rfl⟩ := mapM_createBytes_cons h
    rw [List.flatten_cons, List.append_assoc] at hd
    rw [List.length_cons, collectM, bind_of_ok (parse_of_createBytes hb (hs F (by simp)) hd),
      bind_of_ok (collectM_parse_of_mapM hps (fun F' h' => hs F' (by simp [h']))
        (drop_add_of_drop hd))]
    simp [Nat.add_assoc]

/-- **`parse` reads back an array written element by element.** -/
theorem parse_of_arrayBytes {frames : List Frame} {bytes : Bytes}
    (h : Frame.arrayBytes frames = some bytes) (hs : ∀ F ∈ frames, F.lineSafe = true) :
    ∀ {buf pos s}, buf.drop pos = bytes ++ s →
      Frame.parse buf pos = .ok (.array frames) (pos + bytes.length) := by
  intro buf pos s hd
  simp only [Frame.arrayBytes, Option.bind_eq_bind, Option.bind_eq_some] at h
  obtain ⟨parts, hparts, hb⟩ := h
  obtain ⟨rfl, hmax⟩ := bytesMut_eq_some hb
  have hn : frames.length < 2 ^ 64 := by
    have h1 := length_le_flatten_of_mapM hparts
    have h2 : parts.flatten.length ≤ (42 :: decimal frames.length ++ crlf ++ parts.flatten).length := by
      simp only [List.cons_append, List.length_cons, List.length_append]; omega
    unfold isizeMax at hmax; omega
  simp only [crlf, List.cons_append, List.append_assoc] at hd
  have h1 := drop_succ_of_drop hd
  have h2 := drop_add_of_drop (l := decimal frames.length ++ [13, 10]) (by simpa using h1)
  rw [parse_of_drop_cons hd, parseByte_array,
    bind_of_ok (getDecimal_of_drop (by simpa using h1) (Digits.decimal hn)),
    (Digits.decimal hn).toNat_ofNat, digitsValue_decimal,
    bind_of_ok (collectM_parse_of_mapM hparts hs (s := s) (by simpa using h2))]
  simp [crlf]; omega

end Read

/-- **Decoding undoes encoding**, for frames whose text holds no `\r\n`: a frame, and an
array of frames, each read back from the start of any buffer that begins with its
encoding, with the cursor left where the encoding ends. -/
theorem parse_createBytes :
    (∀ (F : Frame) (bytes s : Bytes), F.createBytes = some bytes → F.lineSafe = true →
      Frame.parse (bytes ++ s) 0 = .ok F bytes.length) ∧
    (∀ (frames : List Frame) (bytes s : Bytes), Frame.arrayBytes frames = some bytes →
      (∀ F ∈ frames, F.lineSafe = true) →
      Frame.parse (bytes ++ s) 0 = .ok (.array frames) bytes.length) :=
  ⟨fun _ bytes s hF hs => by
      simpa using parse_of_createBytes hF hs (show (bytes ++ s).drop 0 = bytes ++ s from rfl),
    fun _ bytes s h hs => by
      simpa using parse_of_arrayBytes h hs (show (bytes ++ s).drop 0 = bytes ++ s from rfl)⟩

/-- A bulk payload holding `\r\n` reads back whole. -/
theorem parse_createBytes_bulk_crlf :
    Frame.parse ([36, 50, 13, 10, 13, 10, 13, 10] ++ [43]) 0 = .ok (.bulk [13, 10]) 8 :=
  parse_createBytes.1 (.bulk [13, 10]) _ [43] rfl rfl

/-- The text `a\r\nb` is written verbatim, and `parse` stops at its `\r\n`: it gives back
`a` with the cursor at 4, where the encoding is 7 bytes long. -/
theorem parse_createBytes_crlf_text :
    (Frame.simple ⟨[97, 13, 10, 98], rfl⟩).createBytes = some [43, 97, 13, 10, 98, 13, 10] ∧
      Frame.parse [43, 97, 13, 10, 98, 13, 10] 0 = .ok (.simple ⟨[97], rfl⟩) 4 :=
  ⟨rfl, rfl⟩

end RaphDb
