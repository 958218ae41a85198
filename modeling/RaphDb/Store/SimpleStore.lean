import RaphDb.Basic

/-!
# The append-log store: `SimpleStore`

`server/key_value_store/simple_store.rs` appends every `set` to the log file `log.raphdb` as
the record `key,value\n` and keeps in memory the byte offset of each key's last record.
`get` seeks to the offset, reads one line with `read_line`, splits it at `,` and returns the
fields after the first, joined.  `recover` rebuilds the index from the log on start-up,
reading it with tokio's `lines()` and adding `line.len() + 1` per line.

The file is a byte string and the file operations succeed; the locks are left out, each call
being one step (the interleavings of concurrent `set`s are a separate matter).  Errors are
`StoreError`, one constructor per `bail!` and per failing read, carrying what the message
prints.

What the store is for is a map from keys to the value last set (`mapOf`); `Refines` says a
store holds such a map, `set` keeps it (`Refines.set`), and so does every history of `set`s.
Two readings of a line disagree with what `set` wrote.  `read_line` keeps the `\n`, and `get`
joins the fields after the key with nothing between them, so over a history of plain `set`s
`get` returns the last value with its commas dropped and a newline after it (`get_setAll`;
`get_set_newline` is the plain case).  `lines()` drops a `\r` before the `\n`: when no value
ends in `\r`, `recover` gives back exactly the index the store holds (`recover_setAll`), but
one that does makes `recover` count one byte too few, and every later offset it rebuilds is
off by one (`recover_cr_value`).

A value holding a `\n` is written as it is.  `get` reads it back only up to its first `\n`
(`get_setAll_firstLine`), and the line after that `\n`, when it has no `,`, is one that
`recover` rejects: from then on `recover` fails whatever is set later
(`recover_newline_corrupted`), which is the case of every value that ends in `\n`.
-/

namespace RaphDb

namespace SimpleStore

/-- The errors of `get` and `recover`. -/
inductive StoreError where
  /-- `read_line` or `next_line` read bytes that are not UTF-8. -/
  | invalidUtf8
  /-- `"Index key = {:?} log data is corrupted"`. -/
  | indexCorrupted (key : RString)
  /-- `"log data key = {:?} does not match index key = {:?}"`. -/
  | keyMismatch (found : Bytes) (key : RString)
  /-- `"log file data is corrupted at byte {:?}"`. -/
  | logCorrupted (offset : Nat)

/-- `State`: the log file and the index.  The shutdown flag, which nothing reads, is left
out. -/
structure State where
  log : Bytes
  index : RString → Option Nat

/-- A store over an empty log file. -/
def State.empty : State := ⟨[], fun _ => none⟩

/-- The record `set` appends: `key`, `,`, `value`, `\n`. -/
def record (key : RString) (value : Bytes) : Bytes := key.bytes ++ 44 :: value ++ [10]

/-- `SimpleStore::set`: the record is appended at the end of the log, whose length is the
offset the index keeps. -/
def State.set (st : State) (key : RString) (value : Bytes) : State :=
  ⟨st.log ++ record key value, Function.update st.index key (some st.log.length)⟩

@[simp] lemma State.set_log (st : State) (key : RString) (value : Bytes) :
    (st.set key value).log = st.log ++ record key value := rfl

@[simp] lemma State.set_index (st : State) (key : RString) (value : Bytes) :
    (st.set key value).index = Function.update st.index key (some st.log.length) := rfl

/-- `BufRead::read_line`: the bytes up to and including the next `\n`, or to the end. -/
def readLine : Bytes → Bytes
  | [] => []
  | b :: rest => if b = 10 then [10] else b :: readLine rest

/-- `SimpleStore::get`. -/
def State.get (st : State) (key : RString) : Except StoreError (Option Bytes) :=
  match st.index key with
  | none => .ok none
  | some offset =>
    let data := readLine (st.log.drop offset)
    match RString.fromUtf8 data with
    | none => .error .invalidUtf8
    | some _ =>
      let keyValue := data.splitOn 44
      if keyValue.length < 2 then .error (.indexCorrupted key)
      else if keyValue.headD [] ≠ key.bytes then .error (.keyMismatch (keyValue.headD []) key)
      else .ok (some keyValue.tail.flatten)

/-- `lines().next_line()` of tokio: the next line, without its `\n` and a `\r` before it, and
the bytes after it; `none` at the end. -/
def nextLine (l : Bytes) : Option (Bytes × Bytes) :=
  if l = [] then none
  else
    let line := l.takeWhile (· != 10)
    if line.length < l.length then
      some (if line.getLast? = some 13 then line.dropLast else line, l.drop (line.length + 1))
    else some (line, [])

/-- The loop of `SimpleStore::recover` over the bytes left, from `offset`; `fuel` bounds the
lines, one per byte is enough. -/
def recoverLoop : Nat → Bytes → Nat → (RString → Option Nat) →
    Except StoreError (RString → Option Nat)
  | 0, _, _, index => .ok index
  | fuel + 1, rest, offset, index =>
    match nextLine rest with
    | none => .ok index
    | some (line, rest') =>
      match RString.fromUtf8 line with
      | none => .error .invalidUtf8
      | some _ =>
        let keyValue := line.splitOn 44
        if keyValue.length < 2 then .error (.logCorrupted offset)
        else match RString.fromUtf8 (keyValue.headD []) with
          | none => .error .invalidUtf8
          | some key =>
            recoverLoop fuel rest' (offset + line.length + 1) (Function.update index key (some offset))

/-- `SimpleStore::recover` of a log file. -/
def recover (log : Bytes) : Except StoreError (RString → Option Nat) :=
  recoverLoop (log.length + 1) log 0 fun _ => none

/-- A history of `set` calls on an empty log. -/
def setAll (sets : List (RString × Bytes)) : State :=
  sets.foldl (fun st kv => st.set kv.1 kv.2) State.empty

/-! ## Reading one record back -/

/-- A `set` whose record reads back as one line: the key holds no `,` and no `\n`, the value
no `\n`, and the value is UTF-8 (the key is, being a `String`). -/
structure Plain (key : RString) (value : Bytes) : Prop where
  key_comma : 44 ∉ key.bytes
  key_newline : 10 ∉ key.bytes
  value_newline : 10 ∉ value
  value_utf8 : utf8Valid value = true

instance (key : RString) (value : Bytes) : Decidable (Plain key value) :=
  decidable_of_iff (44 ∉ key.bytes ∧ 10 ∉ key.bytes ∧ 10 ∉ value ∧ utf8Valid value = true)
    ⟨fun ⟨a, b, c, d⟩ => ⟨a, b, c, d⟩, fun ⟨a, b, c, d⟩ => ⟨a, b, c, d⟩⟩

lemma record_eq_line (key : RString) (value rest : Bytes) :
    record key value ++ rest = (key.bytes ++ 44 :: value) ++ 10 :: rest := by
  simp [record]

lemma readLine_append {l : Bytes} (rest : Bytes) (h : 10 ∉ l) :
    readLine (l ++ 10 :: rest) = l ++ [10] := by
  induction l with
  | nil => rfl
  | cons b l ih =>
    rw [List.mem_cons, not_or] at h
    rw [List.cons_append, readLine, if_neg (Ne.symm h.1), ih h.2, List.cons_append]

/-- A line `key,value` is UTF-8 when the value is. -/
lemma utf8Valid_line (key : RString) {value : Bytes} (h : utf8Valid value = true) :
    utf8Valid (key.bytes ++ 44 :: value) = true := by
  rw [utf8Valid_append _ key.valid, utf8Valid_ascii_cons _ (by decide), h]

/-- `split(",")` of a key with no `,`, a `,`, and the rest. -/
lemma splitOn_line {key : RString} (h : 44 ∉ key.bytes) (rest : Bytes) :
    (key.bytes ++ 44 :: rest).splitOn 44 = key.bytes :: rest.splitOn 44 :=
  List.splitOnP_first (· == 44) _ (fun (_ : UInt8) hx hx' => h (beq_iff_eq.mp hx' ▸ hx)) 44
    (beq_self_eq_true (44 : UInt8)) rest

/-- Joining the fields of `split(",")` drops the commas. -/
lemma flatten_splitOn (l : Bytes) : (l.splitOn 44).flatten = l.filter (· != 44) := by
  induction l with
  | nil => rfl
  | cons b l ih =>
    simp only [List.splitOn, List.splitOnP_cons] at ih ⊢
    by_cases hb : b = 44
    · simp [hb, ih]
    · obtain ⟨s, ss, hs⟩ := List.exists_cons_of_ne_nil (List.splitOnP_ne_nil (· == 44) l)
      simp_all [List.filter_cons]

/-- `get` of a key whose offset holds the line `key,a`, with `a` plain: `a`, its commas
dropped, and the `\n` that ends the line.  `read_line` stops there, so nothing after it is
read. -/
lemma get_of_line {st : State} {key : RString} {a rest : Bytes} {o : Nat}
    (hi : st.index key = some o) (hl : st.log.drop o = key.bytes ++ 44 :: a ++ 10 :: rest)
    (hp : Plain key a) : st.get key = .ok (some (a.filter (· != 44) ++ [10])) := by
  have hv : utf8Valid (record key a) = true := by
    rw [record, utf8Valid_append _ (utf8Valid_line key hp.value_utf8)]; rfl
  have hsplit : (record key a).splitOn 44 = key.bytes :: (a ++ [10]).splitOn 44 := by
    rw [record, List.append_assoc, List.cons_append, splitOn_line hp.key_comma]
  have hlen : ¬ (key.bytes :: (a ++ [10]).splitOn 44).length < 2 := by
    rw [List.length_cons, Nat.not_lt]
    exact Nat.succ_le_succ (List.length_pos_of_ne_nil (List.splitOnP_ne_nil _ _))
  rw [State.get, hi]
  dsimp only
  rw [hl, readLine_append _ (by simp [hp.key_newline, hp.value_newline]), ← record,
    RString.fromUtf8, dif_pos hv]
  dsimp only
  rw [hsplit, if_neg hlen, if_neg (by simp), List.tail_cons, flatten_splitOn, List.filter_append]
  rfl

/-- `get` of a key whose offset holds a plain record: the value, its commas dropped, and
the `\n` that ends the record. -/
lemma get_of_record {st : State} {key : RString} {value rest : Bytes} {o : Nat}
    (hi : st.index key = some o) (hl : st.log.drop o = record key value ++ rest)
    (hp : Plain key value) : st.get key = .ok (some (value.filter (· != 44) ++ [10])) :=
  get_of_line hi (by rw [hl, record_eq_line]) hp

/-- `get` of a key the index does not hold. -/
lemma get_of_index_none {st : State} {key : RString} (hi : st.index key = none) :
    st.get key = .ok none := by
  rw [State.get, hi]

/-- The line `lines()` returns for a record whose text holds no `\n` and does not end in
`\r`, and the bytes after it. -/
lemma nextLine_append {l : Bytes} (rest : Bytes) (h : 10 ∉ l) (hr : l.getLast? ≠ some 13) :
    nextLine (l ++ 10 :: rest) = some (l, rest) := by
  have ht : (l ++ 10 :: rest).takeWhile (· != 10) = l := by
    rw [List.takeWhile_append_of_pos fun a ha => bne_iff_ne.mpr (ne_of_mem_of_not_mem ha h)]
    simp
  simp [nextLine, ht, hr]

/-- One turn of `recover`'s loop over a plain record whose value does not end in `\r`: the
key goes into the index at the record's offset, and the offset moves past the record. -/
lemma recoverLoop_record {key : RString} {value : Bytes} (hp : Plain key value)
    (hr : value.getLast? ≠ some 13) (fuel : Nat) (rest : Bytes) (o : Nat)
    (index : RString → Option Nat) :
    recoverLoop (fuel + 1) (record key value ++ rest) o index =
      recoverLoop fuel rest (o + (record key value).length) (Function.update index key (some o)) := by
  have hline : (key.bytes ++ 44 :: value).getLast? ≠ some 13 := by
    rw [List.getLast?_append_of_ne_nil _ (List.cons_ne_nil _ _), List.getLast?_cons]
    cases h : value.getLast? <;> simp_all
  have hlen : ¬ (key.bytes :: value.splitOn 44).length < 2 := by
    rw [List.length_cons, Nat.not_lt]
    exact Nat.succ_le_succ (List.length_pos_of_ne_nil (List.splitOnP_ne_nil _ _))
  rw [record_eq_line, recoverLoop,
    nextLine_append _ (by simp [hp.key_newline, hp.value_newline]) hline]
  dsimp only
  rw [RString.fromUtf8, dif_pos (utf8Valid_line key hp.value_utf8)]
  dsimp only
  rw [splitOn_line hp.key_comma, if_neg hlen, List.headD_cons, RString.fromUtf8_bytes]
  simp [record, Nat.add_assoc]

/-! ## The store is a map

What `SimpleStore` is for: a map from keys to the value last set.  The index holds a key
exactly when the map does, at an offset where the log holds that key's record with the
map's value. -/

/-- The map a history of `set` calls builds from `m`. -/
def mapOf (sets : List (RString × Bytes)) (m : RString → Option Bytes) :
    RString → Option Bytes :=
  sets.foldl (fun m kv => Function.update m kv.1 (some kv.2)) m

/-- A record in the log stays where it is when more is appended. -/
lemma drop_append_of_record {log rest : Bytes} {o : Nat} {key : RString} {value : Bytes}
    (hl : log.drop o = record key value ++ rest) (r : Bytes) :
    (log ++ r).drop o = record key value ++ (rest ++ r) := by
  have ho : o ≤ log.length := by
    by_contra hlt
    rw [List.drop_eq_nil_of_le (by omega)] at hl
    simp [record] at hl
  rw [List.drop_append_of_le_length ho, hl, List.append_assoc]

/-- The store `st` holds the map `m`. -/
structure Refines (st : State) (m : RString → Option Bytes) : Prop where
  /-- A key the map does not hold has no offset. -/
  index_none : ∀ k, m k = none → st.index k = none
  /-- At the offset of a key the map holds, the log holds its record with the map's value. -/
  record_at : ∀ k v, m k = some v → ∃ o rest, st.index k = some o ∧ st.log.drop o = record k v ++ rest

namespace Refines

variable {st : State} {m : RString → Option Bytes}

lemma empty : Refines State.empty fun _ => none := ⟨fun _ _ => rfl, fun _ _ h => by cases h⟩

/-- **One step.**  `set` appends the record the index then points to; every earlier record
stays where it was. -/
lemma set (hr : Refines st m) (key : RString) (value : Bytes) :
    Refines (st.set key value) (Function.update m key (some value)) := by
  constructor
  · intro k hk
    have hne : k ≠ key := by rintro rfl; simp at hk
    rw [Function.update_noteq hne] at hk
    simp only [State.set, Function.update_noteq hne, hr.index_none k hk]
  · intro k v hk
    by_cases hne : k = key
    · subst hne
      rw [Function.update_same, Option.some.injEq] at hk
      subst hk
      exact ⟨st.log.length, [], by simp [State.set]⟩
    · rw [Function.update_noteq hne] at hk
      obtain ⟨o, rest, hi, hl⟩ := hr.record_at k v hk
      refine ⟨o, rest ++ record key value, ?_, drop_append_of_record hl _⟩
      simp only [State.set, Function.update_noteq hne, hi]

/-- **A run.**  A history of `set` calls keeps the store and the map together. -/
lemma foldl_set (sets : List (RString × Bytes)) (hr : Refines st m) :
    Refines (sets.foldl (fun st kv => st.set kv.1 kv.2) st) (mapOf sets m) := by
  induction sets generalizing st m with
  | nil => exact hr
  | cons kv sets ih => exact ih (hr.set kv.1 kv.2)

end Refines

/-- A value the map holds was set. -/
lemma mem_of_mapOf (sets : List (RString × Bytes)) {m : RString → Option Bytes} {k : RString}
    {v : Bytes} (h : mapOf sets m k = some v) : m k = some v ∨ (k, v) ∈ sets := by
  induction sets generalizing m with
  | nil => exact .inl h
  | cons kv sets ih =>
    rcases ih h with h' | h'
    · dsimp only at h'
      by_cases hk : k = kv.1
      · subst hk
        rw [Function.update_same, Option.some.injEq] at h'
        exact .inr (h' ▸ List.mem_cons_self _ _)
      · exact .inl (by rwa [Function.update_noteq hk] at h')
    · exact .inr (List.mem_cons_of_mem _ h')

/-- A record and whatever follows it begin with the line `key,` and the value's first line. -/
lemma record_append_firstLine (key : RString) (value rest : Bytes) :
    ∃ rest', record key value ++ rest =
      key.bytes ++ 44 :: value.takeWhile (· != 10) ++ 10 :: rest' := by
  suffices h : ∀ v : Bytes, ∃ rest', v ++ 10 :: rest = v.takeWhile (· != 10) ++ 10 :: rest' by
    obtain ⟨rest', h'⟩ := h value
    exact ⟨rest', by rw [record_eq_line, List.append_assoc, List.cons_append, h']; simp⟩
  intro v
  induction v with
  | nil => exact ⟨rest, rfl⟩
  | cons b v ih =>
    by_cases hb : b = 10
    · exact ⟨v ++ 10 :: rest, by simp [hb]⟩
    · obtain ⟨rest', h⟩ := ih
      exact ⟨rest', by simp [List.takeWhile_cons, hb, h]⟩

/-- A value with no `\n` is its own first line. -/
lemma takeWhile_of_not_mem {v : Bytes} (h : 10 ∉ v) : v.takeWhile (· != 10) = v :=
  List.takeWhile_eq_self_iff.mpr fun _ hx => bne_iff_ne.mpr (ne_of_mem_of_not_mem hx h)

/-- **`get` on a store that holds a map**: the first line of the key's value, commas dropped,
and its `\n`, where the key and that line are plain; `None` for a key the map does not hold. -/
lemma Refines.get_eq {st : State} {m : RString → Option Bytes} (hr : Refines st m) (k : RString)
    (h : ∀ v, m k = some v → Plain k (v.takeWhile (· != 10))) :
    st.get k = .ok ((m k).map fun v => (v.takeWhile (· != 10)).filter (· != 44) ++ [10]) := by
  cases hm : m k with
  | none => exact get_of_index_none (hr.index_none k hm)
  | some v =>
    obtain ⟨o, rest, hi, hl⟩ := hr.record_at k v hm
    obtain ⟨rest', hl'⟩ := record_append_firstLine k v rest
    exact get_of_line hi (hl.trans hl') (h v hm)

/-- **`get` after a history of plain `set`s.**  The value of the key's last `set`, with its
commas dropped (`get` joins the fields of `split(",")` with nothing between them) and the
`\n` that `read_line` keeps; `None` for a key never set. -/
theorem get_setAll (sets : List (RString × Bytes)) (k : RString)
    (h : ∀ kv ∈ sets, Plain kv.1 kv.2) :
    (setAll sets).get k = .ok ((mapOf sets fun _ => none) k |>.map fun v => v.filter (· != 44) ++ [10]) := by
  have hplain : ∀ v, (mapOf sets fun _ => none) k = some v → Plain k v :=
    fun v hm => h _ ((mem_of_mapOf sets hm).resolve_left (by simp))
  refine ((Refines.empty.foldl_set sets).get_eq k fun v hm => ?_).trans ?_
  · rw [takeWhile_of_not_mem (hplain v hm).value_newline]
    exact hplain v hm
  · cases hm : (mapOf sets fun _ => none) k with
    | none => rfl
    | some v => simp [takeWhile_of_not_mem (hplain v hm).value_newline]

/-- `set("k", "a,b")` and then `get("k")`: `ab\n`. -/
theorem get_setAll_comma :
    (setAll [(⟨[107], rfl⟩, [97, 44, 98])]).get ⟨[107], rfl⟩ = .ok (some [97, 98, 10]) :=
  get_setAll [(⟨[107], rfl⟩, [97, 44, 98])] ⟨[107], rfl⟩ (by decide)

/-- `set("k", "v")` and then `get("k")`: the value comes back with the `\n` that ends its
record. -/
theorem get_set_newline :
    (setAll [(⟨[107], rfl⟩, [118])]).get ⟨[107], rfl⟩ = .ok (some [118, 10]) := rfl

/-- **`get` returns a value's first line.**  After a history of `set`s whose keys hold no `,`
and no `\n`, and whose values' first lines are UTF-8, `get` of a key returns its last value
up to its first `\n`, commas dropped, and that `\n`; what a value holds after its first
newline is never read back. -/
theorem get_setAll_firstLine (sets : List (RString × Bytes)) (k : RString)
    (h : ∀ kv ∈ sets, Plain kv.1 (kv.2.takeWhile (· != 10))) :
    (setAll sets).get k = .ok ((mapOf sets fun _ => none) k |>.map
      fun v => (v.takeWhile (· != 10)).filter (· != 44) ++ [10]) :=
  (Refines.empty.foldl_set sets).get_eq k fun _ hm =>
    h _ ((mem_of_mapOf sets hm).resolve_left (by simp))

/-- `set("k", "a\nb")` and then `get("k")`: `a\n`. -/
theorem get_setAll_firstLine_two_lines :
    (setAll [(⟨[107], rfl⟩, [97, 10, 98])]).get ⟨[107], rfl⟩ = .ok (some [97, 10]) :=
  get_setAll_firstLine [(⟨[107], rfl⟩, [97, 10, 98])] ⟨[107], rfl⟩ (by decide)

/-! ## Recovery

`recover` reads the log line by line; over records whose values do not end in `\r` each line
is one record, and the offsets it adds up are those `set` took. -/

/-- The log a history of `set` calls leaves: its records, one after another. -/
lemma log_foldl_set (sets : List (RString × Bytes)) (st : State) :
    (sets.foldl (fun st kv => st.set kv.1 kv.2) st).log =
      st.log ++ (sets.map fun kv => record kv.1 kv.2).flatten := by
  induction sets generalizing st with
  | nil => simp
  | cons kv sets ih => rw [List.foldl_cons, ih]; simp [State.set]

/-- Every record takes at least one byte, so the log's length bounds the number of lines. -/
lemma length_le_records (sets : List (RString × Bytes)) :
    sets.length ≤ (sets.map fun kv => record kv.1 kv.2).flatten.length := by
  induction sets with
  | nil => exact Nat.zero_le _
  | cons kv sets ih =>
    have : 1 ≤ (record kv.1 kv.2).length := by
      simp only [record, List.length_append, List.length_cons]; omega
    rw [List.map_cons, List.flatten_cons, List.length_append, List.length_cons]
    omega

/-- **A run of `recover`'s loop.**  Over the records of plain `set`s whose values do not end
in `\r`, followed by any bytes, the loop reads one line per record and goes on from the offset
and the index those `set`s leave. -/
lemma recoverLoop_foldl_set (sets : List (RString × Bytes))
    (h : ∀ kv ∈ sets, Plain kv.1 kv.2 ∧ kv.2.getLast? ≠ some 13) (st : State) (fuel : Nat)
    (rest : Bytes) :
    recoverLoop (sets.length + fuel) ((sets.map fun kv => record kv.1 kv.2).flatten ++ rest)
        st.log.length st.index =
      recoverLoop fuel rest (sets.foldl (fun st kv => st.set kv.1 kv.2) st).log.length
        (sets.foldl (fun st kv => st.set kv.1 kv.2) st).index := by
  induction sets generalizing st with
  | nil => simp
  | cons kv sets ih =>
    have hkv := h kv (List.mem_cons_self _ _)
    rw [List.length_cons, Nat.add_right_comm, List.map_cons, List.flatten_cons,
      List.append_assoc, recoverLoop_record hkv.1 hkv.2]
    have := ih (fun kv' hkv' => h kv' (List.mem_cons_of_mem _ hkv')) (st.set kv.1 kv.2)
    rwa [State.set_index, State.set_log, List.length_append] at this

/-- Over the records alone, the loop ends with the index those `set`s build. -/
lemma recoverLoop_records (sets : List (RString × Bytes))
    (h : ∀ kv ∈ sets, Plain kv.1 kv.2 ∧ kv.2.getLast? ≠ some 13) (st : State) (fuel : Nat)
    (hf : sets.length ≤ fuel) :
    recoverLoop fuel (sets.map fun kv => record kv.1 kv.2).flatten st.log.length st.index =
      .ok (sets.foldl (fun st kv => st.set kv.1 kv.2) st).index := by
  obtain ⟨n, rfl⟩ := Nat.exists_eq_add_of_le hf
  rw [← List.append_nil (sets.map fun kv => record kv.1 kv.2).flatten,
    recoverLoop_foldl_set sets h st n []]
  cases n <;> rfl

/-- **`recover` after a history of plain `set`s whose values do not end in `\r`** gives
back the index the store holds. -/
theorem recover_setAll (sets : List (RString × Bytes))
    (h : ∀ kv ∈ sets, Plain kv.1 kv.2 ∧ kv.2.getLast? ≠ some 13) :
    recover (setAll sets).log = .ok (setAll sets).index := by
  rw [recover, setAll, log_foldl_set]
  have := length_le_records sets
  exact recoverLoop_records sets h State.empty _ (by simp only [State.empty, List.nil_append]; omega)

/-- `set("a", "1")`, `set("b", "x,y")` and `set("a", "2")`: `recover` finds `a` at byte 10 and
`b` at byte 4. -/
theorem recover_setAll_three :
    recover (setAll [(⟨[97], rfl⟩, [49]), (⟨[98], rfl⟩, [120, 44, 121]), (⟨[97], rfl⟩, [50])]).log =
      .ok (setAll [(⟨[97], rfl⟩, [49]), (⟨[98], rfl⟩, [120, 44, 121]), (⟨[97], rfl⟩, [50])]).index :=
  recover_setAll _ (by decide)

/-- `set("a", "\r")` and then `set("b", "x")`: `b`'s record starts at byte 4, and `recover`
puts it at 3, because `lines()` strips the `\r` of `a,\r\n` and the line counts 3 bytes. -/
theorem recover_cr_value :
    (setAll [(⟨[97], rfl⟩, [13]), (⟨[98], rfl⟩, [120])]).index ⟨[98], rfl⟩ = some 4 ∧
      (recover (setAll [(⟨[97], rfl⟩, [13]), (⟨[98], rfl⟩, [120])]).log).map (· ⟨[98], rfl⟩) =
        .ok (some 3) :=
  ⟨rfl, rfl⟩

/-! ## A value holding a newline

`set` writes a value as it is, `\n`s included, and `recover` reads the log line by line: a
value `a\nb` puts the line `b` into the log, and `recover` rejects a line with no `,`.  Such a
line stays in the log, and every later start-up (`init` calls `recover`) fails on it. -/

/-- A line with no `,` stops `recover`'s loop with the error at the line's offset. -/
lemma recoverLoop_comma_free {line : Bytes} (hn : 10 ∉ line) (hc : 44 ∉ line)
    (hu : utf8Valid line = true) (hr : line.getLast? ≠ some 13) (fuel : Nat) (rest : Bytes)
    (o : Nat) (index : RString → Option Nat) :
    recoverLoop (fuel + 1) (line ++ 10 :: rest) o index = .error (.logCorrupted o) := by
  have hs : line.splitOn 44 = [line] :=
    List.splitOnP_eq_single (· == 44) line fun _ hx hx' => hc (beq_iff_eq.mp hx' ▸ hx)
  rw [recoverLoop, nextLine_append rest hn hr]
  dsimp only
  rw [RString.fromUtf8, dif_pos hu]
  dsimp only
  rw [hs, if_pos (by simp)]

/-- **A value holding a newline breaks recovery for good.**  After plain `set`s whose values
do not end in `\r`, a `set` whose value is `a\nb`, with `a` plain and not ending in `\r` and
`b` a line with no `,` (every value that ends in `\n` is one, with `b` empty), leaves a line
that `recover` rejects: whatever is set afterwards, `recover` fails at the offset of `b`. -/
theorem recover_newline_corrupted (pre post : List (RString × Bytes)) {k : RString}
    {a b : Bytes} (hpre : ∀ kv ∈ pre, Plain kv.1 kv.2 ∧ kv.2.getLast? ≠ some 13)
    (ha : Plain k a) (har : a.getLast? ≠ some 13) (hbn : 10 ∉ b) (hbc : 44 ∉ b)
    (hbu : utf8Valid b = true) (hbr : b.getLast? ≠ some 13) :
    recover (setAll (pre ++ (k, a ++ 10 :: b) :: post)).log =
      .error (.logCorrupted ((setAll pre).log.length + (record k a).length)) := by
  have hlog : (setAll (pre ++ (k, a ++ 10 :: b) :: post)).log =
      (pre.map fun kv => record kv.1 kv.2).flatten ++
        (record k a ++ (b ++ 10 :: (post.map fun kv => record kv.1 kv.2).flatten)) := by
    simp [setAll, log_foldl_set, record, State.empty]
  obtain ⟨m, hm⟩ : ∃ m, (setAll (pre ++ (k, a ++ 10 :: b) :: post)).log.length + 1 =
      pre.length + (m + 2) := by
    have := length_le_records pre
    refine ⟨(setAll (pre ++ (k, a ++ 10 :: b) :: post)).log.length - 1 - pre.length, ?_⟩
    rw [hlog]
    simp only [List.length_append, record, List.length_cons, List.length_nil] at this ⊢
    omega
  rw [recover, hm, hlog]
  refine (recoverLoop_foldl_set pre hpre State.empty (m + 2) _).trans ?_
  rw [recoverLoop_record ha har, recoverLoop_comma_free hbn hbc hbu hbr]
  rfl

/-- `set("k", "v\n")` and then `set("x", "y")`: `recover` fails at byte 4, on the empty line
after `k,v`. -/
theorem recover_newline_corrupted_trailing :
    recover (setAll [(⟨[107], rfl⟩, [118, 10]), (⟨[120], rfl⟩, [121])]).log =
      .error (.logCorrupted 4) :=
  recover_newline_corrupted [] [(⟨[120], rfl⟩, [121])] (k := ⟨[107], rfl⟩) (a := [118]) (b := [])
    (by decide) (by decide) (by decide) (by decide) (by decide) (by decide) (by decide)

end SimpleStore

end RaphDb
