import RaphDb.Store.SimpleStore

/-!
# Concurrent `set`s on `SimpleStore`

`SimpleStore::set` takes two locks in turn.  Holding `write_mutex`, it reads the file length
as the record's offset and appends the record; then, holding the index's write lock, it sets
`index[key]` to that offset.  Between the two steps of one `set`, other `set`s can run theirs.

`Writers` is the store with the `set`s that are between their two steps, and `Writers.step`
runs one step of one caller.  Run back to back, the two steps are `State.set`
(`Writers.append_publish`).  In every interleaving each offset the index holds starts a record
of its key (`writers_index_record`), but not always the last one: two `set`s of one key that
publish in the other order than they appended leave the index at the older record, the one
`recover` would not pick (`writers_stale_index`).

`get` reads the index under its lock and the file after it, with no lock: whatever `set`s run
in between, it returns nothing or the value of a `set` of that key (`get_reads_appended`).

The log itself is the records of the `append`s in the order they ran (`Writers.foldlM_log`),
so a restart repairs a stale index: `recover` gives each key its last record in the log, the
index of the `set`s run one at a time in that order (`recover_writers`).
-/

namespace RaphDb

namespace SimpleStore

/-- A `set` between its two steps: its caller, its key, and the offset it appended at. -/
structure Pending where
  caller : Nat
  key : RString
  offset : Nat

/-- The store under concurrent `set`s. -/
structure Writers where
  store : State
  pending : List Pending

/-- The two steps of `SimpleStore::set`. -/
inductive WriterStep where
  /-- Holding `write_mutex`: the file length as the offset, then `write_all` of the record. -/
  | append (caller : Nat) (key : RString) (value : Bytes)
  /-- Holding the index's write lock: `index.insert(key, offset)`. -/
  | publish (caller : Nat)

namespace Writers

/-- An empty log and no `set` under way. -/
def init : Writers := ⟨State.empty, []⟩

/-- One step of one caller; `none` where the caller is not at that step. -/
def step (w : Writers) : WriterStep → Option Writers
  | .append caller key value =>
    if w.pending.any (·.caller == caller) then none
    else some ⟨⟨w.store.log ++ record key value, w.store.index⟩,
      w.pending ++ [⟨caller, key, w.store.log.length⟩]⟩
  | .publish caller =>
    match w.pending.find? (·.caller == caller) with
    | none => none
    | some p => some ⟨⟨w.store.log, Function.update w.store.index p.key (some p.offset)⟩,
      w.pending.filter (·.caller != caller)⟩

/-- An interleaving of steps from an empty log. -/
def run (steps : List WriterStep) : Option Writers := steps.foldlM step init

/-- **One `set` at a time.**  A caller with no `set` under way that runs both steps back to
back does `State.set`. -/
lemma append_publish (w : Writers) {c : Nat} (key : RString) (value : Bytes)
    (hc : ∀ p ∈ w.pending, p.caller ≠ c) :
    (w.step (.append c key value)).bind (·.step (.publish c)) =
      some ⟨w.store.set key value, w.pending⟩ := by
  have hany : w.pending.any (·.caller == c) = false :=
    List.any_eq_false.mpr fun p hp => by simpa using hc p hp
  have hfind : (w.pending ++ [Pending.mk c key w.store.log.length]).find? (·.caller == c) =
      some (Pending.mk c key w.store.log.length) := by
    rw [List.find?_append, List.find?_eq_none.mpr fun p hp => by simpa using hc p hp]
    simp
  have hfilter : (w.pending ++ [Pending.mk c key w.store.log.length]).filter (·.caller != c) =
      w.pending := by
    rw [List.filter_append, List.filter_eq_self.mpr fun p hp => by simpa using hc p hp]
    simp
  simp only [step, hany, Bool.false_eq_true, if_false, Option.some_bind, hfind, hfilter]
  rfl

end Writers

/-- Every offset the index holds, and every offset a `set` under way took, starts the record
of an `append` of its key among `steps`. -/
structure Traced (steps : List WriterStep) (w : Writers) : Prop where
  index : ∀ k o, w.store.index k = some o →
    ∃ c v rest, .append c k v ∈ steps ∧ w.store.log.drop o = record k v ++ rest
  pending : ∀ p ∈ w.pending,
    ∃ c v rest, .append c p.key v ∈ steps ∧ w.store.log.drop p.offset = record p.key v ++ rest

namespace Traced

variable {steps : List WriterStep} {w w' : Writers}

lemma init : Traced [] Writers.init := ⟨fun _ _ h => (nomatch h), fun _ h => (nomatch h)⟩

lemma mono {steps' : List WriterStep} (ht : Traced steps w) (hsub : steps ⊆ steps') :
    Traced steps' w :=
  ⟨fun k o hk => let ⟨c, v, rest, hm, hl⟩ := ht.index k o hk; ⟨c, v, rest, hsub hm, hl⟩,
    fun p hp => let ⟨c, v, rest, hm, hl⟩ := ht.pending p hp; ⟨c, v, rest, hsub hm, hl⟩⟩

/-- **One step.**  An append records its own value at the end of the log and moves no record;
a publish sets the index to an offset a `set` under way took. -/
lemma step (ht : Traced steps w) : ∀ {s : WriterStep}, w.step s = some w' →
    Traced (steps ++ [s]) w'
  | .append caller key value, h => by
    simp only [Writers.step] at h
    split_ifs at h
    cases h
    have ht' := ht.mono (List.subset_append_left steps [.append caller key value])
    have hkeep : ∀ {o k}, (∃ c v rest, WriterStep.append c k v ∈ steps ++ [.append caller key value] ∧
          w.store.log.drop o = record k v ++ rest) →
        ∃ c v rest, WriterStep.append c k v ∈ steps ++ [.append caller key value] ∧
          (w.store.log ++ record key value).drop o = record k v ++ rest :=
      fun ⟨c, v, rest, hm, hl⟩ => ⟨c, v, _, hm, drop_append_of_record hl _⟩
    refine ⟨fun k o hk => hkeep (ht'.index k o hk), fun p hp => ?_⟩
    rcases List.mem_append.mp hp with hp | hp
    · exact hkeep (ht'.pending p hp)
    · rw [List.mem_singleton] at hp
      subst hp
      exact ⟨caller, value, [], by simp, by simp⟩
  | .publish c, h => by
    simp only [Writers.step] at h
    split at h
    · cases h
    rename_i p hp
    cases h
    have ht' := ht.mono (List.subset_append_left steps [.publish c])
    refine ⟨fun k o hk => ?_, fun q hq => ht'.pending q (List.mem_filter.mp hq).1⟩
    dsimp only at hk ⊢
    by_cases hkey : k = p.key
    · subst hkey
      rw [Function.update_same, Option.some.injEq] at hk
      subst hk
      exact ht'.pending p (List.mem_of_find?_eq_some hp)
    · rw [Function.update_noteq hkey] at hk
      exact ht'.index k o hk

/-- **A run.** -/
lemma foldlM : ∀ {more : List WriterStep} {done : List WriterStep} {w w' : Writers},
    Traced done w → more.foldlM Writers.step w = some w' → Traced (done ++ more) w'
  | [], done, _, _, ht, h => by cases h; simpa using ht
  | s :: more, done, w, w', ht, h => by
    simp only [List.foldlM_cons, Option.bind_eq_bind, Option.bind_eq_some] at h
    obtain ⟨w1, h1, h2⟩ := h
    simpa using foldlM (ht.step h1) h2

end Traced

/-- **The index never points at another key's record.**  In every interleaving of the two
steps of concurrent `set`s, each offset the index holds is the start of a record of that key
in the log. -/
theorem writers_index_record {steps : List WriterStep} {w : Writers}
    (h : Writers.run steps = some w) :
    ∀ k o, w.store.index k = some o → ∃ v rest, w.store.log.drop o = record k v ++ rest :=
  fun k o hk =>
    let ⟨_, v, rest, _, hl⟩ := (Traced.foldlM Traced.init h).index k o hk
    ⟨v, rest, hl⟩

/-- Two callers set `k` twice, to `a` and to `b`, and publish in that order: the index holds 4,
where `k,b` starts. -/
theorem writers_index_record_two :
    ∃ w, Writers.run [.append 0 ⟨[107], rfl⟩ [97], .append 1 ⟨[107], rfl⟩ [98], .publish 0,
        .publish 1] = some w ∧
      ∀ k o, w.store.index k = some o → ∃ v rest, w.store.log.drop o = record k v ++ rest :=
  ⟨_, rfl, @writers_index_record [.append 0 ⟨[107], rfl⟩ [97], .append 1 ⟨[107], rfl⟩ [98],
    .publish 0, .publish 1] _ rfl⟩

/-- Two `set`s of `k`: the first appends `k,a` at 0, the second appends `k,b` at 4 and
publishes, and the first publishes last.  No `set` is under way, the index holds 0, and the
last record of `k`, the one `recover` picks, is at 4. -/
theorem writers_stale_index :
    ∃ w, Writers.run [.append 0 ⟨[107], rfl⟩ [97], .append 1 ⟨[107], rfl⟩ [98], .publish 1,
        .publish 0] = some w ∧
      w.pending = [] ∧ w.store.index ⟨[107], rfl⟩ = some 0 ∧
      (recover w.store.log).map (· ⟨[107], rfl⟩) = .ok (some 4) :=
  ⟨_, rfl, rfl, rfl, rfl⟩

/-! ## Reading while others write

`SimpleStore::get` reads the offset under the index's read lock and then reads the file with
no lock held, so other `set`s may append between its two reads.  An append keeps every byte
already written, so the line at the offset is the one that was there when the offset was
read, and it is the record of a `set` of that key that has run its first step. -/

/-- The `set`s whose records a run of steps appends, in the order of the log. -/
def appendedSets : List WriterStep → List (RString × Bytes)
  | [] => []
  | .append _ key value :: steps => (key, value) :: appendedSets steps
  | .publish _ :: steps => appendedSets steps

/-- A step appends the record of its `set` if it is an `append`, and nothing else. -/
lemma Writers.step_log {w w' : Writers} : ∀ {s : WriterStep}, w.step s = some w' →
    w'.store.log = w.store.log ++ ((appendedSets [s]).map fun kv => record kv.1 kv.2).flatten
  | .append _ key value, h => by
    simp only [Writers.step] at h
    split_ifs at h
    cases h
    simp [appendedSets]
  | .publish _, h => by
    simp only [Writers.step] at h
    split at h <;> cases h
    simp [appendedSets]

/-- **The log of an interleaving** is the records of its `append`s, in the order they ran. -/
lemma Writers.foldlM_log : ∀ {steps : List WriterStep} {w w' : Writers},
    steps.foldlM Writers.step w = some w' →
      w'.store.log = w.store.log ++ ((appendedSets steps).map fun kv => record kv.1 kv.2).flatten
  | [], _, _, h => by cases h; simp [appendedSets]
  | s :: steps, w, w', h => by
    simp only [List.foldlM_cons, Option.bind_eq_bind, Option.bind_eq_some] at h
    obtain ⟨w1, h1, h2⟩ := h
    rw [Writers.foldlM_log h2, Writers.step_log h1, List.append_assoc, ← List.flatten_append,
      ← List.map_append]
    cases s <;> rfl

/-- **A read never returns what no `set` wrote.**  Take any interleaving of concurrent `set`s
of plain keys and values, let `get` read the index after the steps `pre` and the file after
any further steps `post`.  It returns `Ok(None)`, or the value of an `append` of that key
among `pre` in the form `get` gives it (commas dropped, the line's `\n` kept). -/
theorem get_reads_appended {pre post : List WriterStep} {w1 w2 : Writers}
    (h1 : Writers.run pre = some w1) (h2 : post.foldlM Writers.step w1 = some w2)
    (hplain : ∀ c k v, .append c k v ∈ pre → Plain k v) (k : RString) :
    (⟨w2.store.log, w1.store.index⟩ : State).get k = .ok none ∨
      ∃ c v, .append c k v ∈ pre ∧
        (⟨w2.store.log, w1.store.index⟩ : State).get k = .ok (some (v.filter (· != 44) ++ [10])) := by
  rcases hk : w1.store.index k with _ | o
  · exact .inl (get_of_index_none hk)
  have ht := Traced.foldlM Traced.init h1
  obtain ⟨c, v, rest, hm, hl⟩ := ht.index k o hk
  have hl' := drop_append_of_record hl ((appendedSets post).map fun kv => record kv.1 kv.2).flatten
  rw [← Writers.foldlM_log h2] at hl'
  exact .inr ⟨c, v, hm, get_of_record hk hl' (hplain c k v hm)⟩

/-- `get` reads the offset of `k,a` and, while a second `set` appends `k,b`, the file: it
returns `a` and its `\n`. -/
theorem get_reads_appended_during_append :
    ∃ w1 w2, Writers.run [.append 0 ⟨[107], rfl⟩ [97], .publish 0] = some w1 ∧
      [WriterStep.append 1 ⟨[107], rfl⟩ [98]].foldlM Writers.step w1 = some w2 ∧
      ((⟨w2.store.log, w1.store.index⟩ : State).get ⟨[107], rfl⟩ = .ok none ∨
        ∃ c v, .append c ⟨[107], rfl⟩ v ∈ [WriterStep.append 0 ⟨[107], rfl⟩ [97], .publish 0] ∧
          (⟨w2.store.log, w1.store.index⟩ : State).get ⟨[107], rfl⟩ =
            .ok (some (v.filter (· != 44) ++ [10]))) :=
  have hplain : ∀ c k v, WriterStep.append c k v ∈
      [WriterStep.append 0 ⟨[107], rfl⟩ [97], .publish 0] → Plain k v := by
    intro c k v h
    simp only [List.mem_cons, WriterStep.append.injEq, reduceCtorEq, List.mem_singleton,
      List.not_mem_nil, or_false] at h
    obtain ⟨rfl, rfl, rfl⟩ := h
    decide
  ⟨_, _, rfl, rfl, @get_reads_appended [.append 0 ⟨[107], rfl⟩ [97], .publish 0]
    [.append 1 ⟨[107], rfl⟩ [98]] _ _ rfl rfl hplain ⟨[107], rfl⟩⟩

/-- **A restart repairs the index.**  After any interleaving of concurrent `set`s of plain
keys and values that do not end in `\r`, with `set`s still under way or not and whichever of
its records the index holds for each key, `recover` on the log gives the index of those `set`s
run one at a time in the order they appended: each key at its last record in the log. -/
theorem recover_writers {steps : List WriterStep} {w : Writers} (h : Writers.run steps = some w)
    (hplain : ∀ kv ∈ appendedSets steps, Plain kv.1 kv.2 ∧ kv.2.getLast? ≠ some 13) :
    recover w.store.log = .ok (setAll (appendedSets steps)).index := by
  have hlog := Writers.foldlM_log h
  simp only [Writers.init, State.empty, List.nil_append] at hlog
  rw [recover, hlog]
  exact recoverLoop_records _ hplain State.empty _ (Nat.le_succ_of_le (length_le_records _))

/-- The interleaving that leaves the index at the older record of `k`: `recover` puts `k` at
its newer record, byte 4. -/
theorem recover_writers_stale :
    ∃ w, Writers.run [.append 0 ⟨[107], rfl⟩ [97], .append 1 ⟨[107], rfl⟩ [98], .publish 1,
        .publish 0] = some w ∧ w.store.index ⟨[107], rfl⟩ = some 0 ∧
      recover w.store.log = .ok (setAll (appendedSets [.append 0 ⟨[107], rfl⟩ [97],
        .append 1 ⟨[107], rfl⟩ [98], .publish 1, .publish 0])).index ∧
      (setAll (appendedSets [.append 0 ⟨[107], rfl⟩ [97], .append 1 ⟨[107], rfl⟩ [98],
        .publish 1, .publish 0])).index ⟨[107], rfl⟩ = some 4 :=
  ⟨_, rfl, rfl, recover_writers rfl (by decide), rfl⟩

end SimpleStore

end RaphDb
