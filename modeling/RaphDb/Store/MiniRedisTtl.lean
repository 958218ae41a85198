import RaphDb.Store.MiniRedisIndex

/-!
# `MiniRedis` is a map with a time to live

`TtlMap` says what the store is for: each key holds the value of its last `set` and the
instant of that `set`; a purge at `now` forgets the keys set at least `ttl` before `now`,
unless the purge task has been shut down.  `State` refines it (`Refines`): the entries are
the live keys with their values, each expiring `ttl` after its `set`.  The index invariant
is what makes a purge agree: the expiration it finds for a key is that of the key's
current entry, so purging never removes a value written after the expiration was queued.

`run_refines` carries the relation over a whole history, `run_isSome` shows that a history of
fewer than `2 ^ 64` sets never panics, and `get_follows_ttl` states the result in the words of
a history: the value of the last `set` of a key, unless a purge after it, made before any
shutdown, reached its deadline.
-/

namespace RaphDb

namespace MiniRedis

/-- The map with a time to live that the store implements: each live key with its value and
the instant it was set, and whether the purge task was shut down. -/
structure TtlMap where
  live : RString → Option (Bytes × Nat)
  shutdown : Bool

namespace TtlMap

/-- The empty map. -/
def empty : TtlMap := ⟨fun _ => none, false⟩

/-- One operation on the map. -/
def step (m : TtlMap) : Op → TtlMap
  | .set key value now => { m with live := Function.update m.live key (some (value, now)) }
  | .get _ => m
  | .purge now =>
    if m.shutdown then m
    else { m with live := fun k => (m.live k).filter fun p => decide (now < p.2 + ttl) }
  | .shutdown => { m with shutdown := true }

/-- The map after a history of operations. -/
def run (ops : List Op) : TtlMap := ops.foldl step empty

/-- What `get` returns. -/
def get (m : TtlMap) (key : RString) : Option Bytes := (m.live key).map Prod.fst

end TtlMap

/-! ## The store refines the map -/

/-- `st` implements `m`: the index invariant holds, the shutdown flags agree, and each entry
is a live key's value expiring `ttl` after its `set`. -/
structure Refines (st : State) (m : TtlMap) : Prop where
  inv : st.Inv
  shutdown : st.shutdown = m.shutdown
  entries : ∀ k, (st.entries k).map (fun e => (e.data, e.expiresAt)) =
    (m.live k).map (fun p => (p.1, some (p.2 + ttl)))

namespace Refines

variable {st st' : State} {m : TtlMap}

lemma new : Refines State.new TtlMap.empty := ⟨State.Inv.new, rfl, fun _ => rfl⟩

lemma purge (hr : Refines st m) (now : Nat) :
    Refines (st.purgeExpiredKeys now).1 (m.step (.purge now)) := by
  have hi' := hr.inv.purge now
  cases hsd : st.shutdown
  · rw [State.purgeExpiredKeys_of_not hsd] at hi' ⊢
    simp only [TtlMap.step, ← hr.shutdown, hsd, Bool.false_eq_true, if_false]
    rw [hsd] at hi'
    refine ⟨hi', rfl, fun k => ?_⟩
    have hk := hr.entries k
    dsimp only
    rw [State.purgedEntries_eq_filter hr.inv.item_entry hr.inv.entry_item k]
    rcases he : st.entries k with _ | e <;> rcases hl : m.live k with _ | ⟨v, t⟩ <;>
      simp [he, hl] at hk ⊢
    simp [Option.filter, hk.1, hk.2]
  · simp only [State.purgeExpiredKeys, TtlMap.step, ← hr.shutdown, hsd, if_true]
    exact hr

/-- **One step.**  Every operation of the store implements the same operation on the map. -/
lemma step (hr : Refines st m) : ∀ {op : Op}, st.step op = some st' → Refines st' (m.step op)
  | .set key value now, h => by
    obtain ⟨⟨st'', notify⟩, hs, rfl⟩ := Option.map_eq_some'.mp h
    have hi := hr.inv.set hs
    obtain ⟨-, rfl⟩ := State.set_eq_some hs
    refine ⟨hi, hr.shutdown, fun k => ?_⟩
    by_cases hk : k = key
    · subst hk; simp [TtlMap.step]
    · simp [TtlMap.step, Function.update_noteq hk, hr.entries k]
  | .get _, h => by cases h; exact hr
  | .purge now, h => by cases h; exact hr.purge now
  | .shutdown, h => by
    cases h
    exact ⟨⟨hr.inv.entry_item, hr.inv.item_entry, hr.inv.id_lt⟩, rfl, hr.entries⟩

lemma get_eq (hr : Refines st m) (k : RString) : st.get k = m.get k := by
  have := congrArg (Option.map Prod.fst) (hr.entries k)
  simpa [State.get, TtlMap.get, Option.map_map] using this

end Refines

lemma foldlM_refines : ∀ {ops : List Op} {st st' : State} {m : TtlMap}, Refines st m →
    ops.foldlM State.step st = some st' → Refines st' (ops.foldl TtlMap.step m)
  | [], _, _, _, hr, h => by cases h; exact hr
  | op :: ops, st, st', m, hr, h => by
    simp only [List.foldlM_cons, Option.bind_eq_bind, Option.bind_eq_some] at h
    obtain ⟨st1, h1, h2⟩ := h
    rw [List.foldl_cons]
    exact foldlM_refines (hr.step h1) h2

/-- **The store implements the map** over every history that does not panic. -/
lemma run_refines {ops : List Op} {st : State} (h : run ops = some st) :
    Refines st (TtlMap.run ops) :=
  foldlM_refines Refines.new h

/-! ## No panic below `2 ^ 64` sets -/

lemma State.purgeExpiredKeys_nextId (st : State) (now : Nat) :
    (st.purgeExpiredKeys now).1.nextId = st.nextId := by
  unfold State.purgeExpiredKeys
  split
  · rfl
  · rw [State.purgeLoop_eq now _ st le_rfl]

lemma State.step_nextId {st : State} {op : Op} (h : op.isSet = true → st.nextId + 1 < 2 ^ 64) :
    ∃ st', st.step op = some st' ∧ st'.nextId = st.nextId + if op.isSet then 1 else 0 := by
  cases op with
  | set key value now =>
    obtain ⟨⟨st', notify⟩, hs⟩ := Option.isSome_iff_exists.mp
      (@State.set_isSome st now key value (h rfl))
    obtain ⟨-, rfl⟩ := State.set_eq_some hs
    exact ⟨_, congrArg (Option.map Prod.fst) hs, rfl⟩
  | get key => exact ⟨st, rfl, rfl⟩
  | purge now => exact ⟨_, rfl, State.purgeExpiredKeys_nextId st now⟩
  | shutdown => exact ⟨_, rfl, rfl⟩

lemma foldlM_isSome : ∀ {ops : List Op} {st : State}, st.nextId + ops.countP Op.isSet < 2 ^ 64 →
    ∃ st', ops.foldlM State.step st = some st'
  | [], st, _ => ⟨st, rfl⟩
  | op :: ops, st, h => by
    rw [List.countP_cons] at h
    obtain ⟨st1, h1, hid⟩ := @State.step_nextId st op fun hs => by
      rw [if_pos hs] at h; omega
    obtain ⟨st', h'⟩ := @foldlM_isSome ops st1 (by
      rw [hid]; cases hs : op.isSet <;> simp only [hs] at h ⊢ <;> omega)
    exact ⟨st', by simp [List.foldlM_cons, h1, h']⟩

/-- A history of fewer than `2 ^ 64` sets never panics. -/
lemma run_isSome {ops : List Op} (h : ops.countP Op.isSet < 2 ^ 64) : ∃ st, run ops = some st :=
  foldlM_isSome (by simpa [State.new] using h)

/-! ## The map, read as a history -/

/-- Some purge of `ops` made before any shutdown reaches the deadline `d`. -/
def expiresIn (d : Nat) : List Op → Bool
  | [] => false
  | .purge now :: ops => decide (d ≤ now) || expiresIn d ops
  | .shutdown :: _ => false
  | _ :: ops => expiresIn d ops

lemma exists_purge_cons {d : Nat} {op : Op} {ops : List Op} :
    (∃ pre now post, op :: ops = pre ++ .purge now :: post ∧ .shutdown ∉ pre ∧ d ≤ now) ↔
      (∃ now, op = .purge now ∧ d ≤ now) ∨
      (op ≠ .shutdown ∧ ∃ pre now post, ops = pre ++ .purge now :: post ∧ .shutdown ∉ pre ∧ d ≤ now) := by
  constructor
  · rintro ⟨pre, now, post, h, hs, hd⟩
    rcases List.cons_eq_append_iff.mp h with ⟨rfl, h⟩ | ⟨pre', rfl, rfl⟩
    · cases h
      exact .inl ⟨now, rfl, hd⟩
    · exact .inr ⟨fun h => hs (h ▸ List.mem_cons_self _ _), pre', now, post, rfl,
        fun h => hs (List.mem_cons_of_mem _ h), hd⟩
  · rintro (⟨now, rfl, hd⟩ | ⟨hop, pre, now, post, rfl, hs, hd⟩)
    · exact ⟨[], now, ops, rfl, List.not_mem_nil _, hd⟩
    · exact ⟨op :: pre, now, post, rfl, by simp [hs, Ne.symm hop], hd⟩

lemma expiresIn_iff {d : Nat} : ∀ {ops : List Op}, expiresIn d ops = true ↔
    ∃ pre now post, ops = pre ++ .purge now :: post ∧ .shutdown ∉ pre ∧ d ≤ now
  | [] => by simp [expiresIn]
  | op :: ops => by
    rw [exists_purge_cons, ← expiresIn_iff]
    cases op <;> simp [expiresIn]

namespace TtlMap

variable {k : RString}

lemma step_shutdown (m : TtlMap) (op : Op) :
    (m.step op).shutdown = true ↔ m.shutdown = true ∨ op = .shutdown := by
  cases op <;> simp only [step, reduceCtorEq, or_false, or_true]
  split <;> rfl

lemma shutdown_foldl : ∀ (ops : List Op) (m : TtlMap),
    (ops.foldl step m).shutdown = true ↔ m.shutdown = true ∨ .shutdown ∈ ops
  | [], m => by simp
  | op :: ops, m => by
    rw [List.foldl_cons, shutdown_foldl ops, step_shutdown, List.mem_cons]
    tauto

/-- A key that is not set again stays absent. -/
lemma live_foldl_none : ∀ (ops : List Op) (m : TtlMap), m.live k = none →
    (∀ v t, .set k v t ∉ ops) → (ops.foldl step m).live k = none
  | [], _, h, _ => h
  | op :: ops, m, h, hset => by
    rw [List.foldl_cons]
    refine live_foldl_none ops _ ?_ fun v t hm => hset v t (List.mem_cons_of_mem _ hm)
    cases op with
    | set key value now =>
      have hk : key ≠ k := fun hk => hset value now (hk ▸ List.mem_cons_self _ _)
      simp [step, Function.update_noteq hk.symm, h]
    | purge now =>
      simp only [step]
      split <;> simp [h]
    | _ => exact h

/-- The value of a key's last `set` stays until a purge before any shutdown reaches its
deadline. -/
lemma live_foldl_some {v : Bytes} {t : Nat} : ∀ (ops : List Op) (m : TtlMap),
    m.live k = some (v, t) → (∀ v' t', .set k v' t' ∉ ops) →
    (ops.foldl step m).live k = if !m.shutdown && expiresIn (t + ttl) ops then none else some (v, t)
  | [], m, h, _ => by simp [expiresIn, h]
  | op :: ops, m, h, hset => by
    have hset' : ∀ v' t', .set k v' t' ∉ ops := fun v' t' hm => hset v' t' (List.mem_cons_of_mem _ hm)
    rw [List.foldl_cons]
    cases op with
    | set key value now =>
      have hk : key ≠ k := fun hk => hset value now (hk ▸ List.mem_cons_self _ _)
      rw [live_foldl_some (v := v) (t := t) ops (m.step (.set key value now))
        (by simp [step, Function.update_noteq hk.symm, h]) hset']
      rfl
    | get key => exact live_foldl_some ops m h hset'
    | purge now =>
      by_cases hsd : m.shutdown = true
      · simp only [step, hsd, if_true]
        rw [live_foldl_some ops m h hset']
        simp [hsd]
      · by_cases hle : t + ttl ≤ now
        · rw [live_foldl_none ops (m.step (.purge now))
            (by simp [step, hsd, h, Option.filter, show ¬ now < t + ttl by omega]) hset']
          simp [hsd, expiresIn, hle]
        · rw [live_foldl_some (v := v) (t := t) ops (m.step (.purge now))
            (by simp [step, hsd, h, Option.filter, show now < t + ttl by omega]) hset']
          simp [step, hsd, expiresIn, hle]
    | shutdown =>
      rw [live_foldl_some (v := v) (t := t) ops (m.step .shutdown) h hset']
      simp [step, expiresIn]

lemma shutdown_run (ops : List Op) : (run ops).shutdown = true ↔ .shutdown ∈ ops := by
  rw [run, shutdown_foldl]
  simp [empty]

/-- The map after the last `set` of a key: its value, unless a purge after the `set`
reaches the deadline while the map is not shut down. -/
lemma live_run_last_set {pre post : List Op} {v : Bytes} {t : Nat}
    (hlast : ∀ v' t', .set k v' t' ∉ post) :
    (run (pre ++ .set k v t :: post)).live k =
      if !(run pre).shutdown && expiresIn (t + ttl) post then none else some (v, t) := by
  rw [run, List.foldl_append, List.foldl_cons,
    live_foldl_some (v := v) (t := t) post _ (by simp [step]) hlast]
  rfl

end TtlMap

/-- A purge after a `set` reaches `d` before any shutdown: no shutdown before the `set`, and
none between it and the purge. -/
lemma expiresIn_after_iff {d : Nat} {pre post : List Op} :
    (!(TtlMap.run pre).shutdown && expiresIn d post) = true ↔
      ∃ pre' now post', post = pre' ++ .purge now :: post' ∧ .shutdown ∉ pre ++ pre' ∧ d ≤ now := by
  rw [Bool.and_eq_true, Bool.not_eq_true', expiresIn_iff, ← Bool.not_eq_true, TtlMap.shutdown_run]
  constructor
  · rintro ⟨hpre, pre', now, post', rfl, hs, hle⟩
    exact ⟨pre', now, post', rfl, by simp [hpre, hs], hle⟩
  · rintro ⟨pre', now, post', rfl, hs, hle⟩
    simp only [List.mem_append, not_or] at hs
    exact ⟨hs.1, pre', now, post', rfl, hs.2, hle⟩

/-- **`MiniRedis` behaves as a map with a time to live.**  Along any history from
`MiniRedis::new` with fewer than `2 ^ 64` sets, nothing panics, and in the state reached
`get k` returns the value of the last `set` of `k`, unless a purge after that `set`, made while
the store was not shut down, reached its deadline `t + ttl`; then it returns `None`.  A key
never set returns `None`. -/
theorem get_follows_ttl (ops : List Op) (hsets : ops.countP Op.isSet < 2 ^ 64) :
    ∃ st, run ops = some st ∧ ∀ k,
      ((∀ v t, .set k v t ∉ ops) → st.get k = none) ∧
      (∀ pre v t post, ops = pre ++ .set k v t :: post → (∀ v' t', .set k v' t' ∉ post) →
        ((∃ pre' now post', post = pre' ++ .purge now :: post' ∧ .shutdown ∉ pre ++ pre' ∧
            t + ttl ≤ now) → st.get k = none) ∧
        ((¬ ∃ pre' now post', post = pre' ++ .purge now :: post' ∧ .shutdown ∉ pre ++ pre' ∧
            t + ttl ≤ now) → st.get k = some v)) := by
  obtain ⟨st, hst⟩ := run_isSome hsets
  have hr := run_refines hst
  refine ⟨st, hst, fun k => ⟨fun hnone => ?_, fun pre v t post hops hlast => ?_⟩⟩
  · rw [hr.get_eq, TtlMap.get, TtlMap.run, TtlMap.live_foldl_none ops _ rfl hnone]
    rfl
  · rw [hr.get_eq, TtlMap.get, hops, TtlMap.live_run_last_set hlast]
    refine ⟨fun h => ?_, fun h => ?_⟩
    · rw [if_pos (expiresIn_after_iff.mpr h)]; rfl
    · rw [if_neg (mt expiresIn_after_iff.mp h)]; rfl

/-- A key set twice and purged after the deadline of its first `set`, which the second
`set` replaced: `get` returns the second value. -/
theorem get_follows_ttl_reset :
    ∃ st, run [.set ⟨[107], rfl⟩ [49] 0, .set ⟨[107], rfl⟩ [50] 50, .purge 100000] = some st ∧
      st.get ⟨[107], rfl⟩ = some [50] := by
  obtain ⟨st, hst, hk⟩ :=
    get_follows_ttl [.set ⟨[107], rfl⟩ [49] 0, .set ⟨[107], rfl⟩ [50] 50, .purge 100000] (by decide)
  refine ⟨st, hst, ((hk ⟨[107], rfl⟩).2 [.set ⟨[107], rfl⟩ [49] 0] [50] 50 [.purge 100000] rfl
    (by simp)).2 ?_⟩
  rintro ⟨pre', now, post', h, -, hle⟩
  rcases List.cons_eq_append_iff.mp h with ⟨rfl, h⟩ | ⟨pre'', rfl, h⟩
  · cases h
    simp [ttl] at hle
  · simp at h

end MiniRedis

end RaphDb
