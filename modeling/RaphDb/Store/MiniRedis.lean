import RaphDb.Basic

/-!
# The in-memory store: `MiniRedis`

`server/key_value_store/mini_redis.rs` keeps its data in a `State` behind a mutex: the
entries by key, a `BTreeMap` of expirations ordered by `(Instant, id)`, the id of the next
`set`, and the shutdown flag.  This module models the four operations the connections and the
purge task run on it, each as one atomic step on `State` (each holds the mutex throughout):

* `State.get` is `MiniRedis::get`;
* `State.set` is `MiniRedis::set` at the instant `now`.  It returns the new state and the
  `notify` flag it computes for the purge task, or `none` where `next_id += 1` overflows and
  the code panics;
* `State.purgeExpiredKeys` is `Shared::purge_expired_keys` at the instant `now`;
* `State.shutdownPurgeTask` is the state change of `MiniRedis::shutdown_purge_task`.

Instants are milliseconds, `Nat`.  The `BTreeMap` is `ExpMap`: its items in increasing key
order, with the order as a field, so that only well-formed maps can be built.  `run` applies
a history of operations to `State.new`.

The spec lemmas at the end (`set_eq_some`, `purgeLoop_eq`) say once what each operation
does; the invariant and the TTL refinement are proved from them.
-/

namespace RaphDb

namespace MiniRedis

/-- `Duration::from_millis(100000)`: every `set` gives its key this long to live. -/
def ttl : Nat := 100000

/-- A key of `expirations`: the instant an entry expires and the id of the `set` that wrote
it. -/
abbrev ExpKey := Nat × Nat

/-- An item of `expirations`: its key and the key of `entries` it expires. -/
abbrev ExpItem := ExpKey × RString

/-- The order of `(Instant, u64)`: by instant, then by id. -/
def keyLt (a b : ExpKey) : Prop := a.1 < b.1 ∨ a.1 = b.1 ∧ a.2 < b.2

instance (a b : ExpKey) : Decidable (keyLt a b) := inferInstanceAs (Decidable (_ ∨ _))

section Order

variable {a b c : ExpKey}

lemma keyLt_irrefl (a : ExpKey) : ¬ keyLt a a := by unfold keyLt; omega

lemma keyLt_trans (hab : keyLt a b) (hbc : keyLt b c) : keyLt a c := by unfold keyLt at *; omega

lemma keyLt_total (h : a ≠ b) : keyLt a b ∨ keyLt b a := by
  obtain ⟨a1, a2⟩ := a
  obtain ⟨b1, b2⟩ := b
  simp only [keyLt, ne_eq, Prod.mk.injEq] at *
  omega

lemma keyLt.fst_le (h : keyLt a b) : a.1 ≤ b.1 := by unfold keyLt at h; omega

lemma keyLt.ne (h : keyLt a b) : a ≠ b := by rintro rfl; exact keyLt_irrefl a h

end Order

/-- Items in strictly increasing key order. -/
def Sorted (l : List ExpItem) : Prop := l.Pairwise (fun x y => keyLt x.1 y.1)

/-- Insertion before the first item with a greater key. -/
def insertSorted (x : ExpItem) : List ExpItem → List ExpItem
  | [] => [x]
  | y :: rest => if keyLt x.1 y.1 then x :: y :: rest else y :: insertSorted x rest

section Lists

variable {x y : ExpItem}

lemma mem_insertSorted : ∀ {l : List ExpItem}, y ∈ insertSorted x l ↔ y = x ∨ y ∈ l
  | [] => by simp [insertSorted]
  | z :: rest => by
    unfold insertSorted
    split_ifs
    · simp
    · simp [mem_insertSorted, or_left_comm]

lemma sorted_insertSorted : ∀ {l : List ExpItem}, Sorted l → (∀ y ∈ l, y.1 ≠ x.1) →
    Sorted (insertSorted x l)
  | [], _, _ => List.pairwise_singleton _ _
  | y :: rest, hs, hk => by
    rw [Sorted, List.pairwise_cons] at hs
    unfold insertSorted
    split_ifs with hxy
    · refine List.Pairwise.cons (fun z hz => ?_) (List.Pairwise.cons hs.1 hs.2)
      rcases List.mem_cons.mp hz with rfl | hz
      · exact hxy
      · exact keyLt_trans hxy (hs.1 z hz)
    · have hyx : keyLt y.1 x.1 := (keyLt_total (hk y (by simp))).resolve_right hxy
      refine List.Pairwise.cons (fun z hz => ?_)
        (sorted_insertSorted hs.2 fun z hz => hk z (by simp [hz]))
      rcases mem_insertSorted.mp hz with rfl | hz
      · exact hyx
      · exact hs.1 z hz

/-- Keys are unique in a sorted list. -/
lemma Sorted.eq_of_fst_eq : ∀ {l : List ExpItem}, Sorted l → x ∈ l → y ∈ l → x.1 = y.1 → x = y
  | a :: rest, hs, hx, hy, h => by
    rw [Sorted, List.pairwise_cons] at hs
    rcases List.mem_cons.mp hx with rfl | hx' <;> rcases List.mem_cons.mp hy with rfl | hy'
    · rfl
    · exact absurd h (hs.1 y hy').ne
    · exact absurd h.symm (hs.1 x hx').ne
    · exact Sorted.eq_of_fst_eq hs.2 hx' hy' h

end Lists

/-- `BTreeMap<(Instant, u64), String>`: its items in increasing key order. -/
@[ext] structure ExpMap where
  items : List ExpItem
  sorted : Sorted items

namespace ExpMap

variable {m : ExpMap} {k : ExpKey} {v : RString} {x : ExpItem}

/-- `BTreeMap::new`. -/
def empty : ExpMap := ⟨[], List.Pairwise.nil⟩

/-- `BTreeMap::remove`. -/
def remove (m : ExpMap) (k : ExpKey) : ExpMap :=
  ⟨m.items.filter (fun x => x.1 != k), m.sorted.filter _⟩

/-- `BTreeMap::insert`: an item under the same key is replaced. -/
def insert (m : ExpMap) (k : ExpKey) (v : RString) : ExpMap :=
  ⟨insertSorted (k, v) (m.remove k).items,
    sorted_insertSorted (m.remove k).sorted (by simp [remove])⟩

/-- `iter().next()`: the item with the least key. -/
def first (m : ExpMap) : Option ExpItem := m.items.head?

/-- The items after `now`: those `purge_expired_keys` leaves. -/
def after (m : ExpMap) (now : Nat) : ExpMap :=
  ⟨m.items.filter (fun x => decide (now < x.1.1)), m.sorted.filter _⟩

@[simp] lemma mem_remove : x ∈ (m.remove k).items ↔ x ∈ m.items ∧ x.1 ≠ k := by
  simp [remove]

@[simp] lemma mem_insert : x ∈ (m.insert k v).items ↔ x = (k, v) ∨ x ∈ m.items ∧ x.1 ≠ k := by
  simp [insert, mem_insertSorted]

/-- Removing the least key leaves the other items. -/
lemma remove_first {rest : List ExpItem} (h : m.items = x :: rest) : (m.remove x.1).items = rest := by
  have hs := m.sorted
  rw [h, Sorted, List.pairwise_cons] at hs
  simp only [remove, h, List.filter_cons, bne_self_eq_false, Bool.false_eq_true, if_false]
  exact List.filter_eq_self.mpr fun y hy => by simpa using (hs.1 y hy).ne.symm

/-- The first item of `expirations` has the least instant. -/
lemma first_le (h : m.first = some x) :
    ∀ y ∈ m.items, x.1.1 ≤ y.1.1 := by
  obtain ⟨rest, hm⟩ := List.head?_eq_some_iff.mp h
  have hs := m.sorted
  rw [hm, Sorted, List.pairwise_cons] at hs
  intro y hy
  rw [hm, List.mem_cons] at hy
  rcases hy with rfl | hy
  · exact le_rfl
  · exact (hs.1 y hy).fst_le

end ExpMap

/-- `Entry`: the id of the `set` that wrote it, the data, and when it expires. -/
structure Entry where
  id : Nat
  data : Bytes
  expiresAt : Option Nat

/-- `State`, without the pub/sub channels, which no operation modelled here reads. -/
structure State where
  entries : RString → Option Entry
  expirations : ExpMap
  nextId : Nat
  shutdown : Bool

namespace State

/-- The state `MiniRedis::new` allocates. -/
def new : State := ⟨fun _ => none, .empty, 0, false⟩

/-- `State::next_expiration`. -/
def nextExpiration (st : State) : Option Nat := st.expirations.first.map (·.1.1)

/-- `MiniRedis::get`. -/
def get (st : State) (key : RString) : Option Bytes := (st.entries key).map (·.data)

/-- The `if let Some(prev) = prev` block of `MiniRedis::set`: the replaced entry's
expiration is removed. -/
def clearExpiration (prev : Option Entry) (m : ExpMap) : ExpMap :=
  match prev with
  | some p => match p.expiresAt with
    | some w => m.remove (w, p.id)
    | none => m
  | none => m

/-- `MiniRedis::set` at the instant `now`: the new state and whether the purge task is
notified; `none` where `next_id += 1` overflows. -/
def set (st : State) (now : Nat) (key : RString) (value : Bytes) : Option (State × Bool) :=
  let id := st.nextId
  if id + 1 < 2 ^ 64 then
    let when := now + ttl
    let notify := (st.nextExpiration.map fun e => decide (e > when)).getD true
    let expirations := st.expirations.insert (when, id) key
    let prev := st.entries key
    let entries := Function.update st.entries key (some ⟨id, value, some when⟩)
    some (⟨entries, clearExpiration prev expirations, id + 1, st.shutdown⟩, notify)
  else none

/-- The state change of `MiniRedis::shutdown_purge_task`. -/
def shutdownPurgeTask (st : State) : State := { st with shutdown := true }

/-- The loop of `Shared::purge_expired_keys`: while the least expiration is not after `now`,
remove its key from `entries` and the expiration itself.  `fuel` bounds the iterations; one
per item is enough. -/
def purgeLoop (now : Nat) : Nat → State → State × Option Nat
  | 0, st => (st, none)
  | fuel + 1, st =>
    match st.expirations.first with
    | none => (st, none)
    | some ((when, id), key) =>
      if when > now then (st, some when)
      else purgeLoop now fuel { st with
        entries := Function.update st.entries key none
        expirations := st.expirations.remove (when, id) }

/-- `Shared::purge_expired_keys` at the instant `now`: the new state and the instant of the
next expiration. -/
def purgeExpiredKeys (st : State) (now : Nat) : State × Option Nat :=
  if st.shutdown then (st, none) else purgeLoop now st.expirations.items.length st

end State

/-- The operations on the store. -/
inductive Op where
  | set (key : RString) (value : Bytes) (now : Nat)
  | get (key : RString)
  | purge (now : Nat)
  | shutdown

/-- The `set` operations: each takes a fresh id. -/
def Op.isSet : Op → Bool
  | .set .. => true
  | _ => false

/-- One operation; `none` is a panic. -/
def State.step (st : State) : Op → Option State
  | .set key value now => (st.set now key value).map Prod.fst
  | .get _ => some st
  | .purge now => some (st.purgeExpiredKeys now).1
  | .shutdown => some st.shutdownPurgeTask

/-- A history of operations from `MiniRedis::new`. -/
def run (ops : List Op) : Option State := ops.foldlM State.step State.new

/-! ## What each operation does -/

namespace State

variable {st st' : State} {now : Nat} {key : RString} {value : Bytes}

lemma mem_clearExpiration {prev : Option Entry} {m : ExpMap} {x : ExpItem} :
    x ∈ (clearExpiration prev m).items ↔
      x ∈ m.items ∧ ∀ p, prev = some p → ∀ w, p.expiresAt = some w → x.1 ≠ (w, p.id) := by
  rcases prev with _ | p
  · simp [clearExpiration]
  · rcases hw : p.expiresAt with _ | w <;> simp [clearExpiration, hw]

/-- **`set`**: a fresh id, the entry under it, and its expiration in place of the old one. -/
lemma set_eq_some {notify : Bool} (h : st.set now key value = some (st', notify)) :
    st.nextId + 1 < 2 ^ 64 ∧
      st' = ⟨Function.update st.entries key (some ⟨st.nextId, value, some (now + ttl)⟩),
        clearExpiration (st.entries key) (st.expirations.insert (now + ttl, st.nextId) key),
        st.nextId + 1, st.shutdown⟩ := by
  unfold set at h
  dsimp only at h
  split_ifs at h with hid
  cases h
  exact ⟨hid, rfl⟩

/-- The `notify` flag of `set`: whether the new instant is before the next expiration, or
there is none. -/
lemma set_notify {notify : Bool} (h : st.set now key value = some (st', notify)) :
    notify = (st.nextExpiration.map fun e => decide (e > now + ttl)).getD true := by
  unfold set at h
  dsimp only at h
  split_ifs at h
  cases h
  rfl

lemma set_isSome (h : st.nextId + 1 < 2 ^ 64) : (st.set now key value).isSome := by
  unfold set
  dsimp only
  rw [if_pos h]
  rfl

/-- The entries `purge_expired_keys` leaves: every key with an expiration in `l` not after
`now` is gone. -/
def purgedEntries (now : Nat) (l : List ExpItem) (entries : RString → Option Entry) :
    RString → Option Entry :=
  fun k => if l.any (fun x => decide (x.2 = k ∧ x.1.1 ≤ now)) then none else entries k

section Purged

variable {l : List ExpItem} {entries : RString → Option Entry} {k : RString}

lemma purgedEntries_of_mem {x : ExpItem} (hx : x ∈ l) (hk : x.2 = k) (hle : x.1.1 ≤ now) :
    purgedEntries now l entries k = none :=
  if_pos (List.any_eq_true.mpr ⟨x, hx, decide_eq_true ⟨hk, hle⟩⟩)

lemma purgedEntries_of_lt (h : ∀ x ∈ l, x.2 = k → now < x.1.1) :
    purgedEntries now l entries k = entries k := by
  refine if_neg fun hany => ?_
  obtain ⟨x, hx, hdec⟩ := List.any_eq_true.mp hany
  have := of_decide_eq_true hdec
  have := h x hx this.1
  omega

lemma purgedEntries_cons_of_le {x : ExpItem} (hle : x.1.1 ≤ now) :
    purgedEntries now (x :: l) entries = purgedEntries now l (Function.update entries x.2 none) := by
  funext k
  by_cases hk : x.2 = k
  · subst hk
    rw [purgedEntries_of_mem (List.mem_cons_self _ _) rfl hle]
    unfold purgedEntries
    split <;> simp
  · simp only [purgedEntries, List.any_cons, Function.update_noteq (Ne.symm hk), hk, false_and,
      decide_False, Bool.false_or]

lemma purgedEntries_eq_some {e : Entry} (h : purgedEntries now l entries k = some e) :
    entries k = some e ∧ ∀ x ∈ l, x.2 = k → now < x.1.1 := by
  unfold purgedEntries at h
  split at h
  · cases h
  · rename_i hany
    exact ⟨h, fun x hx hk => Nat.lt_of_not_le fun hle =>
      hany (List.any_eq_true.mpr ⟨x, hx, decide_eq_true ⟨hk, hle⟩⟩)⟩

lemma ExpMap.after_of_lt {m : ExpMap} (h : ∀ x ∈ m.items, now < x.1.1) : m.after now = m :=
  ExpMap.ext (List.filter_eq_self.mpr fun x hx => decide_eq_true (h x hx))

end Purged

/-- Where entries and expirations index each other both ways, the purge removes exactly the
entries whose own instant is not after `now`. -/
lemma purgedEntries_eq_filter
    (hitem : ∀ w id k, ((w, id), k) ∈ st.expirations.items →
      ∃ e, st.entries k = some e ∧ e.id = id ∧ e.expiresAt = some w)
    (hentry : ∀ k e w, st.entries k = some e → e.expiresAt = some w →
      ((w, e.id), k) ∈ st.expirations.items) (k : RString) :
    purgedEntries now st.expirations.items st.entries k =
      (st.entries k).filter fun e => e.expiresAt.all fun w => decide (now < w) := by
  have hat : ∀ e, st.entries k = some e → ∀ x ∈ st.expirations.items, x.2 = k →
      e.expiresAt = some x.1.1 := by
    intro e he x hx hk
    obtain ⟨e', he', -, hw⟩ := hitem x.1.1 x.1.2 x.2 hx
    rw [hk, he, Option.some.injEq] at he'
    exact he' ▸ hw
  rcases he : st.entries k with _ | e
  · unfold purgedEntries; split <;> simp [he]
  rcases hw : e.expiresAt with _ | w
  · rw [purgedEntries_of_lt fun x hx hk => nomatch hw ▸ hat e he x hx hk]
    simp [Option.filter, hw, he]
  by_cases hle : w ≤ now
  · rw [purgedEntries_of_mem (hentry k e w he hw) rfl hle]
    simp [Option.filter, hw, Nat.not_lt.mpr hle]
  · rw [purgedEntries_of_lt fun x hx hk => ?_]
    · simp [Option.filter, hw, he]; omega
    · have hx' := hat e he x hx hk
      rw [hw, Option.some.injEq] at hx'
      omega

/-- **The purge loop** removes every expiration not after `now` and the entries they name,
and returns the first instant left. -/
lemma purgeLoop_eq (now : Nat) : ∀ fuel (st : State), st.expirations.items.length ≤ fuel →
    purgeLoop now fuel st =
      ({ st with
          entries := purgedEntries now st.expirations.items st.entries
          expirations := st.expirations.after now },
        (st.expirations.items.find? (fun x => decide (now < x.1.1))).map (·.1.1)) := by
  intro fuel
  induction fuel with
  | zero =>
    rintro ⟨entries, ⟨items, hs⟩, nextId, sd⟩ h
    obtain rfl : items = [] := List.eq_nil_of_length_eq_zero (Nat.le_zero.mp h)
    rfl
  | succ fuel ih =>
    rintro ⟨entries, ⟨items, hs⟩, nextId, sd⟩ h
    rcases items with _ | ⟨⟨⟨when, id⟩, key⟩, rest⟩
    · rfl
    by_cases hw : when > now
    · have hlater : ∀ y ∈ ((when, id), key) :: rest, now < y.1.1 := fun y hy =>
        lt_of_lt_of_le hw (ExpMap.first_le (m := ⟨_, hs⟩) rfl y hy)
      simp only [purgeLoop, ExpMap.first, List.head?_cons, if_pos hw, List.find?_cons,
        decide_eq_true hw, Option.map_some']
      rw [ExpMap.after_of_lt hlater]
      congr
      funext k
      exact (purgedEntries_of_lt fun y hy _ => hlater y hy).symm
    · have hle : when ≤ now := by omega
      have hrem := ExpMap.remove_first (m := ⟨_, hs⟩) (x := ((when, id), key)) rfl
      simp only [purgeLoop, ExpMap.first, List.head?_cons, if_neg hw]
      rw [ih _ (by rw [hrem]; simp at h; omega)]
      have hafter : (ExpMap.remove ⟨_, hs⟩ (when, id)).after now = ExpMap.after ⟨_, hs⟩ now :=
        ExpMap.ext (by simp only [ExpMap.after, hrem, List.filter_cons, decide_eq_true_eq,
          if_neg (show ¬ now < when by omega)])
      rw [hafter, hrem, List.find?_cons_of_neg _ (by simpa using hle),
        purgedEntries_cons_of_le (x := ((when, id), key)) hle]

/-- **`purge_expired_keys`** before shutdown: `purgeLoop_eq` over the whole map. -/
lemma purgeExpiredKeys_of_not (h : st.shutdown = false) :
    st.purgeExpiredKeys now =
      ({ st with
          entries := purgedEntries now st.expirations.items st.entries
          expirations := st.expirations.after now },
        (st.expirations.items.find? (fun x => decide (now < x.1.1))).map (·.1.1)) := by
  rw [purgeExpiredKeys, if_neg (by simp [h]), purgeLoop_eq now _ st le_rfl]

lemma purgeExpiredKeys_of_shutdown (h : st.shutdown = true) : st.purgeExpiredKeys now = (st, none) :=
  if_pos h

/-- **`next_expiration`** is the least instant of `expirations`. -/
lemma nextExpiration_eq_some_iff {w : Nat} :
    st.nextExpiration = some w ↔
      (∃ x ∈ st.expirations.items, x.1.1 = w) ∧ ∀ x ∈ st.expirations.items, w ≤ x.1.1 := by
  constructor
  · intro h
    obtain ⟨x, hx, rfl⟩ := Option.map_eq_some'.mp h
    exact ⟨⟨x, List.mem_of_mem_head? hx, rfl⟩, ExpMap.first_le hx⟩
  · rintro ⟨⟨x, hx, rfl⟩, hle⟩
    rcases hf : st.expirations.first with _ | y
    · rw [ExpMap.first, List.head?_eq_none_iff] at hf
      simp [hf] at hx
    · have hyx := ExpMap.first_le hf x hx
      have hxy := hle y (List.mem_of_mem_head? hf)
      rw [nextExpiration, hf, Option.map_some', Nat.le_antisymm hyx hxy]

lemma nextExpiration_eq_none_iff : st.nextExpiration = none ↔ st.expirations.items = [] := by
  simp [nextExpiration, ExpMap.first]

/-- Before shutdown, `purge_expired_keys` returns the next expiration of the state it
leaves. -/
lemma purgeExpiredKeys_snd (h : st.shutdown = false) :
    (st.purgeExpiredKeys now).2 = (st.purgeExpiredKeys now).1.nextExpiration := by
  rw [purgeExpiredKeys_of_not h]
  simp only [nextExpiration, ExpMap.first, ExpMap.after, List.filter_head?]

end State

end MiniRedis

end RaphDb
