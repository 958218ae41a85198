import RaphDb.Store.MiniRedis

/-!
# The index invariant of `MiniRedis`

`entries` and `expirations` index each other.  Every entry with an expiry instant `w` has
the item `((w, id), key)` in `expirations`, every item names an entry with that id and that
instant, and every id is below `next_id`.  `State.Inv` states this; it holds of
`State.new` and every operation keeps it (`State.Inv.step`), so it holds of every state a
history reaches (`run_index_invariant`).

The case that needs the invariant itself is a `set` that replaces a key whose expiration is
still queued: the old item is found by the replaced entry's `(expires_at, id)`, and the
ids below `next_id` keep the new item apart from it.
-/

namespace RaphDb

namespace MiniRedis

namespace State

/-- The index invariant: entries with an expiry and items of `expirations` correspond, and
ids are below `next_id`. -/
structure Inv (st : State) : Prop where
  entry_item : ∀ k e w, st.entries k = some e → e.expiresAt = some w →
    ((w, e.id), k) ∈ st.expirations.items
  item_entry : ∀ w id k, ((w, id), k) ∈ st.expirations.items →
    ∃ e, st.entries k = some e ∧ e.id = id ∧ e.expiresAt = some w
  id_lt : ∀ k e, st.entries k = some e → e.id < st.nextId

/-- Two items under the same expiration key name the same entry key. -/
lemma key_eq_of_mem {st : State} {w id : Nat} {k k' : RString}
    (hx : ((w, id), k) ∈ st.expirations.items) (hx' : ((w, id), k') ∈ st.expirations.items) :
    k = k' :=
  congrArg Prod.snd (st.expirations.sorted.eq_of_fst_eq hx hx' rfl)

namespace Inv

variable {st st' : State}

lemma item_id_lt (hi : st.Inv) {w id : Nat} {k : RString}
    (hx : ((w, id), k) ∈ st.expirations.items) : id < st.nextId := by
  obtain ⟨e, he, rfl, -⟩ := hi.item_entry w id k hx
  exact hi.id_lt k e he

lemma new : State.new.Inv := ⟨by simp [State.new], by simp [State.new, ExpMap.empty], by simp [State.new]⟩

lemma set (hi : st.Inv) {now : Nat} {key : RString} {value : Bytes} {notify : Bool}
    (h : st.set now key value = some (st', notify)) : st'.Inv := by
  obtain ⟨-, rfl⟩ := set_eq_some h
  refine ⟨fun k e w he hw => ?_, fun w id k hx => ?_, fun k e he => ?_⟩ <;>
    dsimp only at *
  · rw [mem_clearExpiration, ExpMap.mem_insert]
    by_cases hk : k = key
    · subst hk
      simp only [Function.update_same, Option.some.injEq] at he
      subst he
      cases hw
      refine ⟨.inl rfl, fun p hp w' _ heq => ?_⟩
      have := hi.id_lt k p hp
      simp only [Prod.mk.injEq] at heq
      omega
    · rw [Function.update_noteq hk] at he
      have hold := hi.entry_item k e w he hw
      have hid := hi.id_lt k e he
      refine ⟨.inr ⟨hold, fun heq => by simp only [Prod.mk.injEq] at heq; omega⟩,
        fun p hp w' hw' heq => hk ?_⟩
      have heq' : (w, e.id) = (w', p.id) := heq
      exact key_eq_of_mem hold (by rw [heq']; exact hi.entry_item key p w' hp hw')
  · rw [mem_clearExpiration, ExpMap.mem_insert] at hx
    obtain ⟨hnew | ⟨hold, hne⟩, hstale⟩ := hx
    · simp only [Prod.mk.injEq] at hnew
      obtain ⟨⟨rfl, rfl⟩, rfl⟩ := hnew
      exact ⟨_, Function.update_same _ _ _, rfl, rfl⟩
    · obtain ⟨e, he, rfl, hw⟩ := hi.item_entry w id k hold
      by_cases hk : k = key
      · subst hk
        exact absurd rfl (hstale e he w hw)
      · exact ⟨e, by rw [Function.update_noteq hk, he], rfl, hw⟩
  · by_cases hk : k = key
    · subst hk
      simp only [Function.update_same, Option.some.injEq] at he
      subst he
      exact Nat.lt_succ_self _
    · rw [Function.update_noteq hk] at he
      exact Nat.lt_succ_of_lt (hi.id_lt k e he)

lemma purge (hi : st.Inv) (now : Nat) : (st.purgeExpiredKeys now).1.Inv := by
  unfold purgeExpiredKeys
  split
  · exact hi
  rw [purgeLoop_eq now _ st le_rfl]
  refine ⟨fun k e w he hw => ?_, fun w id k hx => ?_, fun k e he => ?_⟩ <;> dsimp only at *
  · obtain ⟨he, hlater⟩ := purgedEntries_eq_some he
    have hold := hi.entry_item k e w he hw
    exact List.mem_filter.mpr ⟨hold, decide_eq_true (hlater _ hold rfl)⟩
  · obtain ⟨hold, hw⟩ := List.mem_filter.mp hx
    obtain ⟨e, he, rfl, hew⟩ := hi.item_entry w id k hold
    refine ⟨e, ?_, rfl, hew⟩
    rw [purgedEntries_eq_filter hi.item_entry hi.entry_item, he]
    simpa [Option.filter, hew] using of_decide_eq_true hw
  · exact hi.id_lt k e (purgedEntries_eq_some he).1

/-- **Every operation keeps the invariant.** -/
lemma step (hi : st.Inv) : ∀ {op : Op}, st.step op = some st' → st'.Inv
  | .set _ _ _, h => by
    obtain ⟨⟨st'', notify⟩, hs, rfl⟩ := Option.map_eq_some'.mp h
    exact hi.set hs
  | .get _, h => by cases h; exact hi
  | .purge now, h => by cases h; exact hi.purge now
  | .shutdown, h => by cases h; exact ⟨hi.entry_item, hi.item_entry, hi.id_lt⟩

end Inv

end State

lemma foldlM_inv : ∀ {ops : List Op} {st st' : State}, st.Inv →
    ops.foldlM State.step st = some st' → st'.Inv
  | [], _, _, hi, h => by cases h; exact hi
  | op :: ops, st, st', hi, h => by
    simp only [List.foldlM_cons, Option.bind_eq_bind, Option.bind_eq_some] at h
    obtain ⟨st1, h1, h2⟩ := h
    exact foldlM_inv (hi.step h1) h2

/-- **The index invariant holds in every reachable state.**  Every entry with an expiry
instant `w` has the item `((w, id), key)` in `expirations`; every item names an entry of that
key with that id and instant; and every id in either map is below `next_id`. -/
theorem run_index_invariant {ops : List Op} {st : State} (h : run ops = some st) :
    (∀ k e w, st.entries k = some e → e.expiresAt = some w →
      ((w, e.id), k) ∈ st.expirations.items) ∧
    (∀ w id k, ((w, id), k) ∈ st.expirations.items →
      ∃ e, st.entries k = some e ∧ e.id = id ∧ e.expiresAt = some w) ∧
    (∀ k e, st.entries k = some e → e.id < st.nextId) ∧
    (∀ w id k, ((w, id), k) ∈ st.expirations.items → id < st.nextId) :=
  have hi := foldlM_inv State.Inv.new h
  ⟨hi.entry_item, hi.item_entry, hi.id_lt, fun _ _ _ hx => hi.item_id_lt hx⟩

/-- A key set twice, with a purge in between that expires nothing: the state reached
satisfies the invariant. -/
theorem run_index_invariant_reset :
    ∃ st, run [.set ⟨[107], rfl⟩ [49] 0, .purge 5, .set ⟨[107], rfl⟩ [50] 7] = some st ∧
      ((∀ k e w, st.entries k = some e → e.expiresAt = some w →
        ((w, e.id), k) ∈ st.expirations.items) ∧
      (∀ w id k, ((w, id), k) ∈ st.expirations.items →
        ∃ e, st.entries k = some e ∧ e.id = id ∧ e.expiresAt = some w) ∧
      (∀ k e, st.entries k = some e → e.id < st.nextId) ∧
      (∀ w id k, ((w, id), k) ∈ st.expirations.items → id < st.nextId)) :=
  ⟨_, rfl, @run_index_invariant [.set ⟨[107], rfl⟩ [49] 0, .purge 5, .set ⟨[107], rfl⟩ [50] 7] _ rfl⟩

end MiniRedis

end RaphDb
