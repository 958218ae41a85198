import RaphDb.Store.MiniRedis

/-!
# The purge task

`purge_expired_tasks` is the background task of `MiniRedis`.  It loops: it checks the shutdown
flag, calls `Shared::purge_expired_keys`, and waits, until the next expiration with a deadline
or for a notification with none.  `set` and `shutdown_purge_task` wake it through a `Notify`,
after they have released the lock.

The first part says what one call of `purge_expired_keys` leaves (`purgeExpiredKeys_exact`).
Its loop finds each expiration by ordered iteration and removes the entry by key, so where
the entries and the expirations index each other, it removes exactly the expired entries and
expirations and returns the least instant left.  The index has to hold both ways: an entry
whose expiration is not queued is not removed (`purgeExpiredKeys_unqueued`).

The second part is the task and the `Notify` between it and the store, one atomic step per
event, in any interleaving (`Sys`).  A notification can be sent while the task is not waiting,
and `set` compares its instant with the next expiration as it was before its own insert; the
permit that `notify_one` stores is what makes up for both.  `Sys.Inv` says that a waiting task
has a wake-up on its way or waits for the right thing; it holds in every reachable state
(`purge_task_wakeup`).

The third part is what `DropGuard` relies on: after `shutdown_purge_task`, the task ends within
three steps of its own and of the pending notifiers, and stays ended (`shutdown_task_exits`).
-/

namespace RaphDb

namespace MiniRedis

/-! ## What `purge_expired_keys` leaves -/

namespace State

variable {st st' : State} {now : Nat} {next : Option Nat}

/-- **`purge_expired_keys` leaves exactly the right state.**  Where every expiration names an
entry of that id and instant, and every entry with an instant has its expiration queued: after
shutdown it changes nothing and returns `None`.  Otherwise it removes exactly the entries whose
instant is not after `now` and exactly the expirations not after `now`, leaves everything else,
and returns the least instant left, or `None` when none is left. -/
theorem purgeExpiredKeys_exact
    (hitem : ∀ w id k, ((w, id), k) ∈ st.expirations.items →
      ∃ e, st.entries k = some e ∧ e.id = id ∧ e.expiresAt = some w)
    (hentry : ∀ k e w, st.entries k = some e → e.expiresAt = some w →
      ((w, e.id), k) ∈ st.expirations.items)
    (h : st.purgeExpiredKeys now = (st', next)) :
    (st.shutdown = true → st' = st ∧ next = none) ∧
    (st.shutdown = false →
      (∀ k, (st'.entries k = none ∧
          ∃ e w, st.entries k = some e ∧ e.expiresAt = some w ∧ w ≤ now) ∨
        (st'.entries k = st.entries k ∧
          ∀ e w, st.entries k = some e → e.expiresAt = some w → now < w)) ∧
      (∀ x, x ∈ st'.expirations.items ↔ x ∈ st.expirations.items ∧ now < x.1.1) ∧
      st'.nextId = st.nextId ∧ st'.shutdown = st.shutdown ∧
      (∀ w, next = some w ↔
        (∃ x ∈ st'.expirations.items, x.1.1 = w) ∧ ∀ x ∈ st'.expirations.items, w ≤ x.1.1) ∧
      (next = none ↔ st'.expirations.items = [])) := by
  refine ⟨fun hsd => ?_, fun hsd => ?_⟩
  · rw [purgeExpiredKeys_of_shutdown hsd, Prod.mk.injEq] at h
    exact ⟨h.1.symm, h.2.symm⟩
  have hnext : next = st'.nextExpiration := by
    have := @purgeExpiredKeys_snd st now hsd
    rwa [h] at this
  rw [purgeExpiredKeys_of_not hsd, Prod.mk.injEq] at h
  obtain ⟨rfl, -⟩ := h
  refine ⟨fun k => ?_, fun x => by simp [ExpMap.after, and_comm], rfl, rfl,
    fun w => hnext ▸ nextExpiration_eq_some_iff, hnext ▸ nextExpiration_eq_none_iff⟩
  by_cases hx : ∃ x ∈ st.expirations.items, x.2 = k ∧ x.1.1 ≤ now
  · obtain ⟨⟨⟨w, id⟩, k'⟩, hmem, rfl, hle⟩ := hx
    obtain ⟨e, he, -, hw⟩ := hitem w id k' hmem
    exact .inl ⟨purgedEntries_of_mem hmem rfl hle, e, w, he, hw, hle⟩
  · refine .inr ⟨purgedEntries_of_lt fun x hmem hk => ?_, fun e w he hw => ?_⟩
    · exact Nat.lt_of_not_le fun hle => hx ⟨x, hmem, hk, hle⟩
    · exact Nat.lt_of_not_le fun hle => hx ⟨_, hentry k e w he hw, rfl, hle⟩

/-- A store whose key `k` expires at 5, with its expiration queued. -/
def expiringAt5 : State :=
  ⟨Function.update (fun _ => none) ⟨[107], rfl⟩ (some ⟨0, [49], some 5⟩),
    ⟨[((5, 0), ⟨[107], rfl⟩)], List.pairwise_singleton _ _⟩, 1, false⟩

/-- The purge at 10 of `expiringAt5` removes `k` and its expiration, and returns `None`. -/
theorem purgeExpiredKeys_exact_expiring :
    (expiringAt5.purgeExpiredKeys 10).1.entries ⟨[107], rfl⟩ = none ∧
      (expiringAt5.purgeExpiredKeys 10).1.expirations.items = [] ∧
      (expiringAt5.purgeExpiredKeys 10).2 = none := by
  have hitem : ∀ w id k, ((w, id), k) ∈ expiringAt5.expirations.items →
      ∃ e, expiringAt5.entries k = some e ∧ e.id = id ∧ e.expiresAt = some w :=
    fun w id k h => by cases List.mem_singleton.mp h; exact ⟨_, rfl, rfl, rfl⟩
  have hentry : ∀ k e w, expiringAt5.entries k = some e → e.expiresAt = some w →
      ((w, e.id), k) ∈ expiringAt5.expirations.items := by
    intro k e w he hw
    by_cases hk : k = ⟨[107], rfl⟩
    · subst hk; cases he; cases hw; exact List.mem_singleton_self _
    · simp [expiringAt5, Function.update_noteq hk] at he
  obtain ⟨hk, hx, -, -, -, hnone⟩ :=
    (@purgeExpiredKeys_exact expiringAt5 _ 10 _ hitem hentry rfl).2 rfl
  have hempty : (expiringAt5.purgeExpiredKeys 10).1.expirations.items = [] :=
    List.eq_nil_iff_forall_not_mem.mpr fun x hmem => by
      obtain ⟨hmem, hlt⟩ := (hx x).mp hmem
      cases List.mem_singleton.mp hmem
      exact absurd hlt (by decide)
  have hgone := (hk ⟨[107], rfl⟩).resolve_right fun h => absurd (h.2 _ _ rfl rfl) (by decide)
  exact ⟨hgone.1, hempty, hnone.mpr hempty⟩

/-- The purge at 10 of a store whose key `k` expires at 5 with no expiration queued: every
expiration names an entry, vacuously, yet the expired entry stays. -/
theorem purgeExpiredKeys_unqueued :
    let st : State :=
      ⟨Function.update (fun _ => none) ⟨[107], rfl⟩ (some ⟨0, [49], some 5⟩), .empty, 1, false⟩
    (∀ w id k, ((w, id), k) ∈ st.expirations.items →
      ∃ e, st.entries k = some e ∧ e.id = id ∧ e.expiresAt = some w) ∧
    (st.purgeExpiredKeys 10).1.entries ⟨[107], rfl⟩ = some ⟨0, [49], some 5⟩ :=
  ⟨fun _ _ _ h => absurd h (List.not_mem_nil _), rfl⟩

end State

/-! ## The task and the `Notify`

`Notify::notify_one` wakes the task if it waits, and otherwise stores one permit; permits do
not add up.  A waiting task that finds a permit takes it and loops.  A step is one thing
that can happen between the others in any interleaving of the callers and the task: a `set`
or a `shutdown_purge_task` up to the release of the lock, a `notify_one` it makes after that,
the task's shutdown check, its `purge_expired_keys`, a permit taken, and a deadline passed.  Instants come with the events that read the clock; a
`set` that panics on `next_id` is no step. -/

/-- Where `purge_expired_tasks` stands. -/
inductive Task where
  /-- At `while !shared.is_shutdown()`. -/
  | loopHead
  /-- Past the shutdown check, before `purge_expired_keys`. -/
  | purging
  /-- In `select!` on `sleep_until(when)` and `notified()`. -/
  | waitUntil (when : Nat)
  /-- In `notified().await`, with no instant to wait for. -/
  | waitForever
  /-- Returned. -/
  | exited
  deriving DecidableEq

/-- The task waits on the `Notify`. -/
def Task.waiting : Task → Bool
  | .waitUntil _ | .waitForever => true
  | _ => false

/-- The store, the `Notify` and the task. -/
structure Sys where
  store : State
  /-- The permit `notify_one` stored while the task did not wait. -/
  permit : Bool
  /-- The `set` and `shutdown_purge_task` calls past `drop(state)` with a `notify_one` still
  to make. -/
  pending : Nat
  task : Task

/-- `MiniRedis::new`: an empty store, and the task spawned at its loop head. -/
def Sys.init : Sys := ⟨State.new, false, 0, .loopHead⟩

/-- The atomic steps. -/
inductive Event where
  /-- `MiniRedis::set` at the instant `now`, up to `drop(state)`. -/
  | set (key : RString) (value : Bytes) (now : Nat)
  /-- `shutdown_purge_task`, up to `drop(state)`. -/
  | shutdown
  /-- A pending caller's `notify_one()`. -/
  | notifyOne
  /-- `is_shutdown()` at the loop head. -/
  | checkShutdown
  /-- `purge_expired_keys()` at the instant `now`. -/
  | purge (now : Nat)
  /-- `notified()` completing on a stored permit. -/
  | takePermit
  /-- `sleep_until(when)` completing at the instant `now`. -/
  | expire (now : Nat)

namespace Sys

/-- `Notify::notify_one`. -/
def notify (s : Sys) : Sys :=
  if s.task.waiting then { s with task := .loopHead } else { s with permit := true }

/-- Where `purge_expired_keys` sends the task: a deadline, or none. -/
def waitFor : Option Nat → Task
  | some when => .waitUntil when
  | none => .waitForever

/-- One step; `none` where the event cannot happen. -/
def step (s : Sys) : Event → Option Sys
  | .set key value now => (s.store.set now key value).map fun r =>
    { s with store := r.1, pending := if r.2 then s.pending + 1 else s.pending }
  | .shutdown => some { s with store := s.store.shutdownPurgeTask, pending := s.pending + 1 }
  | .notifyOne => if 0 < s.pending then some { s.notify with pending := s.pending - 1 } else none
  | .checkShutdown =>
    if s.task = .loopHead then
      some { s with task := if s.store.shutdown then .exited else .purging }
    else none
  | .purge now =>
    if s.task = .purging then
      let r := s.store.purgeExpiredKeys now
      some { s with store := r.1, task := waitFor r.2 }
    else none
  | .takePermit =>
    if s.task.waiting && s.permit then some { s with permit := false, task := .loopHead }
    else none
  | .expire now =>
    match s.task with
    | .waitUntil when => if when ≤ now then some { s with task := .loopHead } else none
    | _ => none

/-- An interleaving of events from `MiniRedis::new`. -/
def run (events : List Event) : Option Sys := events.foldlM step init

/-- What a waiting task waits for is right: no shutdown, and its deadline is before every
expiration, or there is no expiration to wait for. -/
def Covers : Task → State → Prop
  | .waitUntil when, st => st.shutdown = false ∧ ∀ x ∈ st.expirations.items, when ≤ x.1.1
  | .waitForever, st => st.shutdown = false ∧ st.expirations.items = []
  | _, _ => True

/-- The invariant of the task and the `Notify`. -/
structure Inv (s : Sys) : Prop where
  /-- A wake-up is on its way, or the task's wait is right. -/
  wait : s.permit = true ∨ 0 < s.pending ∨ Covers s.task s.store
  /-- After shutdown, a task past its shutdown check has a wake-up on its way. -/
  shutdown : s.store.shutdown = true → s.task = .purging → s.permit = true ∨ 0 < s.pending

lemma waitFor_ne_purging (next : Option Nat) : waitFor next ≠ .purging := by
  cases next <;> nofun

/-- A `set` that does not notify keeps a right wait right: its instant is not before the next
expiration, which the deadline is not after. -/
lemma covers_set {t : Task} {st st' : State} {now : Nat} {key : RString} {value : Bytes}
    (h : st.set now key value = some (st', false)) (hc : Covers t st) : Covers t st' := by
  have hnotify := State.set_notify h
  obtain ⟨-, rfl⟩ := State.set_eq_some h
  cases t with
  | waitUntil when =>
    obtain ⟨hsd, hle⟩ := hc
    refine ⟨hsd, fun x hx => ?_⟩
    rw [State.mem_clearExpiration, ExpMap.mem_insert] at hx
    rcases hx.1 with rfl | ⟨hx, -⟩
    · rcases he : st.nextExpiration with _ | e
      · rw [he] at hnotify; cases hnotify
      · rw [he, Option.map_some', Option.getD_some, eq_comm, decide_eq_false_iff_not] at hnotify
        obtain ⟨⟨y, hy, rfl⟩, -⟩ := State.nextExpiration_eq_some_iff.mp he
        have := hle y hy
        dsimp only
        omega
    · exact hle x hx
  | waitForever =>
    rw [(State.nextExpiration_eq_none_iff.mpr hc.2)] at hnotify
    cases hnotify
  | _ => trivial

/-- The purge before shutdown sends the task to the right wait. -/
lemma covers_purge {st : State} {now : Nat} (h : st.shutdown = false) :
    Covers (waitFor (st.purgeExpiredKeys now).2) (st.purgeExpiredKeys now).1 := by
  have hnext := @State.purgeExpiredKeys_snd st now h
  have hsd : (st.purgeExpiredKeys now).1.shutdown = false := by
    rw [State.purgeExpiredKeys_of_not h]; exact h
  rcases hn : (st.purgeExpiredKeys now).2 with _ | when <;> rw [hn] at hnext
  · exact ⟨hsd, State.nextExpiration_eq_none_iff.mp hnext.symm⟩
  · exact ⟨hsd, (State.nextExpiration_eq_some_iff.mp hnext.symm).2⟩

namespace Inv

variable {s s' : Sys}

lemma init : Inv Sys.init := ⟨.inr (.inr trivial), fun h => by cases h⟩

/-- A task at its loop head has nothing to be woken from. -/
lemma loopHead (st : State) (permit : Bool) (pending : Nat) : Inv ⟨st, permit, pending, .loopHead⟩ :=
  ⟨.inr (.inr trivial), fun _ h => by cases h⟩

/-- **One step.**  Every event keeps the invariant. -/
lemma step (hi : s.Inv) : ∀ {e : Event}, s.step e = some s' → s'.Inv
  | .set key value now, h => by
    obtain ⟨⟨st', notify⟩, hs, rfl⟩ := Option.map_eq_some'.mp h
    cases notify
    · have hsd : st'.shutdown = s.store.shutdown := by
        obtain ⟨-, rfl⟩ := State.set_eq_some hs; rfl
      exact ⟨hi.wait.imp_right (Or.imp_right (covers_set hs)), fun h => hi.shutdown (hsd ▸ h)⟩
    · exact ⟨.inr (.inl (Nat.succ_pos _)), fun _ _ => .inr (Nat.succ_pos _)⟩
  | .shutdown, h => by
    cases h
    exact ⟨.inr (.inl (Nat.succ_pos _)), fun _ _ => .inr (Nat.succ_pos _)⟩
  | .notifyOne, h => by
    simp only [Sys.step] at h
    split_ifs at h
    cases h
    unfold notify
    split
    · exact loopHead _ _ _
    · exact ⟨.inl rfl, fun _ _ => .inl rfl⟩
  | .checkShutdown, h => by
    simp only [Sys.step] at h
    split_ifs at h with _ hsd <;> cases h
    · exact ⟨.inr (.inr trivial), fun _ h => by cases h⟩
    · exact ⟨.inr (.inr trivial), fun h => absurd h hsd⟩
  | .purge now, h => by
    simp only [Sys.step] at h
    split_ifs at h with ht
    cases h
    refine ⟨?_, fun _ h => absurd h (waitFor_ne_purging _)⟩
    rcases hi.wait with hp | hp | -
    · exact .inl hp
    · exact .inr (.inl hp)
    cases hsd : s.store.shutdown
    · exact .inr (.inr (covers_purge hsd))
    · exact (hi.shutdown hsd ht).imp id .inl
  | .takePermit, h => by
    simp only [Sys.step] at h
    split_ifs at h
    cases h
    exact loopHead _ _ _
  | .expire now, h => by
    simp only [Sys.step] at h
    split at h
    · split_ifs at h
      cases h
      exact loopHead _ _ _
    · cases h

/-- **A run.**  Every interleaving keeps the invariant. -/
lemma foldlM : ∀ {events : List Event} {s s' : Sys}, s.Inv →
    events.foldlM Sys.step s = some s' → s'.Inv
  | [], _, _, hi, h => by cases h; exact hi
  | e :: events, s, s', hi, h => by
    simp only [List.foldlM_cons, Option.bind_eq_bind, Option.bind_eq_some] at h
    obtain ⟨s1, h1, h2⟩ := h
    exact foldlM (hi.step h1) h2

end Inv

end Sys

/-- **The purge task never misses a wake-up.**  In every state an interleaving of `set`s,
shutdowns, notifications and the task's own steps reaches, where the task waits with no
permit stored and no notification on its way: the store is not shut down, and the task waits
with a deadline not after any expiration, or with none and no expiration left. -/
theorem purge_task_wakeup {events : List Event} {s : Sys} (h : Sys.run events = some s)
    (hwait : s.task.waiting = true) (hpermit : s.permit = false) (hpending : s.pending = 0) :
    s.store.shutdown = false ∧
      ((∃ when, s.task = .waitUntil when ∧ ∀ x ∈ s.store.expirations.items, when ≤ x.1.1) ∨
        (s.task = .waitForever ∧ s.store.expirations.items = [])) := by
  rcases (Sys.Inv.foldlM Sys.Inv.init h).wait with hp | hp | hc
  · rw [hpermit] at hp; cases hp
  · omega
  rcases ht : s.task with _ | _ | when | _ | _ <;> rw [ht] at hwait hc <;> try cases hwait
  · exact ⟨hc.1, .inl ⟨when, rfl, hc.2⟩⟩
  · exact ⟨hc.1, .inr ⟨rfl, hc.2⟩⟩

/-- A `set` whose notification comes before the task waits: the permit it leaves wakes the
task once more, and the task then waits for the `set`'s deadline. -/
theorem purge_task_wakeup_permit :
    ∃ s, Sys.run [.set ⟨[107], rfl⟩ [49] 0, .notifyOne, .checkShutdown, .purge 10, .takePermit,
        .checkShutdown, .purge 20] = some s ∧
      s.store.shutdown = false ∧
      ((∃ when, s.task = .waitUntil when ∧ ∀ x ∈ s.store.expirations.items, when ≤ x.1.1) ∨
        (s.task = .waitForever ∧ s.store.expirations.items = [])) :=
  ⟨_, rfl, @purge_task_wakeup [.set ⟨[107], rfl⟩ [49] 0, .notifyOne, .checkShutdown, .purge 10,
    .takePermit, .checkShutdown, .purge 20] _ rfl rfl rfl rfl⟩

/-! ## Shutdown lets the task out

`DropGuard` calls `shutdown_purge_task` so that the purge task ends.  After the flag is set
the task is never stuck: from every reachable state it ends within three steps of its own and
of the pending notifiers, whatever else has run, and once it has ended it stays ended.  The
permit is what makes this hold when the notification comes before the task waits. -/

namespace Sys

variable {s : Sys} {now : Nat}

/-- A run that starts with a step goes on from where that step leaves. -/
lemma foldlM_cons_of_step {e : Event} {events : List Event} {s1 : Sys} (h : s.step e = some s1) :
    (e :: events).foldlM step s = events.foldlM step s1 := by
  simp only [List.foldlM_cons, h, Option.bind_eq_bind, Option.some_bind]

lemma step_checkShutdown_exit {st : State} {p : Bool} {n : Nat} (hsd : st.shutdown = true) :
    (⟨st, p, n, .loopHead⟩ : Sys).step .checkShutdown = some ⟨st, p, n, .exited⟩ := by
  simp [step, hsd]

lemma step_purge_shutdown (ht : s.task = .purging) (hsd : s.store.shutdown = true) :
    s.step (.purge now) = some ⟨s.store, s.permit, s.pending, .waitForever⟩ := by
  simp only [step, ht, if_true, State.purgeExpiredKeys_of_shutdown hsd]
  rfl

lemma step_notifyOne_waiting (hw : s.task.waiting = true) (hp : 0 < s.pending) :
    s.step .notifyOne = some ⟨s.store, s.permit, s.pending - 1, .loopHead⟩ := by
  simp [step, hp, notify, hw]

lemma step_takePermit (hw : s.task.waiting = true) (hp : s.permit = true) :
    s.step .takePermit = some ⟨s.store, false, s.pending, .loopHead⟩ := by
  simp [step, hw, hp]

/-- A waiting task whose wait is right waits on a store that is not shut down. -/
lemma Covers.shutdown_eq_false {t : Task} {st : State} (hw : t.waiting = true) (hc : Covers t st) :
    st.shutdown = false := by
  cases t <;> first | exact hc.1 | cases hw

/-- An ended task takes no step of its own, and a notification only stores a permit. -/
lemma step_exited (ht : s.task = .exited) : ∀ {e : Event} {s' : Sys}, s.step e = some s' →
    s'.task = .exited
  | .set _ _ _, _, h => by
    obtain ⟨_, -, rfl⟩ := Option.map_eq_some'.mp h
    exact ht
  | .shutdown, _, h => by cases h; exact ht
  | .notifyOne, _, h => by
    simp only [step, notify, ht, Task.waiting, Bool.false_eq_true, if_false] at h
    split_ifs at h
    cases h
    rfl
  | .checkShutdown, _, h => by simp [step, ht] at h
  | .purge _, _, h => by simp [step, ht] at h
  | .takePermit, _, h => by simp [step, ht, Task.waiting] at h
  | .expire _, _, h => by simp [step, ht] at h

lemma foldlM_exited : ∀ {events : List Event} {s s' : Sys}, s.task = .exited →
    events.foldlM step s = some s' → s'.task = .exited
  | [], _, _, ht, h => by cases h; exact ht
  | e :: events, s, s', ht, h => by
    simp only [List.foldlM_cons, Option.bind_eq_bind, Option.bind_eq_some] at h
    obtain ⟨s1, h1, h2⟩ := h
    exact foldlM_exited (step_exited ht h1) h2

/-- A waiting task after shutdown, with a wake-up on its way, ends in two steps: the permit
taken or the pending `notify_one`, then the shutdown check. -/
lemma exit_of_waiting (hw : s.task.waiting = true) (hsd : s.store.shutdown = true)
    (hwake : s.permit = true ∨ 0 < s.pending) :
    ∃ e s', (e = .notifyOne ∨ e = .takePermit) ∧ [e, .checkShutdown].foldlM step s = some s' ∧
      s'.task = .exited := by
  by_cases hp : s.permit = true
  · exact ⟨.takePermit, _, .inr rfl, (foldlM_cons_of_step (step_takePermit hw hp)).trans
      ((foldlM_cons_of_step (step_checkShutdown_exit hsd)).trans rfl), rfl⟩
  · exact ⟨.notifyOne, _, .inl rfl,
      (foldlM_cons_of_step (step_notifyOne_waiting hw (hwake.resolve_left hp))).trans
        ((foldlM_cons_of_step (step_checkShutdown_exit hsd)).trans rfl), rfl⟩

end Sys

/-- **After shutdown the purge task ends.**  In every state an interleaving reaches where
`shutdown_purge_task` has run, the task leaves its loop within three steps of its own and of
the pending notifiers, at any instant of its clock, and no later step brings it back. -/
theorem shutdown_task_exits {events : List Event} {s : Sys} (h : Sys.run events = some s)
    (hsd : s.store.shutdown = true) (now : Nat) :
    ∃ (steps : List Event) (s' : Sys), steps.length ≤ 3 ∧
      (∀ e ∈ steps, e = .notifyOne ∨ e = .takePermit ∨ e = .checkShutdown ∨ e = .purge now) ∧
      steps.foldlM Sys.step s = some s' ∧ s'.task = .exited ∧
      ∀ (later : List Event) (s'' : Sys), later.foldlM Sys.step s' = some s'' →
        s''.task = .exited := by
  have hi := Sys.Inv.foldlM Sys.Inv.init h
  have hend : ∀ {s' : Sys}, s'.task = .exited → ∀ (later : List Event) (s'' : Sys),
      later.foldlM Sys.step s' = some s'' → s''.task = .exited :=
    fun hx _ _ => Sys.foldlM_exited hx
  by_cases hw : s.task.waiting = true
  · -- a waiting task: no right wait is left after shutdown, so a wake-up is on its way
    have hwake : s.permit = true ∨ 0 < s.pending := by
      rcases hi.wait with hp | hp | hc
      · exact .inl hp
      · exact .inr hp
      · simp [Sys.Covers.shutdown_eq_false hw hc] at hsd
    obtain ⟨e, s', he, hs', hx⟩ := Sys.exit_of_waiting hw hsd hwake
    rcases he with rfl | rfl <;> exact ⟨_, s', by simp, by simp, hs', hx, hend hx⟩
  obtain ⟨st, permit, pending, task⟩ := s
  dsimp only at hsd hw ⊢
  cases task with
  | loopHead =>
    exact ⟨[.checkShutdown], _, by simp, by simp,
      (Sys.foldlM_cons_of_step (Sys.step_checkShutdown_exit hsd)).trans rfl, rfl, hend rfl⟩
  | purging =>
    -- the purge finds nothing to wait for; the wake-up `Inv.shutdown` gives is still on its way
    obtain ⟨e, s', he, hs', hx⟩ := Sys.exit_of_waiting (s := ⟨st, permit, pending, .waitForever⟩)
      rfl hsd (hi.shutdown hsd rfl)
    have hrun : (Event.purge now :: [e, .checkShutdown]).foldlM Sys.step
        ⟨st, permit, pending, .purging⟩ = some s' :=
      (Sys.foldlM_cons_of_step (Sys.step_purge_shutdown rfl hsd)).trans hs'
    rcases he with rfl | rfl <;> exact ⟨_, s', by simp, by simp, hrun, hx, hend hx⟩
  | exited => exact ⟨[], _, by simp, by simp, rfl, rfl, hend rfl⟩
  | _ => exact absurd rfl hw

/-- A `set` whose notification is stored as a permit, the task then waiting for its deadline,
and the shutdown: the task ends. -/
theorem shutdown_task_exits_waiting :
    ∃ s, Sys.run [.set ⟨[107], rfl⟩ [49] 0, .notifyOne, .checkShutdown, .purge 0, .shutdown] =
        some s ∧ s.store.shutdown = true ∧
      ∃ (steps : List Event) (s' : Sys), steps.length ≤ 3 ∧
        (∀ e ∈ steps, e = .notifyOne ∨ e = .takePermit ∨ e = .checkShutdown ∨ e = .purge 5) ∧
        steps.foldlM Sys.step s = some s' ∧ s'.task = .exited ∧
        ∀ (later : List Event) (s'' : Sys), later.foldlM Sys.step s' = some s'' →
          s''.task = .exited :=
  ⟨_, rfl, rfl, @shutdown_task_exits [.set ⟨[107], rfl⟩ [49] 0, .notifyOne, .checkShutdown,
    .purge 0, .shutdown] _ rfl rfl 5⟩

end MiniRedis

end RaphDb
