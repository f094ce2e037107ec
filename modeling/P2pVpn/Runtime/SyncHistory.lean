/-
# The history of membership synchronisation

A peer that was synchronised is not asked again for the same snapshot, and a peer whose
synchronisation failed is left alone for a while.  At most `capacity` peers of each kind are
remembered.  When a deadline has to make room for another one, it is folded into a deadline that all
peers share, so no peer is asked too early because it was forgotten.

The hash maps are searched for their oldest entry in an order of their own, which every call may
choose anew.
-/
import Mathlib.Data.List.Induction
import Mathlib.Data.List.MinMax
import P2pVpn.Lib.HashMap

namespace P2pVpn.SyncHistory

open Lib

def capacity : ℕ := 1024

/-- Thirty seconds, in nanoseconds. -/
def retryDelay : ℕ := 30 * 10 ^ 9

structure CompletedSnapshot where
  snapshot : String
  refreshedAt : ℕ
  deriving DecidableEq, Repr

structure MembershipSyncHistory (Peer : Type) where
  completed : HashMap Peer CompletedSnapshot
  retryAfter : HashMap Peer ℕ
  overflowRetryAfter : Option ℕ

section Definitions

variable {Peer : Type} [DecidableEq Peer]

/-- The first entry with the least number, in the order of an iteration. -/
def oldest {ν : Type} (order : KeyOrder Peer) (number : ν → ℕ) (s : HashMap Peer ν) :
    Option (Peer × ν) :=
  (order.entries s).argmin fun entry => number entry.2

namespace MembershipSyncHistory

/-- `MembershipSyncHistory::default`. -/
def empty : MembershipSyncHistory Peer := ⟨∅, ∅, none⟩

variable (h : MembershipSyncHistory Peer)

def allows (peer : Peer) (snapshot : String) (now : ℕ) : Bool :=
  (h.completed.get? peer).all (fun completed => completed.snapshot ≠ snapshot) &&
    (h.retryAfter.get? peer).all (fun deadline => deadline ≤ now) &&
    h.overflowRetryAfter.all (fun deadline => deadline ≤ now)

def markCompleted (order : KeyOrder Peer) (peer : Peer) (snapshot : String) (now : ℕ) :
    MembershipSyncHistory Peer :=
  let completed :=
    if (h.completed.get? peer).isNone ∧ capacity ≤ h.completed.keys.card then
      match oldest order CompletedSnapshot.refreshedAt h.completed with
      | some entry => h.completed.remove entry.1
      | none => h.completed
    else h.completed
  { h with
    completed := completed.insert peer ⟨snapshot, now⟩
    retryAfter := h.retryAfter.remove peer }

/-- The first half of `mark_failed`: deadlines that have passed are forgotten, and if that is not
enough, the earliest one is shared by all peers. -/
def makeRoom (order : KeyOrder Peer) (now : ℕ) : Option ℕ × MembershipSyncHistory Peer :=
  let live := h.retryAfter.retain (fun deadline => now < deadline)
  if capacity ≤ live.keys.card then
    match oldest order id live with
    | some (peer, deadline) =>
        let shared := h.overflowRetryAfter.elim deadline (max · deadline)
        (some shared,
          { h with retryAfter := live.remove peer, overflowRetryAfter := some shared })
    | none => (none, { h with retryAfter := live })
  else (none, { h with retryAfter := live })

/-- `mark_failed`, with the shared deadline if it had to be moved. -/
def markFailed (order : KeyOrder Peer) (peer : Peer) (now : ℕ) :
    Option ℕ × MembershipSyncHistory Peer :=
  let room :=
    if (h.retryAfter.get? peer).isNone ∧ capacity ≤ h.retryAfter.keys.card then h.makeRoom order now
    else (none, h)
  (room.1, { room.2 with retryAfter := room.2.retryAfter.insert peer (now + retryDelay) })

/-- The shared deadline may also cover a peer that stays. -/
def retainPeers (authorized : Peer → Bool) : MembershipSyncHistory Peer :=
  { h with
    completed := h.completed.retainKeys authorized
    retryAfter := h.retryAfter.retainKeys authorized }

end MembershipSyncHistory

/-! ## Runs -/

inductive HistoryCall (Peer : Type) where
  | markCompleted (order : KeyOrder Peer) (peer : Peer) (snapshot : String) (now : ℕ)
  | markFailed (order : KeyOrder Peer) (peer : Peer) (now : ℕ)
  | retainPeers (authorized : Peer → Bool)

namespace HistoryCall

def time? : HistoryCall Peer → Option ℕ
  | markCompleted _ _ _ now | markFailed _ _ now => some now
  | retainPeers _ => none

/-- The call ends what was noted about the failure of a peer. -/
def Forgets (peer : Peer) : HistoryCall Peer → Prop
  | markCompleted _ completed _ _ => completed = peer
  | markFailed _ _ _ => False
  | retainPeers authorized => authorized peer = false

def apply (h : MembershipSyncHistory Peer) : HistoryCall Peer → MembershipSyncHistory Peer
  | markCompleted order peer snapshot now => h.markCompleted order peer snapshot now
  | markFailed order peer now => (h.markFailed order peer now).2
  | retainPeers authorized => h.retainPeers authorized

end HistoryCall

/-- The history after some calls. -/
def after (calls : List (HistoryCall Peer)) : MembershipSyncHistory Peer :=
  calls.foldl HistoryCall.apply .empty

/-- The times of some calls. -/
def times (calls : List (HistoryCall Peer)) : List ℕ := calls.filterMap HistoryCall.time?

end Definitions

variable {Peer : Type} [DecidableEq Peer] {h h' : MembershipSyncHistory Peer}

/-! ## Making room -/

lemma get?_of_oldest {ν : Type} {order : KeyOrder Peer} {number : ν → ℕ} {s : HashMap Peer ν}
    {entry : Peer × ν} (holdest : oldest order number s = some entry) :
    s.get? entry.1 = some entry.2 :=
  KeyOrder.mem_entries.mp (List.argmin_mem holdest)

lemma exists_oldest {ν : Type} (order : KeyOrder Peer) (number : ν → ℕ) {s : HashMap Peer ν}
    (hs : 0 < s.keys.card) : ∃ entry, oldest order number s = some entry := by
  obtain ⟨peer, hpeer⟩ := Finset.card_pos.mp hs
  obtain ⟨v, hv⟩ := HashMap.mem_keys.mp hpeer
  refine Option.ne_none_iff_exists'.mp fun hnone => ?_
  have hmem : (peer, v) ∈ order.entries s := KeyOrder.mem_entries.mpr hv
  rw [List.argmin_eq_none.mp hnone] at hmem
  exact List.not_mem_nil hmem

/-- What can become of the deadlines when room is made at some time: those that go have passed or are
covered by the shared deadline, which is always one of the deadlines there have been. -/
structure Roomier (now : ℕ) (h h' : MembershipSyncHistory Peer) : Prop where
  completed : h'.completed = h.completed
  kept : ∀ peer deadline, h'.retryAfter.get? peer = some deadline →
    h.retryAfter.get? peer = some deadline
  covered : ∀ peer deadline, h.retryAfter.get? peer = some deadline →
    h'.retryAfter.get? peer = some deadline ∨ deadline ≤ now ∨
      ∃ shared ∈ h'.overflowRetryAfter, deadline ≤ shared
  raised : ∀ shared ∈ h.overflowRetryAfter, ∃ shared' ∈ h'.overflowRetryAfter, shared ≤ shared'
  taken : ∀ shared ∈ h'.overflowRetryAfter, shared ∈ h.overflowRetryAfter ∨
    ∃ peer, h.retryAfter.get? peer = some shared

lemma Roomier.refl (now : ℕ) (h : MembershipSyncHistory Peer) : Roomier now h h :=
  ⟨rfl, fun _ _ hget => hget, fun _ _ hget => .inl hget, fun old hold => ⟨old, hold, le_rfl⟩,
    fun _ hshared => .inl hshared⟩

lemma makeRoom_spec (h : MembershipSyncHistory Peer) (order : KeyOrder Peer) (now : ℕ) :
    Roomier now h (h.makeRoom order now).2 ∧
      (h.retryAfter.keys.card ≤ capacity → (h.makeRoom order now).2.retryAfter.keys.card < capacity) := by
  let live := h.retryAfter.retain (fun deadline => now < deadline)
  have hlive : ∀ peer deadline, live.get? peer = some deadline ↔
      h.retryAfter.get? peer = some deadline ∧ now < deadline := by
    intro peer deadline
    rw [HashMap.get?_retain, Option.filter_eq_some_iff, decide_eq_true_eq]
  by_cases hfull : capacity ≤ live.keys.card
  · obtain ⟨⟨gone, deadline⟩, holdest⟩ := exists_oldest order id
      (lt_of_lt_of_le (by decide : 0 < capacity) hfull)
    let shared := h.overflowRetryAfter.elim deadline (max · deadline)
    have hroom : (h.makeRoom order now).2
        = { h with retryAfter := live.remove gone, overflowRetryAfter := some shared } := by
      simp only [MembershipSyncHistory.makeRoom, live, if_pos hfull, holdest, shared]
    have hgone : live.get? gone = some deadline := get?_of_oldest holdest
    have hge : deadline ≤ shared ∧ ∀ old ∈ h.overflowRetryAfter, old ≤ shared := by
      cases hold : h.overflowRetryAfter <;> simp [shared, hold]
    rw [hroom]
    refine ⟨⟨rfl, fun peer other hother => ?_, fun peer other hother => ?_,
      fun old hold => ⟨shared, rfl, hge.2 old hold⟩, ?_⟩, fun hcard => ?_⟩
    · rw [HashMap.get?_remove] at hother
      split_ifs at hother
      exact ((hlive _ _).mp hother).1
    · by_cases hpassed : other ≤ now
      · exact .inr (.inl hpassed)
      · have hmem := (hlive peer other).mpr ⟨hother, not_le.mp hpassed⟩
        by_cases heq : peer = gone
        · obtain rfl : deadline = other := by
            rw [heq, hgone] at hmem
            exact Option.some.inj hmem
          exact .inr (.inr ⟨shared, rfl, hge.1⟩)
        · left
          rw [HashMap.get?_remove, if_neg heq]
          exact hmem
    · rintro _ ⟨⟩
      have hbefore := ((hlive _ _).mp hgone).1
      cases hold : h.overflowRetryAfter with
      | none => exact .inr ⟨gone, by simp [shared, hold, hbefore]⟩
      | some old =>
        rcases le_total old deadline with hle | hle
        · exact .inr ⟨gone, by simp [shared, hold, hle, hbefore]⟩
        · exact .inl (by simp [shared, hold, hle])
    · have hle : live.keys.card ≤ h.retryAfter.keys.card := HashMap.card_keys_retain_le _ _
      exact (HashMap.card_keys_remove_lt hgone).trans_le (hle.trans hcard)
  · have hroom : (h.makeRoom order now).2 = { h with retryAfter := live } := by
      simp only [MembershipSyncHistory.makeRoom, live, if_neg hfull]
    rw [hroom]
    refine ⟨⟨rfl, fun peer deadline hget => ((hlive _ _).mp hget).1, fun peer deadline hget => ?_,
      fun old hold => ⟨old, hold, le_rfl⟩, fun shared hshared => .inl hshared⟩,
      fun _ => not_le.mp hfull⟩
    by_cases hpassed : deadline ≤ now
    · exact .inr (.inl hpassed)
    · exact .inl ((hlive _ _).mpr ⟨hget, not_le.mp hpassed⟩)

/-- What a failure does, whether or not room had to be made. -/
lemma markFailed_spec (h : MembershipSyncHistory Peer) (order : KeyOrder Peer) (peer : Peer) (now : ℕ) :
    ∃ room, Roomier now h room ∧
      (h.retryAfter.keys.card ≤ capacity →
        (room.retryAfter.insert peer (now + retryDelay)).keys.card ≤ capacity) ∧
      (h.markFailed order peer now).2
        = { room with retryAfter := room.retryAfter.insert peer (now + retryDelay) } := by
  by_cases hneeded : (h.retryAfter.get? peer).isNone ∧ capacity ≤ h.retryAfter.keys.card
  · obtain ⟨hroomier, hroom⟩ := makeRoom_spec h order now
    refine ⟨_, hroomier, fun hcard => ?_, ?_⟩
    · exact HashMap.card_keys_insert_le _ (hroom hcard).le fun _ => hroom hcard
    · simp only [MembershipSyncHistory.markFailed, if_pos hneeded]
  · refine ⟨h, .refl now h, fun hcard => ?_, ?_⟩
    · exact HashMap.card_keys_insert_le _ hcard fun hget => by simpa [hget] using hneeded
    · simp only [MembershipSyncHistory.markFailed, if_neg hneeded]

/-! ## Every failure is remembered -/

/-- A peer is left alone until a deadline. -/
def Guarded (peer : Peer) (deadline : ℕ) (h : MembershipSyncHistory Peer) : Prop :=
  (∃ own, h.retryAfter.get? peer = some own ∧ deadline ≤ own) ∨
    ∃ shared ∈ h.overflowRetryAfter, deadline ≤ shared

variable {peer : Peer} {deadline : ℕ} {calls : List (HistoryCall Peer)}

lemma Guarded.refused (hguarded : Guarded peer deadline h) {now : ℕ} (hnow : now < deadline)
    (snapshot : String) : h.allows peer snapshot now = false := by
  rcases hguarded with ⟨own, hown, hle⟩ | ⟨shared, hshared, hle⟩
  · have hearly : ¬ own ≤ now := not_le.mpr (hnow.trans_le hle)
    simp [MembershipSyncHistory.allows, hown, hearly]
  · have hearly : ¬ shared ≤ now := not_le.mpr (hnow.trans_le hle)
    simp [MembershipSyncHistory.allows, Option.mem_def.mp hshared, hearly]

/-- A peer is left alone until a deadline that has not come, whatever happens to other peers. -/
lemma Guarded.apply {now : ℕ} (hguarded : Guarded peer deadline h) {call : HistoryCall Peer}
    (hforgets : ¬ call.Forgets peer)
    (htime : ∀ time ∈ call.time?, time ≤ now ∧ deadline ≤ time + retryDelay) (hnow : now < deadline) :
    Guarded peer deadline (call.apply h) := by
  cases call with
  | markCompleted order completed snapshot time =>
    refine hguarded.imp_left fun ⟨own, hown, hle⟩ => ⟨own, ?_, hle⟩
    have hne : peer ≠ completed := fun heq => hforgets heq.symm
    simp [HistoryCall.apply, MembershipSyncHistory.markCompleted, HashMap.get?_remove, hne, hown]
  | markFailed order failed time =>
    obtain ⟨room, hroomier, -, heq⟩ := markFailed_spec h order failed time
    obtain ⟨hpast, hlate⟩ := htime time rfl
    rw [HistoryCall.apply, heq]
    by_cases hpeer : peer = failed
    · exact .inl ⟨_, by rw [hpeer, HashMap.get?_insert_self], hlate⟩
    · rcases hguarded with ⟨own, hown, hle⟩ | ⟨shared, hshared, hle⟩
      · rcases hroomier.covered peer own hown with hkept | hpassed | ⟨shared, hshared, hcovers⟩
        · exact .inl ⟨own, by rw [HashMap.get?_insert_of_ne _ hpeer, hkept], hle⟩
        · omega
        · exact .inr ⟨shared, hshared, hle.trans hcovers⟩
      · obtain ⟨shared', hshared', hraised⟩ := hroomier.raised shared hshared
        exact .inr ⟨shared', hshared', hle.trans hraised⟩
  | retainPeers authorized =>
    refine hguarded.imp_left fun ⟨own, hown, hle⟩ => ⟨own, ?_, hle⟩
    have hstays : authorized peer = true := by simpa [HistoryCall.Forgets] using hforgets
    simp [HistoryCall.apply, MembershipSyncHistory.retainPeers, hstays, hown]

lemma guarded_foldl {now : ℕ} (hguarded : Guarded peer deadline h)
    (hforgets : ∀ call ∈ calls, ¬ call.Forgets peer)
    (htime : ∀ time ∈ times calls, time ≤ now ∧ deadline ≤ time + retryDelay)
    (hnow : now < deadline) :
    Guarded peer deadline (calls.foldl HistoryCall.apply h) := by
  induction calls generalizing h with
  | nil => exact hguarded
  | cons call calls ih =>
    refine ih (hguarded.apply (hforgets call List.mem_cons_self) (fun time hcall => ?_) hnow)
      (fun other hother => hforgets other (List.mem_cons_of_mem _ hother)) fun time hrest => ?_
    · exact htime time (List.mem_filterMap.mpr ⟨call, List.mem_cons_self, hcall⟩)
    · obtain ⟨other, hother, hcall⟩ := List.mem_filterMap.mp hrest
      exact htime time (List.mem_filterMap.mpr ⟨other, List.mem_cons_of_mem _ hother, hcall⟩)

/-! ## Every deadline comes from a failure -/

/-- Some call notes a failure with this deadline. -/
def Failed (calls : List (HistoryCall Peer)) (deadline : ℕ) : Prop :=
  ∃ order peer time, .markFailed order peer time ∈ calls ∧ deadline = time + retryDelay

/-- What holds after some calls. -/
structure Kept (calls : List (HistoryCall Peer)) (h : MembershipSyncHistory Peer) : Prop where
  completed_le : h.completed.keys.card ≤ capacity
  retryAfter_le : h.retryAfter.keys.card ≤ capacity
  own : ∀ peer deadline, h.retryAfter.get? peer = some deadline → Failed calls deadline
  shared : ∀ deadline ∈ h.overflowRetryAfter, Failed calls deadline

omit [DecidableEq Peer] in
lemma Failed.concat (hfailed : Failed calls deadline) (call : HistoryCall Peer) :
    Failed (calls ++ [call]) deadline := by
  obtain ⟨order, peer, time, hmem, heq⟩ := hfailed
  exact ⟨order, peer, time, List.mem_append_left _ hmem, heq⟩

lemma card_markCompleted (order : KeyOrder Peer) (peer : Peer) (snapshot : String) (now : ℕ)
    (hcard : h.completed.keys.card ≤ capacity) :
    (h.markCompleted order peer snapshot now).completed.keys.card ≤ capacity := by
  simp only [MembershipSyncHistory.markCompleted]
  split_ifs with hfull
  · obtain ⟨⟨gone, entry⟩, holdest⟩ := exists_oldest order CompletedSnapshot.refreshedAt
      (lt_of_lt_of_le (by decide : 0 < capacity) hfull.2)
    have hroom := (HashMap.card_keys_remove_lt (get?_of_oldest holdest)).trans_le hcard
    simp only [holdest]
    exact HashMap.card_keys_insert_le _ hroom.le fun _ => hroom
  · exact HashMap.card_keys_insert_le _ hcard fun hget => by simpa [hget] using hfull

lemma Kept.apply (hkept : Kept calls h) (call : HistoryCall Peer) :
    Kept (calls ++ [call]) (call.apply h) := by
  cases call with
  | markCompleted order peer snapshot now =>
    refine ⟨card_markCompleted order peer snapshot now hkept.completed_le, ?_, ?_, ?_⟩
    · simp only [HistoryCall.apply, MembershipSyncHistory.markCompleted, HashMap.keys_remove]
      exact Finset.card_erase_le.trans hkept.retryAfter_le
    · intro other deadline hget
      simp only [HistoryCall.apply, MembershipSyncHistory.markCompleted, HashMap.get?_remove] at hget
      split_ifs at hget
      exact (hkept.own other deadline hget).concat _
    · exact fun deadline hget => (hkept.shared deadline hget).concat _
  | markFailed order peer now =>
    obtain ⟨room, hroomier, hcard, heq⟩ := markFailed_spec h order peer now
    rw [HistoryCall.apply, heq]
    refine ⟨hroomier.completed ▸ hkept.completed_le, hcard hkept.retryAfter_le, ?_, ?_⟩
    · intro other deadline hget
      rw [HashMap.get?_insert] at hget
      split_ifs at hget with hother
      · exact ⟨order, peer, now, by simp, (Option.some.inj hget).symm⟩
      · exact (hkept.own other deadline (hroomier.kept other deadline hget)).concat _
    · intro deadline hshared
      rcases hroomier.taken deadline hshared with hold | ⟨other, hget⟩
      · exact (hkept.shared deadline hold).concat _
      · exact (hkept.own other deadline hget).concat _
  | retainPeers authorized =>
    refine ⟨?_, ?_, ?_, fun deadline hget => (hkept.shared deadline hget).concat _⟩
    · simp only [HistoryCall.apply, MembershipSyncHistory.retainPeers, HashMap.keys_retainKeys]
      exact (Finset.card_filter_le _ _).trans hkept.completed_le
    · simp only [HistoryCall.apply, MembershipSyncHistory.retainPeers, HashMap.keys_retainKeys]
      exact (Finset.card_filter_le _ _).trans hkept.retryAfter_le
    · intro other deadline hget
      simp only [HistoryCall.apply, MembershipSyncHistory.retainPeers, HashMap.get?_retainKeys] at hget
      split_ifs at hget
      exact (hkept.own other deadline hget).concat _

lemma kept_after (calls : List (HistoryCall Peer)) : Kept calls (after calls) := by
  induction calls using List.reverseRecOn with
  | nil => exact ⟨Nat.zero_le _, Nat.zero_le _, by simp [after, MembershipSyncHistory.empty], nofun⟩
  | append_singleton calls call ih =>
    rw [after, List.foldl_append, ← after]
    exact ih.apply call

/-- A refusal that no completed snapshot explains comes from a deadline. -/
lemma exists_deadline_of_refused {snapshot : String} {now : ℕ}
    (hcompleted : ∀ entry, h.completed.get? peer = some entry → entry.snapshot ≠ snapshot)
    (hrefused : h.allows peer snapshot now = false) :
    ∃ deadline, now < deadline ∧
      (h.retryAfter.get? peer = some deadline ∨ deadline ∈ h.overflowRetryAfter) := by
  simp only [MembershipSyncHistory.allows, Bool.and_eq_false_iff, Option.all_eq_false,
    decide_eq_false_iff_not, not_le] at hrefused
  rcases hrefused with (⟨entry, hentry, hsame⟩ | ⟨deadline, hget, hlate⟩) | ⟨deadline, hget, hlate⟩
  · exact absurd (hcompleted entry hentry) hsame
  · exact ⟨deadline, hlate, .inl hget⟩
  · exact ⟨deadline, hlate, .inr hget⟩

/-- **Backoff survives eviction.**  In every run of calls up to a time, a peer whose synchronisation
failed is refused for the whole delay unless it is completed or dropped, although at most `capacity`
entries are kept, and a peer without the snapshot is refused only for a recent failure. -/
theorem sync_backoff_survives_eviction (calls : List (HistoryCall Peer))
    (hchronological : (times calls).Pairwise (· ≤ ·)) (now : ℕ) (hpast : ∀ time ∈ times calls, time ≤ now) :
    ((after calls).completed.keys.card ≤ capacity ∧ (after calls).retryAfter.keys.card ≤ capacity) ∧
      (∀ before order peer time later, calls = before ++ .markFailed order peer time :: later →
        (∀ call ∈ later, ¬ call.Forgets peer) → now < time + retryDelay →
          ∀ snapshot, (after calls).allows peer snapshot now = false) ∧
      ∀ peer snapshot,
        (∀ entry, (after calls).completed.get? peer = some entry → entry.snapshot ≠ snapshot) →
        (after calls).allows peer snapshot now = false →
          ∃ order failed time, .markFailed order failed time ∈ calls ∧
            time ≤ now ∧ now < time + retryDelay := by
  have hkept := kept_after calls
  refine ⟨⟨hkept.completed_le, hkept.retryAfter_le⟩, ?_, ?_⟩
  · rintro before order peer time later rfl hforgets hnow snapshot
    have htimes : times (before ++ .markFailed order peer time :: later)
        = times before ++ time :: times later := List.filterMap_append
    rw [htimes] at hchronological hpast
    have hlater : ∀ u ∈ times later, time ≤ u :=
      (List.pairwise_cons.mp (List.pairwise_append.mp hchronological).2.1).1
    have hguarded : Guarded peer (time + retryDelay)
        (HistoryCall.apply (after before) (.markFailed order peer time)) := by
      obtain ⟨room, -, -, heq⟩ := markFailed_spec (after before) order peer time
      rw [HistoryCall.apply, heq]
      exact .inl ⟨_, HashMap.get?_insert_self _ _ _, le_rfl⟩
    rw [after, List.foldl_append, List.foldl_cons, ← after]
    refine (guarded_foldl hguarded hforgets (fun u hu => ⟨?_, ?_⟩) hnow).refused hnow snapshot
    · exact hpast u (List.mem_append_right _ (List.mem_cons_of_mem _ hu))
    · exact Nat.add_le_add_right (hlater u hu) _
  · intro peer snapshot hcompleted hrefused
    obtain ⟨deadline, hlate, hdeadline⟩ := exists_deadline_of_refused hcompleted hrefused
    have hfailed : Failed calls deadline :=
      hdeadline.elim (hkept.own peer deadline) (hkept.shared deadline)
    obtain ⟨order, failed, time, hmem, rfl⟩ := hfailed
    exact ⟨order, failed, time, hmem, hpast time (List.mem_filterMap.mpr ⟨_, hmem, rfl⟩), hlate⟩

/-- One peer after the other fails, and one more than there are places for. -/
def sampleFailures : List (HistoryCall ℕ) :=
  (List.range (capacity + 1)).map fun n => .markFailed .sorted n n

/-- Every peer that failed is refused, although one of them has no deadline of its own any more. -/
theorem sample_failures_remembered :
    (∀ peer ≤ capacity, (after sampleFailures).allows peer "snapshot" capacity = false) ∧
      ∃ peer ≤ capacity, (after sampleFailures).retryAfter.get? peer = none := by
  have htimes : times sampleFailures = List.range (capacity + 1) := by
    simp [times, sampleFailures, List.filterMap_map, Function.comp_def, HistoryCall.time?]
  obtain ⟨⟨-, hcard⟩, hrefused, -⟩ := sync_backoff_survives_eviction sampleFailures
    (by rw [htimes]; exact List.pairwise_le_range) capacity
    (by rw [htimes]; exact fun time htime => Nat.le_of_lt_succ (List.mem_range.mp htime))
  constructor
  · intro peer hpeer
    obtain ⟨before, later, hsplit⟩ := List.append_of_mem (List.mem_map_of_mem
      (f := fun n => HistoryCall.markFailed KeyOrder.sorted n n)
      (List.mem_range.mpr (Nat.lt_succ_of_le hpeer)))
    refine hrefused before .sorted peer peer later hsplit (fun call hcall => ?_)
      (lt_of_lt_of_le (by decide) (Nat.le_add_left _ _)) "snapshot"
    have hmem : call ∈ sampleFailures := by
      rw [sampleFailures, hsplit]
      exact List.mem_append_right _ (List.mem_cons_of_mem _ hcall)
    obtain ⟨n, -, rfl⟩ := List.mem_map.mp hmem
    exact id
  · by_contra! hkept
    have hsubset : Finset.range (capacity + 1) ⊆ (after sampleFailures).retryAfter.keys := by
      intro peer hpeer
      rw [HashMap.mem_keys]
      exact Option.ne_none_iff_exists'.mp (hkept peer (Nat.le_of_lt_succ (Finset.mem_range.mp hpeer)))
    have hle := (Finset.card_le_card hsubset).trans hcard
    rw [Finset.card_range] at hle
    exact absurd hle (Nat.not_succ_le_self _)

end P2pVpn.SyncHistory
