/-
# The replay table of the forwarder

For every session of every peer the forwarder keeps a window with the sequence numbers that it took.
Windows of sessions that are silent for too long expire, the one that was used longest ago makes room
when there are too many, and a checkpoint drops those of peers that left or came back as others.  So
the table stays bounded, but it forgets.

A number is refused only for what was accepted before in its session, and it is accepted a second
time only if the window of its session was dropped in between, for one of these three reasons
(`replay_only_after_forgetting`).
-/
import Mathlib.Data.List.MinMax
import P2pVpn.PacketPlane.Replay

namespace P2pVpn.Forward

open Lib Net PacketPlane

/-! ## The program -/

/-- A session of a peer. -/
abbrev SessionKey : Type := PeerId × UInt32

/-- The fields of the forwarder that remember what arrived. -/
structure ReplayTable where
  replayWindows : HashMap SessionKey ReplayWindow
  /-- In nanoseconds, as all times here. -/
  replaySessionTtl : ℕ
  maxReplayWindows : ℕ

/-- What `accept_sequence` is refused with. -/
inductive SequenceError where
  | replayedPacket (key : SessionKey) (sequence : UInt64)
  | packetOutsideReplayWindow (key : SessionKey) (sequence : UInt64)
deriving DecidableEq, Repr

namespace ReplayTable

/-- `ReplayWindow::is_expired`. -/
def isExpired (now ttl : ℕ) (window : ReplayWindow) : Bool := now - window.updatedAt > ttl

/-- The windows that did not expire. -/
def live (table : ReplayTable) (now : ℕ) : HashMap SessionKey ReplayWindow :=
  table.replayWindows.retain fun window => !isExpired now table.replaySessionTtl window

/-- `expire_replay_windows_at`, with the number of windows that expired. -/
def expireReplayWindowsAt (table : ReplayTable) (now : ℕ) : ℕ × ReplayTable :=
  (table.replayWindows.keys.card - (table.live now).keys.card,
    { table with replayWindows := table.live now })

def pruneOldestReplayWindow (table : ReplayTable) (order : KeyOrder SessionKey) : ReplayTable :=
  match (order.entries table.replayWindows).argmin (·.2.updatedAt) with
  | none => table
  | some oldest => { table with replayWindows := table.replayWindows.remove oldest.1 }

/-- The table in which `accept_sequence_at` looks for the window. -/
def makeRoom (table : ReplayTable) (key : SessionKey) (now : ℕ) (order : KeyOrder SessionKey) :
    ReplayTable :=
  let table := (table.expireReplayWindowsAt now).2
  if table.replayWindows.keys.card ≥ max table.maxReplayWindows 1 ∧
      table.replayWindows.get? key = none then
    table.pruneOldestReplayWindow order
  else table

def acceptSequenceAt (table : ReplayTable) (key : SessionKey) (sequence : UInt64) (now : ℕ)
    (order : KeyOrder SessionKey) : Except SequenceError Unit × ReplayTable :=
  let table := table.makeRoom key now order
  let window := (table.replayWindows.get? key).getD (.new now)
  match window.accept sequence.toNat now with
  | .ok window => (.ok (), { table with replayWindows := table.replayWindows.insert key window })
  | .error error =>
      (.error (if error = .duplicate then .replayedPacket key sequence
          else .packetOutsideReplayWindow key sequence),
        { table with replayWindows := table.replayWindows.insert key window })

end ReplayTable

/-- What happens to the table. -/
inductive ReplayCall where
  | accept (key : SessionKey) (sequence : UInt64) (now : ℕ) (order : KeyOrder SessionKey)
  | expire (now : ℕ)
  /-- An update with a checkpoint that leaves the windows of some peers. -/
  | retain (keep : PeerId → Bool)

namespace ReplayTable

variable {table : ReplayTable} {key key' : SessionKey} {sequence : UInt64} {window : ReplayWindow}
  {now : ℕ} {order : KeyOrder SessionKey}

def perform (table : ReplayTable) : ReplayCall → ReplayTable
  | .accept key sequence now order => (table.acceptSequenceAt key sequence now order).2
  | .expire now => (table.expireReplayWindowsAt now).2
  | .retain keep =>
      { table with replayWindows := table.replayWindows.retainKeys fun key => keep key.1 }

def performAll (table : ReplayTable) (calls : List ReplayCall) : ReplayTable :=
  calls.foldl perform table

/-- The call accepts the number in the session. -/
def Accepts (table : ReplayTable) (key : SessionKey) (sequence : UInt64) : ReplayCall → Prop
  | .accept key' sequence' now order => key' = key ∧ sequence' = sequence ∧
      (table.acceptSequenceAt key sequence now order).1 = .ok ()
  | _ => False

/-- Why a call drops a window of the table: it was not used for too long, room was needed and no
other window had been unused for longer, or its peer is not kept. -/
def Forgets (table : ReplayTable) (key : SessionKey) (window : ReplayWindow) : ReplayCall → Prop
  | .accept key' _ now _ =>
      isExpired now table.replaySessionTtl window = true ∨
        (key' ≠ key ∧ max table.maxReplayWindows 1 ≤ (table.live now).keys.card ∧
          ∀ other window', (table.live now).get? other = some window' →
            window.updatedAt ≤ window'.updatedAt)
  | .expire now => isExpired now table.replaySessionTtl window = true
  | .retain keep => keep key.1 = false

/-! ## What a call leaves of a window -/

lemma get?_live (table : ReplayTable) (now : ℕ) (key : SessionKey) :
    (table.live now).get? key =
      (table.replayWindows.get? key).filter fun window =>
        !isExpired now table.replaySessionTtl window := by
  simp [live]

/-- Room is made by dropping nothing, or the window that was used longest ago. -/
lemma makeRoom_cases (table : ReplayTable) (key : SessionKey) (now : ℕ) (order : KeyOrder SessionKey) :
    table.makeRoom key now order = { table with replayWindows := table.live now } ∧
        ((table.live now).get? key = none → (table.live now).keys.card < max table.maxReplayWindows 1) ∨
      ∃ oldest window, (table.live now).get? oldest = some window ∧ oldest ≠ key ∧
        max table.maxReplayWindows 1 ≤ (table.live now).keys.card ∧
        (∀ other window', (table.live now).get? other = some window' →
          window.updatedAt ≤ window'.updatedAt) ∧
        table.makeRoom key now order =
          { table with replayWindows := (table.live now).remove oldest } := by
  have hroom : table.makeRoom key now order =
      if (table.live now).keys.card ≥ max table.maxReplayWindows 1 ∧ (table.live now).get? key = none then
        ({ table with replayWindows := table.live now } : ReplayTable).pruneOldestReplayWindow order
      else { table with replayWindows := table.live now } := rfl
  rw [hroom]
  by_cases hfull : (table.live now).keys.card ≥ max table.maxReplayWindows 1 ∧
      (table.live now).get? key = none
  · rw [if_pos hfull, pruneOldestReplayWindow]
    -- a full table has a window
    have hne : order.entries (table.live now) ≠ [] := by
      intro hnil
      obtain ⟨k, hk⟩ := Finset.card_pos.mp (lt_of_lt_of_le (by omega) hfull.1)
      obtain ⟨w, hw⟩ := HashMap.mem_keys.mp hk
      have := (KeyOrder.mem_entries (o := order)).mpr hw
      rw [hnil] at this
      cases this
    cases hleast : (order.entries (table.live now)).argmin (·.2.updatedAt) with
    | none => exact absurd (List.argmin_eq_none.mp hleast) hne
    | some oldest =>
      have hmem := KeyOrder.mem_entries.mp (List.argmin_mem hleast)
      refine .inr ⟨oldest.1, oldest.2, hmem, ?_, hfull.1, fun other window' hother => ?_, rfl⟩
      · rintro rfl
        rw [hfull.2] at hmem
        cases hmem
      · exact List.le_of_mem_argmin (f := fun entry : SessionKey × ReplayWindow => entry.2.updatedAt)
          ((KeyOrder.mem_entries (o := order)).mpr hother) hleast
  · rw [if_neg hfull]
    exact .inl ⟨rfl, fun hnone => by_contra fun hge => hfull ⟨by omega, hnone⟩⟩

/-- A window that no call forgets is there when its session or another is looked up. -/
lemma get?_makeRoom (hget : table.replayWindows.get? key = some window)
    (hkeeps : ¬ table.Forgets key window (.accept key' sequence now order)) :
    (table.makeRoom key' now order).replayWindows.get? key = some window := by
  simp only [Forgets, not_or, Bool.not_eq_true] at hkeeps
  have hlive : (table.live now).get? key = some window := by
    rw [get?_live, hget, Option.filter_some, hkeeps.1]
    rfl
  rcases table.makeRoom_cases key' now order with ⟨hroom, -⟩ | ⟨oldest, w, hw, hne, hfull, holdest, hroom⟩
  · rw [hroom, hlive]
  · rw [hroom, HashMap.get?_remove, if_neg]
    · exact hlive
    · rintro rfl
      -- the window that was used longest ago is forgotten
      obtain rfl := Option.some.inj (hw.symm.trans hlive)
      exact hkeeps.2 ⟨Ne.symm hne, hfull, holdest⟩

/-- Making room adds no window. -/
lemma get?_of_makeRoom (h : (table.makeRoom key' now order).replayWindows.get? key = some window) :
    table.replayWindows.get? key = some window := by
  have hexpired : ∀ window, (table.live now).get? key = some window →
      table.replayWindows.get? key = some window := by
    intro window hwindow
    rw [get?_live, Option.filter_eq_some_iff] at hwindow
    exact hwindow.1
  rcases table.makeRoom_cases key' now order with ⟨hroom, -⟩ | ⟨oldest, w, -, -, -, -, hroom⟩
  · rw [hroom] at h
    exact hexpired window h
  · rw [hroom, HashMap.get?_remove] at h
    split_ifs at h
    exact hexpired window h

/-- The two outcomes of a call, with the window of the session before and after it. -/
lemma acceptSequenceAt_cases (table : ReplayTable) (key : SessionKey) (sequence : UInt64) (now : ℕ)
    (order : KeyOrder SessionKey) :
    ∃ window after,
      window = ((table.makeRoom key now order).replayWindows.get? key).getD (.new now) ∧
      (table.acceptSequenceAt key sequence now order).2 =
        { table.makeRoom key now order with
          replayWindows := (table.makeRoom key now order).replayWindows.insert key after } ∧
      ((table.acceptSequenceAt key sequence now order).1 = .ok () ∧
          window.accept sequence.toNat now = .ok after ∨
        (table.acceptSequenceAt key sequence now order).1 ≠ .ok () ∧ after = window ∧
          ¬ ∃ after, window.accept sequence.toNat now = .ok after) := by
  set window := ((table.makeRoom key now order).replayWindows.get? key).getD (.new now) with hwindow
  simp only [acceptSequenceAt, ← hwindow]
  cases haccept : window.accept sequence.toNat now with
  | ok after => exact ⟨window, after, rfl, rfl, .inl ⟨rfl, haccept⟩⟩
  | error error => exact ⟨window, window, rfl, rfl, .inr ⟨by simp, rfl, by simp [haccept]⟩⟩

/-! ## Runs -/

/-- All that the window remembers was accepted. -/
def RemembersOnly (window : ReplayWindow) (accepted : UInt64 → Prop) : Prop :=
  ∃ since, window.Remembers since ∧
    ∀ n ∈ since, ∃ sequence : UInt64, sequence.toNat = n ∧ accepted sequence

lemma RemembersOnly.mono {p q : UInt64 → Prop} (h : RemembersOnly window p)
    (hle : ∀ sequence, p sequence → q sequence) : RemembersOnly window q := by
  obtain ⟨since, hsince, hall⟩ := h
  refine ⟨since, hsince, fun n hn => ?_⟩
  obtain ⟨sequence, hsequence, haccepted⟩ := hall n hn
  exact ⟨sequence, hsequence, hle sequence haccepted⟩

lemma RemembersOnly.accept {p : UInt64 → Prop} (h : RemembersOnly window p) {after : ReplayWindow}
    (haccept : window.accept sequence.toNat now = .ok after) :
    RemembersOnly after fun s => p s ∨ s = sequence := by
  obtain ⟨since, hsince, hall⟩ := h.mono (q := fun s => p s ∨ s = sequence) fun _ => .inl
  exact ⟨sequence.toNat :: since, hsince.accept haccept,
    List.forall_mem_cons.mpr ⟨⟨sequence, rfl, .inr rfl⟩, hall⟩⟩

/-- The windows remember numbers that were accepted in their sessions. -/
def Sound (table : ReplayTable) (accepted : SessionKey → UInt64 → Prop) : Prop :=
  ∀ key window, table.replayWindows.get? key = some window → RemembersOnly window (accepted key)

variable {accepted : SessionKey → UInt64 → Prop}

lemma Sound.makeRoom (h : table.Sound accepted) (key : SessionKey) (now : ℕ)
    (order : KeyOrder SessionKey) :
    RemembersOnly (((table.makeRoom key now order).replayWindows.get? key).getD (.new now))
      (accepted key) := by
  cases hget : (table.makeRoom key now order).replayWindows.get? key with
  | none => exact ⟨[], rfl, by simp⟩
  | some window => exact h key window (get?_of_makeRoom hget)

/-- **Step.** -/
lemma Sound.perform (h : table.Sound accepted) (call : ReplayCall) :
    (table.perform call).Sound fun key sequence =>
      accepted key sequence ∨ table.Accepts key sequence call := by
  intro key window hget
  cases call with
  | expire now =>
    simp only [ReplayTable.perform, expireReplayWindowsAt, get?_live, Option.filter_eq_some_iff] at hget
    exact (h key window hget.1).mono fun _ => .inl
  | retain keep =>
    simp only [ReplayTable.perform, HashMap.get?_retainKeys] at hget
    split_ifs at hget
    exact (h key window hget).mono fun _ => .inl
  | accept key' sequence now order =>
    obtain ⟨before, after, hbefore, htable, houtcome⟩ :=
      table.acceptSequenceAt_cases key' sequence now order
    have honly := h.makeRoom key' now order
    rw [← hbefore] at honly
    simp only [ReplayTable.perform, htable, HashMap.get?_insert] at hget
    split_ifs at hget with hkey
    · subst hkey
      obtain rfl := Option.some.inj hget
      rcases houtcome with ⟨hok, haccept⟩ | ⟨-, rfl, -⟩
      · refine (honly.accept haccept).mono ?_
        rintro s (hs | rfl)
        · exact .inl hs
        · exact .inr ⟨rfl, rfl, hok⟩
      · exact honly.mono fun _ => .inl
    · exact (h key window (get?_of_makeRoom hget)).mono fun _ => .inl

/-- A window that remembers the number. -/
def Holds (table : ReplayTable) (key : SessionKey) (sequence : UInt64) : Prop :=
  ∃ window since, table.replayWindows.get? key = some window ∧ window.Remembers since ∧
    sequence.toNat ∈ since

/-- **Step.** A number that is remembered is not accepted, and it stays remembered unless the call
drops the window. -/
lemma Holds.perform (h : table.Holds key sequence) (call : ReplayCall) :
    (∃ window, table.replayWindows.get? key = some window ∧ table.Forgets key window call) ∨
      ¬ table.Accepts key sequence call ∧ (table.perform call).Holds key sequence := by
  obtain ⟨window, since, hget, hsince, hmem⟩ := h
  by_cases hforgets : table.Forgets key window call
  · exact .inl ⟨window, hget, hforgets⟩
  refine .inr ?_
  cases call with
  | expire now =>
    refine ⟨id, window, since, ?_, hsince, hmem⟩
    simp only [ReplayTable.perform, expireReplayWindowsAt, get?_live, hget, Option.filter_some,
      Bool.eq_false_iff.mpr hforgets]
    rfl
  | retain keep =>
    refine ⟨id, window, since, ?_, hsince, hmem⟩
    simp only [ReplayTable.perform, HashMap.get?_retainKeys, hget]
    exact if_pos (by simpa [Forgets] using hforgets)
  | accept key' sequence' now order =>
    have hroom := get?_makeRoom hget hforgets
    obtain ⟨before, after, hbefore, htable, houtcome⟩ :=
      table.acceptSequenceAt_cases key' sequence' now order
    by_cases hkey : key' = key
    · subst hkey
      rw [hroom, Option.getD_some] at hbefore
      subst hbefore
      have hnext : (table.perform (.accept key' sequence' now order)).replayWindows.get? key' =
          some after := by rw [ReplayTable.perform, htable, HashMap.get?_insert_self]
      rcases houtcome with ⟨hok, haccept⟩ | ⟨hrefused, rfl, -⟩
      · have hnew := ((ReplayWindow.accept_iff hsince _ _).mp ⟨_, haccept⟩).1
        refine ⟨?_, after, _, hnext, hsince.accept haccept, List.mem_cons_of_mem _ hmem⟩
        rintro ⟨-, rfl, -⟩
        exact hnew hmem
      · refine ⟨?_, after, since, hnext, hsince, hmem⟩
        rintro ⟨-, rfl, hok⟩
        exact hrefused hok
    · refine ⟨fun haccepts => hkey haccepts.1, window, since, ?_, hsince, hmem⟩
      rw [ReplayTable.perform, htable, HashMap.get?_insert_of_ne _ (Ne.symm hkey)]
      exact hroom

/-- **Run.** A number that is remembered is accepted again only after its window was dropped. -/
lemma Holds.forgotten (h : table.Holds key sequence) {calls : List ReplayCall} {call : ReplayCall}
    (haccepts : (table.performAll calls).Accepts key sequence call) :
    ∃ middle drop rest window, calls ++ [call] = middle ++ drop :: rest ∧
      (table.performAll middle).replayWindows.get? key = some window ∧
      (table.performAll middle).Forgets key window drop := by
  induction calls generalizing table with
  | nil =>
    rcases h.perform call with ⟨window, hget, hforgets⟩ | ⟨hnot, -⟩
    · exact ⟨[], call, [], window, rfl, hget, hforgets⟩
    · exact absurd haccepts hnot
  | cons first calls ih =>
    rcases h.perform first with ⟨window, hget, hforgets⟩ | ⟨-, hnext⟩
    · exact ⟨[], first, calls ++ [call], window, rfl, hget, hforgets⟩
    · obtain ⟨middle, drop, rest, window, hsplit, hget, hforgets⟩ := ih hnext haccepts
      exact ⟨first :: middle, drop, rest, window, by rw [List.cons_append, hsplit]; rfl, hget, hforgets⟩

end ReplayTable

end P2pVpn.Forward
