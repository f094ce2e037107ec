/-
# Replay windows are exact

Forwarder and packet plane each remember, for a session, the highest sequence number that they took
and which of the 63 below it.  A number is taken exactly when it was not taken before and is not more
than that far behind (`ReplayWindow.accept_iff`), so none is taken twice.  The windows of the program
work on `u64`; `U64Window` has its checked arithmetic, and agrees with the windows of `Session`
(`U64Window.acceptWithin_eq`).
-/
import P2pVpn.Lib.SlidingWindow
import P2pVpn.PacketPlane.Session

namespace P2pVpn.PacketPlane

open Lib

/-! ## The windows of the program -/

/-- A refusal, or an operation that overflows. -/
inductive AcceptFault where
  | refused (error : ReplayAcceptError)
  | overflow
deriving DecidableEq, Repr

def checkedSub (a b : UInt64) : Except AcceptFault UInt64 :=
  if b ≤ a then .ok (a - b) else .error .overflow

def checkedShl (a shift : UInt64) : Except AcceptFault UInt64 :=
  if shift < 64 then .ok (a <<< shift) else .error .overflow

/-- The fields of `ReplayWindow` and of `PacketPlaneReplayWindow`. -/
structure U64Window where
  highest : Option UInt64
  seen : UInt64
  updatedAt : ℕ
deriving DecidableEq, Repr

namespace U64Window

def new (now : ℕ) : U64Window := ⟨none, 0, now⟩

/-- What `accept` writes, for a window of the given size; it writes nothing when it fails. -/
def acceptWithin (bits : UInt64) (window : U64Window) (sequence : UInt64) (now : ℕ) :
    Except AcceptFault U64Window :=
  match window.highest with
  | none => .ok ⟨some sequence, 1, now⟩
  | some highest =>
      if sequence > highest then do
        let shift ← checkedSub sequence highest
        let seen ←
          if shift ≥ bits then pure 1
          else do
            let shifted ← checkedShl window.seen shift
            pure (shifted ||| 1)
        pure ⟨some sequence, seen, now⟩
      else do
        let offset ← checkedSub highest sequence
        refuseIf (offset ≥ bits) (.refused .tooOld)
        let bit ← checkedShl 1 offset
        refuseIf (window.seen &&& bit ≠ 0) (.refused .duplicate)
        pure ⟨some highest, window.seen ||| bit, now⟩

/-- A call: its outcome, and the window after it. -/
def call (accept : U64Window → UInt64 → ℕ → Except AcceptFault U64Window) (window : U64Window)
    (sequence : UInt64) (now : ℕ) : Except AcceptFault Unit × U64Window :=
  match accept window sequence now with
  | .ok window => (.ok (), window)
  | .error fault => (.error fault, window)

/-- The window after some calls, and the numbers that were accepted, the last one first. -/
def calls (accept : U64Window → UInt64 → ℕ → Except AcceptFault U64Window) :
    U64Window → List (UInt64 × ℕ) → U64Window × List UInt64
  | window, [] => (window, [])
  | window, (sequence, now) :: rest =>
      let outcome := call accept window sequence now
      let after := calls accept outcome.2 rest
      (after.1, after.2 ++ if outcome.1 = .ok () then [sequence] else [])

end U64Window

/-- `ReplayWindow::accept` of the forwarder. -/
def forwarderAccept : U64Window → UInt64 → ℕ → Except AcceptFault U64Window :=
  U64Window.acceptWithin 64

/-- `PacketPlaneReplayWindow::accept`. -/
def packetPlaneAccept : U64Window → UInt64 → ℕ → Except AcceptFault U64Window :=
  U64Window.acceptWithin 64

/-! ## Exactness -/

namespace ReplayWindow

/-- The window remembers the numbers that were accepted. -/
def Remembers (window : ReplayWindow) (accepted : List ℕ) : Prop :=
  match window.highest with
  | none => accepted = []
  | some highest => Lib.Remembers highest window.seen accepted

variable {window after : ReplayWindow} {accepted : List ℕ} {sequence now : ℕ}

/-- A number is accepted exactly when it is new and not too far behind. -/
lemma accept_iff (h : window.Remembers accepted) (sequence now : ℕ) :
    (∃ after, window.accept sequence now = .ok after) ↔
      sequence ∉ accepted ∧ ∀ n ∈ accepted, n < sequence + 64 := by
  cases hhighest : window.highest with
  | none =>
      simp only [Remembers, hhighest] at h
      simp [accept, hhighest, h]
  | some highest =>
      simp only [Remembers, hhighest] at h
      simp only [accept, hhighest]
      have hbound : (∀ n ∈ accepted, n < sequence + 64) ↔ highest < sequence + 64 :=
        ⟨fun hall => hall highest h.mem, fun hlt n hn => (h.le n hn).trans_lt hlt⟩
      rw [hbound]
      by_cases hgt : sequence > highest
      · rw [if_pos hgt]
        refine iff_of_true ⟨_, rfl⟩ ⟨fun hmem => ?_, by omega⟩
        have := h.le _ hmem
        omega
      · rw [if_neg hgt]
        by_cases hold : highest - sequence ≥ replayWindowBits
        · rw [if_pos hold]
          simp only [replayWindowBits] at hold
          exact iff_of_false (by simp) fun hand => by omega
        · have hcovers : highest - sequence < 64 := by simpa [replayWindowBits] using hold
          have hseen := h.and_shiftLeft_ne_zero (by omega) hcovers
          rw [if_neg hold]
          split_ifs with hset
          · exact iff_of_false (by simp) fun hand => hand.1 (hseen.mp hset)
          · exact iff_of_true ⟨_, rfl⟩ ⟨hseen.not.mp hset, by omega⟩

/-- What an accepted number leaves. -/
lemma Remembers.accept (h : window.Remembers accepted)
    (haccept : window.accept sequence now = .ok after) : after.Remembers (sequence :: accepted) := by
  cases hhighest : window.highest with
  | none =>
      simp only [Remembers, hhighest] at h
      simp only [ReplayWindow.accept, hhighest, Except.ok.injEq] at haccept
      subst haccept h
      exact remembers_singleton sequence
  | some highest =>
      simp only [Remembers, hhighest] at h
      simp only [ReplayWindow.accept, hhighest] at haccept
      by_cases hgt : sequence > highest
      · rw [if_pos hgt] at haccept
        obtain rfl := Except.ok.inj haccept
        exact h.advance hgt
      · rw [if_neg hgt] at haccept
        split_ifs at haccept with hold hseen
        obtain rfl := Except.ok.inj haccept
        exact h.mark (by omega) (by simpa [replayWindowBits] using hold)

end ReplayWindow

/-! ## The windows agree -/

namespace U64Window

/-- The window as one of natural numbers. -/
def nat (window : U64Window) : ReplayWindow :=
  ⟨window.highest.map (·.toNat), window.seen.toBitVec, window.updatedAt⟩

lemma checkedSub_eq {a b : UInt64} (h : b.toNat ≤ a.toNat) :
    ∃ difference, checkedSub a b = .ok difference ∧ difference.toNat = a.toNat - b.toNat :=
  ⟨a - b, if_pos (UInt64.le_iff_toNat_le.mpr h), UInt64.toNat_sub_of_le _ _ (UInt64.le_iff_toNat_le.mpr h)⟩

lemma checkedShl_eq {a shift : UInt64} (h : shift.toNat < 64) :
    ∃ shifted, checkedShl a shift = .ok shifted ∧
      shifted.toBitVec = a.toBitVec <<< shift.toNat := by
  refine ⟨a <<< shift, if_pos (UInt64.lt_iff_toNat_lt.mpr h), ?_⟩
  rw [UInt64.toBitVec_shiftLeft]
  simp [Nat.mod_eq_of_lt h]

/-- The checked arithmetic computes what the window of natural numbers does, and never overflows. -/
lemma acceptWithin_eq (window : U64Window) (sequence : UInt64) (now : ℕ) :
    match window.nat.accept sequence.toNat now with
    | .ok accepted => ∃ after, acceptWithin 64 window sequence now = .ok after ∧ after.nat = accepted
    | .error error => acceptWithin 64 window sequence now = .error (.refused error) := by
  obtain ⟨highest, seen, updatedAt⟩ := window
  cases highest with
  | none => exact ⟨_, rfl, rfl⟩
  | some highest =>
      rw [show nat ⟨some highest, seen, updatedAt⟩ = ⟨some highest.toNat, seen.toBitVec, updatedAt⟩
        from rfl]
      simp only [ReplayWindow.accept, acceptWithin, gt_iff_lt, UInt64.lt_iff_toNat_lt]
      by_cases hgt : highest.toNat < sequence.toNat
      · obtain ⟨shift, hshift, hnat⟩ := checkedSub_eq hgt.le
        rw [if_pos hgt, if_pos hgt, hshift, ← hnat]
        by_cases hfar : shift.toNat ≥ replayWindowBits
        · have hbits : shift ≥ 64 := UInt64.le_iff_toNat_le.mpr hfar
          exact ⟨⟨some sequence, 1, now⟩, by simp [bind, Except.bind, pure, Except.pure, hbits],
            by simp [nat, hfar]⟩
        · have hbits : ¬ shift ≥ 64 := fun hle => hfar (UInt64.le_iff_toNat_le.mp hle)
          obtain ⟨shifted, hshifted, hseen⟩ := @checkedShl_eq seen shift (Nat.lt_of_not_le hfar)
          exact ⟨⟨some sequence, shifted ||| 1, now⟩,
            by simp [bind, Except.bind, pure, Except.pure, hbits, hshifted],
            by simp [nat, hfar, hseen]⟩
      · obtain ⟨offset, hoffset, hnat⟩ := checkedSub_eq (Nat.le_of_not_lt hgt)
        rw [if_neg hgt, if_neg hgt, hoffset, ← hnat]
        by_cases hold : offset.toNat ≥ replayWindowBits
        · have hbits : offset ≥ 64 := UInt64.le_iff_toNat_le.mpr hold
          simp [bind, Except.bind, refuseIf, hbits, hold]
        · have hbits : ¬ offset ≥ 64 := fun hle => hold (UInt64.le_iff_toNat_le.mp hle)
          obtain ⟨bit, hbit, hseen⟩ := @checkedShl_eq 1 offset (Nat.lt_of_not_le hold)
          have hand : seen.toBitVec &&& 1 <<< offset.toNat = (seen &&& bit).toBitVec := by
            rw [UInt64.toBitVec_and, hseen]
            rfl
          have hzero : (seen &&& bit).toBitVec ≠ 0 ↔ seen &&& bit ≠ 0 :=
            not_congr ⟨fun h => UInt64.toBitVec_inj.mp h, fun h => by rw [h]; rfl⟩
          rw [← hand] at hzero
          rw [if_neg hold]
          by_cases hset : seen &&& bit ≠ 0
          · rw [if_pos (hzero.mpr hset)]
            simp [bind, Except.bind, refuseIf, hbits, hbit, hset]
          · rw [if_neg (hzero.not.mpr hset)]
            refine ⟨⟨some highest, seen ||| bit, now⟩, ?_, by rw [nat, UInt64.toBitVec_or, hseen]; rfl⟩
            simp [bind, Except.bind, pure, Except.pure, refuseIf, hbits, hbit, not_not.mp hset]

/-- What a call does to a window that remembers the numbers. -/
lemma call_exact {window : U64Window} {accepted : List UInt64}
    (h : window.nat.Remembers (accepted.map (·.toNat))) (sequence : UInt64) (now : ℕ) :
    ((window.call (acceptWithin 64) sequence now).1 = .ok () ↔
      sequence ∉ accepted ∧ ∀ n ∈ accepted, (n.toNat : ℤ) - 64 < sequence.toNat) ∧
    ((window.call (acceptWithin 64) sequence now).1 ≠ .ok () →
      (window.call (acceptWithin 64) sequence now).2 = window) ∧
    (window.call (acceptWithin 64) sequence now).1 ≠ .error .overflow := by
  have hmem : sequence.toNat ∈ accepted.map (·.toNat) ↔ sequence ∈ accepted := by
    simp [List.mem_map, UInt64.toNat_inj]
  have hbound : (∀ n ∈ accepted, n.toNat < sequence.toNat + 64) ↔
      ∀ n ∈ accepted, (n.toNat : ℤ) - 64 < sequence.toNat :=
    forall₂_congr fun n _ => by omega
  have hexact := ReplayWindow.accept_iff h sequence.toNat now
  rw [hmem, List.forall_mem_map, hbound] at hexact
  have hagree := acceptWithin_eq window sequence now
  rw [← hexact]
  simp only [call]
  cases haccept : window.nat.accept sequence.toNat now with
  | error error =>
      rw [haccept] at hagree
      simp [hagree]
  | ok accepted =>
      rw [haccept] at hagree
      obtain ⟨after, hafter, -⟩ := hagree
      simp [hafter]

/-- The numbers that the calls have accepted are those that the window remembers, each once. -/
lemma remembers_calls {window : U64Window} {accepted : List UInt64}
    (h : window.nat.Remembers (accepted.map (·.toNat))) (hnodup : accepted.Nodup)
    (history : List (UInt64 × ℕ)) :
    (calls (acceptWithin 64) window history).1.nat.Remembers
        (((calls (acceptWithin 64) window history).2 ++ accepted).map (·.toNat)) ∧
      ((calls (acceptWithin 64) window history).2 ++ accepted).Nodup := by
  induction history generalizing window accepted with
  | nil => exact ⟨h, hnodup⟩
  | cons event rest ih =>
      obtain ⟨sequence, now⟩ := event
      have hagree := acceptWithin_eq window sequence now
      simp only [calls, call]
      cases haccept : window.nat.accept sequence.toNat now with
      | error error =>
          rw [haccept] at hagree
          simp only [hagree, reduceCtorEq, if_false, List.append_nil]
          exact ih h hnodup
      | ok nat =>
          rw [haccept] at hagree
          obtain ⟨after, hafter, rfl⟩ := hagree
          have hnew := ((ReplayWindow.accept_iff h _ _).mp ⟨_, haccept⟩).1
          simp only [hafter, if_true, List.append_assoc, List.singleton_append]
          refine ih (h.accept haccept) (List.nodup_cons.mpr ⟨fun hmem => hnew ?_, hnodup⟩)
          exact List.mem_map_of_mem hmem

end U64Window

/-! ## Sessions -/

section Sessions

variable {E : Type}

/-- The datagrams that a session accepts one after the other, the last one first, by session
identifier and sequence number. -/
def Session.acceptedDatagrams (session : Session E) :
    List (Frame × ℕ × KeyOrder ℕ) → List (ℕ × ℕ)
  | [] => []
  | (frame, now, order) :: rest =>
      match session.acceptDatagramAt frame now order with
      | .ok after => after.acceptedDatagrams rest ++ [(frame.sessionId, frame.sequence)]
      | .error _ => session.acceptedDatagrams rest

/-- The sequence numbers of a session identifier. -/
def sequencesOf (accepted : List (ℕ × ℕ)) (sessionId : ℕ) : List ℕ :=
  (accepted.filter (·.1 = sessionId)).map (·.2)

/-- The windows of a session remember what was accepted. -/
def Session.Remembers (session : Session E) (accepted : List (ℕ × ℕ)) : Prop :=
  ∀ sessionId, ((session.replayWindows.get? sessionId).getD (.new 0)).Remembers
    (sequencesOf accepted sessionId)

lemma sequencesOf_cons_self (sessionId sequence : ℕ) (accepted : List (ℕ × ℕ)) :
    sequencesOf ((sessionId, sequence) :: accepted) sessionId =
      sequence :: sequencesOf accepted sessionId := by
  simp [sequencesOf]

lemma sequencesOf_cons_of_ne {sessionId other : ℕ} (h : sessionId ≠ other) (sequence : ℕ)
    (accepted : List (ℕ × ℕ)) :
    sequencesOf ((sessionId, sequence) :: accepted) other = sequencesOf accepted other := by
  simp [sequencesOf, h]

lemma mem_sequencesOf {accepted : List (ℕ × ℕ)} {sessionId sequence : ℕ} :
    sequence ∈ sequencesOf accepted sessionId ↔ (sessionId, sequence) ∈ accepted := by
  simp only [sequencesOf, List.mem_map, List.mem_filter, decide_eq_true_eq]
  constructor
  · rintro ⟨⟨_, _⟩, ⟨hmem, rfl⟩, rfl⟩
    exact hmem
  · exact fun hmem => ⟨_, ⟨hmem, rfl⟩, rfl⟩

variable {session after : Session E} {accepted : List (ℕ × ℕ)} {frame : Frame} {now : ℕ}
  {order : KeyOrder ℕ}

/-- A datagram that is accepted is new; its window remembers it, and no window is pruned as long as
there is room. -/
lemma Session.Remembers.accept (h : session.Remembers accepted)
    (hroom : session.replayWindows.get? frame.sessionId = none →
      session.replayWindows.keys.card < session.maxReplayWindows)
    (haccept : session.acceptDatagramAt frame now order = .ok after) :
    (frame.sessionId, frame.sequence) ∉ accepted ∧
      after.Remembers ((frame.sessionId, frame.sequence) :: accepted) ∧
      after.replayWindows.keys = insert frame.sessionId session.replayWindows.keys ∧
      after.maxReplayWindows = session.maxReplayWindows := by
  have hkeep : ¬ (session.replayWindows.keys.card ≥ session.maxReplayWindows ∧
      session.replayWindows.get? frame.sessionId = none) :=
    fun hprune => absurd (hroom hprune.2) (Nat.not_lt.mpr hprune.1)
  simp only [Session.acceptDatagramAt, if_neg hkeep] at haccept
  cases hwindow : ((session.replayWindows.get? frame.sessionId).getD (.new now)).accept
      frame.sequence now with
  | error error => cases error <;> exact absurd (hwindow ▸ haccept) (by simp)
  | ok window =>
      rw [hwindow] at haccept
      obtain rfl := Except.ok.inj haccept
      have hold : ((session.replayWindows.get? frame.sessionId).getD (.new now)).Remembers
          (sequencesOf accepted frame.sessionId) := by
        have hthis := h frame.sessionId
        cases hget : session.replayWindows.get? frame.sessionId with
        | none =>
            rw [hget] at hthis
            exact hthis
        | some window =>
            rw [hget] at hthis
            exact hthis
      refine ⟨fun hmem => ?_, fun sessionId => ?_, ?_, rfl⟩
      · exact ((ReplayWindow.accept_iff hold _ _).mp ⟨_, hwindow⟩).1 (mem_sequencesOf.mpr hmem)
      · by_cases heq : frame.sessionId = sessionId
        · subst heq
          rw [HashMap.get?_insert_self, sequencesOf_cons_self]
          exact hold.accept hwindow
        · rw [HashMap.get?_insert_of_ne _ (Ne.symm heq), sequencesOf_cons_of_ne heq]
          exact h sessionId
      · ext sessionId
        rw [HashMap.mem_keys, Finset.mem_insert, HashMap.mem_keys]
        by_cases heq : sessionId = frame.sessionId
        · subst heq
          simp
        · simp [HashMap.get?_insert_of_ne _ heq, heq]

/-- **Run.** With room for all session identifiers, no datagram is accepted twice. -/
lemma Session.Remembers.nodup (h : session.Remembers accepted) (hnodup : accepted.Nodup)
    {datagrams : List (Frame × ℕ × KeyOrder ℕ)}
    (hroom : (session.replayWindows.keys ∪ (datagrams.map (·.1.sessionId)).toFinset).card ≤
      session.maxReplayWindows) :
    (session.acceptedDatagrams datagrams ++ accepted).Nodup := by
  induction datagrams generalizing session accepted with
  | nil => exact hnodup
  | cons datagram rest ih =>
      obtain ⟨frame, now, order⟩ := datagram
      simp only [List.map_cons, List.toFinset_cons] at hroom
      simp only [Session.acceptedDatagrams]
      cases haccept : session.acceptDatagramAt frame now order with
      | error error =>
          refine ih h hnodup ((Finset.card_le_card ?_).trans hroom)
          exact Finset.union_subset_union_right (Finset.subset_insert ..)
      | ok after =>
          -- a new identifier takes one of the places that are left
          have hplace : session.replayWindows.get? frame.sessionId = none →
              session.replayWindows.keys.card < session.maxReplayWindows := by
            intro hnone
            refine (Finset.card_lt_card ?_).trans_le hroom
            refine (Finset.ssubset_iff_of_subset Finset.subset_union_left).mpr
              ⟨frame.sessionId, by simp, fun hmem => ?_⟩
            obtain ⟨window, hwindow⟩ := HashMap.mem_keys.mp hmem
            exact absurd (hnone.symm.trans hwindow) (by simp)
          obtain ⟨hnew, hafter, hkeys, hmax⟩ := h.accept hplace haccept
          rw [List.append_assoc, List.singleton_append]
          refine ih hafter (List.nodup_cons.mpr ⟨hnew, hnodup⟩) ?_
          rw [hkeys, hmax]
          refine (Finset.card_le_card ?_).trans hroom
          intro sessionId hmem
          simp only [Finset.mem_union, Finset.mem_insert] at hmem ⊢
          tauto

end Sessions

/-! ## The result -/

/-- **Replay windows are exact.** In every run of calls on a window of the forwarder or of the packet
plane, a number is accepted exactly when it was not accepted before and is above the highest accepted
number less 64; a call that is refused leaves the window as it was, no operation overflows, and no
number is accepted twice.  A session of the packet plane in which no more session identifiers occur
than it has windows accepts no datagram twice. -/
theorem replay_windows_exact :
    (∀ accept ∈ [forwarderAccept, packetPlaneAccept], ∀ start (history : List (UInt64 × ℕ)) window
      accepted, U64Window.calls accept (.new start) history = (window, accepted) →
      accepted.Nodup ∧ ∀ sequence now,
        ((window.call accept sequence now).1 = .ok () ↔
          sequence ∉ accepted ∧ ∀ n ∈ accepted, (n.toNat : ℤ) - 64 < sequence.toNat) ∧
        ((window.call accept sequence now).1 ≠ .ok () → (window.call accept sequence now).2 = window) ∧
        (window.call accept sequence now).1 ≠ .error .overflow) ∧
    ∀ (E : Type) (session : Session E) (datagrams : List (Frame × ℕ × KeyOrder ℕ)),
      session.replayWindows = ∅ →
      (datagrams.map (·.1.sessionId)).toFinset.card ≤ session.maxReplayWindows →
      (session.acceptedDatagrams datagrams).Nodup := by
  constructor
  · intro accept haccept start history window accepted hcalls
    obtain rfl : accept = U64Window.acceptWithin 64 := by
      simpa [forwarderAccept, packetPlaneAccept] using haccept
    have hnew : (U64Window.new start).nat.Remembers (([] : List UInt64).map (·.toNat)) := rfl
    obtain ⟨hremembers, hnodup⟩ := U64Window.remembers_calls hnew List.nodup_nil history
    rw [hcalls, List.append_nil] at hremembers hnodup
    exact ⟨hnodup, fun sequence now => U64Window.call_exact hremembers sequence now⟩
  · intro E session datagrams hempty hroom
    have hnone : session.Remembers [] := by
      intro sessionId
      rw [hempty, HashMap.get?_empty]
      rfl
    rw [← List.append_nil (session.acceptedDatagrams datagrams)]
    refine hnone.nodup List.nodup_nil ?_
    rw [hempty]
    refine (Finset.card_le_card ?_).trans hroom
    refine Finset.union_subset (fun sessionId hmem => ?_) subset_rfl
    obtain ⟨window, hwindow⟩ := HashMap.mem_keys.mp hmem
    exact absurd hwindow (by simp)

/-- A window after four calls, two of which it refused, and a session with two identifiers. -/
theorem replay_windows_exact_run :
    (U64Window.calls packetPlaneAccept (.new 0) [(100, 0), (37, 1), (100, 2), (36, 3)]).2 = [37, 100] ∧
    (U64Window.calls packetPlaneAccept (.new 0) [(100, 0), (37, 1), (100, 2), (36, 3)]).2.Nodup ∧
    ((⟨1, 7001, 1280, .initiator, 1, 1, 0, ⟨11, 12⟩, ∅, 2⟩ : Session ℕ).acceptedDatagrams
      [(⟨1, 5, []⟩, 0, .sorted), (⟨2, 5, []⟩, 1, .sorted), (⟨1, 5, []⟩, 2, .sorted)]).Nodup :=
  ⟨by decide, (replay_windows_exact.1 packetPlaneAccept (by simp) 0 _ _ _ rfl).1,
    replay_windows_exact.2 ℕ _ _ rfl (by decide)⟩

end P2pVpn.PacketPlane
