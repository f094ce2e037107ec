/-
# The replay, second by second

Seen from outside, the evaluator is a clock: at every second it lets memberships run out, admits
the grants of that second and applies its revocations.  `clockReplay` says this directly, with one
turn per second instead of one per group of records, and `evaluateOrdered_eq_clockReplay` shows
that the evaluator computes it.  The evaluations of one list at all horizons are then the states
of one run, and facts about them are proved by induction over the seconds.
-/
import P2pVpn.Membership.Replay
import P2pVpn.Membership.StorageOrder

namespace P2pVpn.Membership

open Lib

variable {ι : Type}

/-- The records of one second, in event order. -/
def issuedInSecond (record : ι → SignedMembershipRecord) (l : List ι) (t : ℕ) : List ι :=
  (l.filter fun i => (record i).payload.issuedAtUnixSeconds = t).insertionSort
    fun i j => membershipEventOrder (record i) (record j)

section Clock

variable [DecidableEq ι] (record : ι → SignedMembershipRecord) (trustedRoots : Finset String)

/-- The evaluation at the end of every second, for given records of every second. -/
def clockReplay (group : ℕ → List ι) : ℕ → MembershipLedgerEvaluation ι
  | 0 => evaluateSecond record trustedRoots (MembershipLedgerEvaluation.empty ι) 0 (group 0)
  | t + 1 => evaluateSecond record trustedRoots (clockReplay group t) (t + 1) (group (t + 1))

end Clock

variable {record : ι → SignedMembershipRecord} {trustedRoots : Finset String}

/-! ## Letting memberships run out twice -/

lemma isExpiredAt_mono {r : SignedMembershipRecord} {t now : ℕ} (h : t ≤ now)
    (hexp : r.isExpiredAt t) : r.isExpiredAt now := by
  unfold SignedMembershipRecord.isExpiredAt at *
  split at hexp
  · cases hexp
  · rename_i expiresAt heq
    simp only [decide_eq_true_eq] at hexp ⊢
    omega

lemma expireMembersAt_expireMembersAt (states : LedgerStates ι) {t now : ℕ} (h : t ≤ now) :
    expireMembersAt record (expireMembersAt record states t) now
      = expireMembersAt record states now := by
  ext m : 1
  simp only [get?_expireMembersAt, Option.map_map]
  congr 1
  funext state
  simp only [Function.comp_apply]
  by_cases hactive : state.active
  · by_cases hexp : (record state.recordIndex).isExpiredAt t
    · simp [hactive, hexp, isExpiredAt_mono h hexp]
    · simp [hexp]
  · simp [hactive]

variable (e : MembershipLedgerEvaluation ι)

lemma expireGroup_expireGroup {t now : ℕ} (h : t ≤ now) :
    expireGroup record (expireGroup record e t) now = expireGroup record e now := by
  simp only [expireGroup, expireMembersAt_expireMembersAt e.states h]

variable [DecidableEq ι]

/-- A second does not notice whether memberships were already expired before it. -/
lemma evaluateSecond_expireGroup {t t' : ℕ} (h : t ≤ t') (group : List ι) :
    evaluateSecond record trustedRoots (expireGroup record e t) t' group
      = evaluateSecond record trustedRoots e t' group := by
  simp only [evaluateSecond, expireGroup_expireGroup e h]

lemma evaluateSecond_nil (t : ℕ) :
    evaluateSecond record trustedRoots e t [] = expireGroup record e t := rfl

/-! ## Nothing runs out in the second it is issued -/

/-- No active state rests on a record that has expired by `t`. -/
def Unexpired (record : ι → SignedMembershipRecord) (t : ℕ) (states : LedgerStates ι) : Prop :=
  ∀ m state, states.get? m = some state → state.active = true →
    (record state.recordIndex).isExpiredAt t = false

omit [DecidableEq ι] in
lemma unexpired_expireMembersAt (states : LedgerStates ι) (t : ℕ) :
    Unexpired record t (expireMembersAt record states t) := by
  intro m state hstate hactive
  rw [get?_expireMembersAt] at hstate
  obtain ⟨old, -, rfl⟩ := Option.map_eq_some_iff.mp hstate
  split at hactive
  · cases hactive
  · rename_i hif
    rw [if_neg hif]
    simpa [hactive] using hif

omit [DecidableEq ι] in
lemma expireMembersAt_of_unexpired {states : LedgerStates ι} {t : ℕ}
    (h : Unexpired record t states) : expireMembersAt record states t = states := by
  ext m : 1
  rw [get?_expireMembersAt]
  cases hstate : states.get? m with
  | none => rfl
  | some state =>
    simp only [Option.map_some, Option.some.injEq]
    rw [if_neg]
    intro hif
    rw [Bool.and_eq_true] at hif
    rw [h m state hstate hif.1] at hif
    exact absurd hif.2 (by simp)

omit [DecidableEq ι] in
lemma Unexpired.applyMembershipEvent {states : LedgerStates ι} {t : ℕ}
    (h : Unexpired record t states) {i : ι} (hi : (record i).isExpiredAt t = false) :
    Unexpired record t (applyMembershipEvent record states i) := by
  intro m state hstate hactive
  rw [get?_applyMembershipEvent] at hstate
  split at hstate
  · obtain rfl := Option.some.inj hstate
    exact hi
  · exact h m state hstate hactive

lemma unexpired_foldl_acceptRecord {t : ℕ} {l : List ι} {e : MembershipLedgerEvaluation ι}
    (h : Unexpired record t e.states) (hl : ∀ i ∈ l, (record i).isExpiredAt t = false) :
    Unexpired record t (l.foldl (acceptRecord record) e).states := by
  induction l generalizing e with
  | nil => exact h
  | cons i l ih =>
    refine ih ?_ fun j hj => hl j (List.mem_cons_of_mem i hj)
    rw [acceptRecord_states]
    exact h.applyMembershipEvent (hl i List.mem_cons_self)

/-- Letting memberships run out at the end of a second changes nothing when no record of the
second has expired in it. -/
lemma expireGroup_evaluateSecond {t : ℕ} {group : List ι}
    (hgroup : ∀ i ∈ group, (record i).isExpiredAt t = false) :
    expireGroup record (evaluateSecond record trustedRoots e t group) t
      = evaluateSecond record trustedRoots e t group := by
  have hun : Unexpired record t (evaluateSecond record trustedRoots e t group).states := by
    rw [evaluateSecond_eq_foldl]
    exact unexpired_foldl_acceptRecord (unexpired_expireMembersAt e.states t)
      fun i hi => hgroup i (mem_group_of_mem_acceptedInSecond hi)
  simp only [expireGroup, expireMembersAt_of_unexpired hun]

/-! ## The evaluator computes the clock -/

omit [DecidableEq ι] in
/-- The event order goes by issue time first. -/
lemma issued_le_of_eventOrder {a b : SignedMembershipRecord} (h : membershipEventOrder a b) :
    a.payload.issuedAtUnixSeconds ≤ b.payload.issuedAtUnixSeconds := by
  rcases Prod.Lex.le_iff.mp h with h | h
  · exact h.le
  · exact h.1.le

/-- The groups of a list that ends with the records of one second. -/
lemma evaluateGroups_append_second {before group : List ι} {t : ℕ} (hne : group ≠ [])
    (hbefore : ∀ i ∈ before, (record i).payload.issuedAtUnixSeconds < t)
    (hgroup : ∀ i ∈ group, (record i).payload.issuedAtUnixSeconds = t) :
    evaluateGroups record trustedRoots (before ++ group)
      = evaluateSecond record trustedRoots (evaluateGroups record trustedRoots before) t group := by
  have hsplit : issueGroups record (before ++ group) = issueGroups record before ++ [group] := by
    unfold issueGroups
    rw [List.splitBy_append, List.splitBy_of_isChain hne]
    · refine List.Pairwise.isChain (List.pairwise_of_forall_mem_list fun i hi j hj => ?_)
      rw [hgroup i hi, hgroup j hj]
      exact beq_self_eq_true t
    · intro i hi j hj
      rw [beq_eq_false_iff_ne, hgroup j (List.mem_of_mem_head? hj)]
      exact (hbefore i (List.mem_of_mem_getLast? hi)).ne
  unfold evaluateGroups
  rw [hsplit, List.foldl_append]
  cases group with
  | nil => exact absurd rfl hne
  | cons first rest =>
    simp only [List.foldl_cons, List.foldl_nil, evaluateGroup, hgroup first List.mem_cons_self]

lemma evaluateOrdered_append_second {before group : List ι} {t : ℕ}
    (hbefore : ∀ i ∈ before, (record i).payload.issuedAtUnixSeconds < t)
    (hgroup : ∀ i ∈ group, (record i).payload.issuedAtUnixSeconds = t)
    (hexpiry : ∀ i ∈ group, (record i).isExpiredAt t = false) :
    evaluateOrdered record trustedRoots (before ++ group) t
      = evaluateSecond record trustedRoots (evaluateGroups record trustedRoots before) t group := by
  unfold evaluateOrdered
  rcases eq_or_ne group [] with rfl | hne
  · rw [List.append_nil, evaluateSecond_nil]
  · rw [evaluateGroups_append_second hne hbefore hgroup, expireGroup_evaluateSecond _ hexpiry]

omit [DecidableEq ι] in
lemma mem_issuedInSecond {l : List ι} {t : ℕ} {i : ι} :
    i ∈ issuedInSecond record l t ↔ i ∈ l ∧ (record i).payload.issuedAtUnixSeconds = t := by
  simp [issuedInSecond]

omit [DecidableEq ι] in
/-- The records issued by second `t + 1` are those issued by second `t` and those of `t + 1`. -/
lemma insertionSort_filter_succ (l : List ι) (t : ℕ) :
    ((l.filter fun i => (record i).payload.issuedAtUnixSeconds ≤ t + 1).insertionSort
        fun i j => membershipEventOrder (record i) (record j))
      = ((l.filter fun i => (record i).payload.issuedAtUnixSeconds ≤ t).insertionSort
          fun i j => membershipEventOrder (record i) (record j)) ++
        issuedInSecond record l (t + 1) := by
  have htrans : IsTrans ι fun i j => membershipEventOrder (record i) (record j) :=
    ⟨fun _ _ _ h h' => le_trans h h'⟩
  have htotal : Std.Total fun i j : ι => membershipEventOrder (record i) (record j) :=
    ⟨fun i j => le_total (membershipEventKey (record i)) (membershipEventKey (record j))⟩
  have hsorted : (l.insertionSort fun i j => membershipEventOrder (record i) (record j)).Pairwise
      fun i j => (record i).payload.issuedAtUnixSeconds ≤ (record j).payload.issuedAtUnixSeconds :=
    (List.pairwise_insertionSort _ l).imp issued_le_of_eventOrder
  unfold issuedInSecond
  simp only [← filter_insertionSort]
  rw [← filter_lt_append_filter_le (hsorted.filter _) (t + 1), List.filter_filter,
    List.filter_filter]
  congr 1 <;> refine List.filter_congr fun i _ => ?_ <;> rw [← Bool.decide_and, decide_eq_decide] <;>
    omega

/-- **The evaluator is a clock.**  When no record expires in the second it is issued in, the
replay of the records issued by `now` is the clock's evaluation at the end of second `now`. -/
theorem evaluateOrdered_eq_clockReplay {l : List ι}
    (hexpiry : ∀ i ∈ l, (record i).isExpiredAt (record i).payload.issuedAtUnixSeconds = false)
    (now : ℕ) :
    evaluateOrdered record trustedRoots
        ((l.filter fun i => (record i).payload.issuedAtUnixSeconds ≤ now).insertionSort
          fun i j => membershipEventOrder (record i) (record j)) now
      = clockReplay record trustedRoots (issuedInSecond record l) now := by
  have hgroup : ∀ t, ∀ i ∈ issuedInSecond record l t,
      (record i).payload.issuedAtUnixSeconds = t := fun t i hi => (mem_issuedInSecond.mp hi).2
  have hgroupExpiry : ∀ t, ∀ i ∈ issuedInSecond record l t, (record i).isExpiredAt t = false := by
    intro t i hi
    have h := hexpiry i (mem_issuedInSecond.mp hi).1
    rwa [hgroup t i hi] at h
  induction now with
  | zero =>
    have hzero : ((l.filter fun i => (record i).payload.issuedAtUnixSeconds ≤ 0).insertionSort
        fun i j => membershipEventOrder (record i) (record j)) = [] ++ issuedInSecond record l 0 := by
      simp [issuedInSecond]
    rw [hzero, evaluateOrdered_append_second (by simp) (hgroup 0) (hgroupExpiry 0)]
    rfl
  | succ t ih =>
    rw [insertionSort_filter_succ,
      evaluateOrdered_append_second _ (hgroup (t + 1)) (hgroupExpiry (t + 1)), clockReplay, ← ih,
      evaluateOrdered, evaluateSecond_expireGroup _ (Nat.le_succ t)]
    intro i hi
    rw [List.mem_insertionSort, List.mem_filter, decide_eq_true_eq] at hi
    omega

/-! ## Record lists -/

omit [DecidableEq ι] in
lemma not_isExpiredAt_issue {r : SignedMembershipRecord} (h : ValidPayload r.payload) :
    r.isExpiredAt r.payload.issuedAtUnixSeconds = false := by
  unfold SignedMembershipRecord.isExpiredAt
  split
  · rfl
  · rename_i expiresAt heq
    exact decide_eq_false (not_le.mpr (h.issued_lt_expires expiresAt heq))

/-- The replay of a list of records at every time is a state of one clock. -/
lemma replayRecords_eq_clockReplay {records : List SignedMembershipRecord}
    (hvalid : ∀ r ∈ records, ValidPayload r.payload) (trustedRoots : Finset String) (now : ℕ) :
    replayRecords records trustedRoots now
      = clockReplay id trustedRoots (issuedInSecond id records) now :=
  evaluateOrdered_eq_clockReplay (fun r hr => not_isExpiredAt_issue (hvalid r hr)) now

/-- The same with records named by their position. -/
lemma evaluateOrdered_indices_eq_clockReplay {records : List SignedMembershipRecord}
    (hvalid : ∀ r ∈ records, ValidPayload r.payload) (trustedRoots : Finset String) (now : ℕ) :
    evaluateOrdered records.get trustedRoots (orderedIndices records now) now
      = clockReplay records.get trustedRoots
          (issuedInSecond records.get (List.finRange records.length)) now :=
  evaluateOrdered_eq_clockReplay (fun _ _ => not_isExpiredAt_issue (hvalid _ (List.get_mem ..))) now

end P2pVpn.Membership
