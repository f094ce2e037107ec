/-
# DNS labels

Hostnames travel as single DNS labels.  `canonicalDnsLabel` accepts letters, digits and inner
hyphens, at most 63 bytes of them, and folds the letters to lower case.
-/
import Mathlib.Algebra.Order.Ring.Nat
import Mathlib.Data.String.Basic

namespace P2pVpn.Dns

/-- The ways a label can be refused. -/
inductive DnsNameError where
  | empty
  | tooLong
  | leadingHyphen
  | trailingHyphen
  | invalidCharacter
deriving DecidableEq, Repr

/-- `char::is_ascii_alphanumeric`. -/
def isAsciiAlphanumeric (c : Char) : Bool :=
  ('0' ≤ c ∧ c ≤ '9') ∨ ('a' ≤ c ∧ c ≤ 'z') ∨ ('A' ≤ c ∧ c ≤ 'Z')

/-- `canonical_dns_label`. -/
def canonicalDnsLabel (label : String) : Except DnsNameError String :=
  if label.toList = [] then .error .empty
  else if label.utf8ByteSize > 63 then .error .tooLong
  else if label.toList.head? = some '-' then .error .leadingHyphen
  else if label.toList.getLast? = some '-' then .error .trailingHyphen
  else if ¬ label.toList.all fun c => isAsciiAlphanumeric c || c == '-' then
    .error .invalidCharacter
  else .ok (String.ofList (label.toList.map Char.toLower))

example : canonicalDnsLabel "Lab-Node1" = .ok "lab-node1" := by decide +kernel

/-! ## Canonical labels -/

/-- The characters of a label. -/
def isLabelChar (c : Char) : Bool := isAsciiAlphanumeric c || c == '-'

/-- A property of all ASCII characters is checked one by one. -/
lemma forall_ascii {P : Char → Prop} (h : ∀ n < 128, P (Char.ofNat n)) {c : Char}
    (hc : c.toNat < 128) : P c := by
  have hchar := h c.toNat hc
  rwa [Char.ofNat_toNat] at hchar

lemma toNat_lt_of_isLabelChar {c : Char} (h : isLabelChar c = true) : c.toNat < 128 := by
  have hle : c ≤ 'z' → c.toNat < 128 := fun hz => lt_of_le_of_lt (UInt32.le_iff_toNat_le.mp hz) (by decide)
  simp only [isLabelChar, isAsciiAlphanumeric, Bool.or_eq_true, decide_eq_true_eq, beq_iff_eq] at h
  rcases h with (h | h | h) | rfl
  · exact hle (h.2.trans (by decide))
  · exact hle h.2
  · exact hle (h.2.trans (by decide))
  · decide

/-- Folding to lower case keeps the characters of labels. -/
lemma toLower_of_isLabelChar {c : Char} (h : isLabelChar c = true) :
    isLabelChar c.toLower = true ∧ c.toLower.toLower = c.toLower ∧ (c.toLower = '-' ↔ c = '-') ∧
      c.utf8Size = 1 ∧ c.toLower.utf8Size = 1 := by
  exact forall_ascii (P := fun c => isLabelChar c = true → isLabelChar c.toLower = true ∧
    c.toLower.toLower = c.toLower ∧ (c.toLower = '-' ↔ c = '-') ∧ c.utf8Size = 1 ∧
    c.toLower.utf8Size = 1) (by decide +kernel) (toNat_lt_of_isLabelChar h) h

lemma utf8ByteSize_ofList (l : List Char) :
    (String.ofList l).utf8ByteSize = (l.map Char.utf8Size).sum := by
  induction l with
  | nil => rfl
  | cons c l ih =>
    rw [String.ofList_cons]
    simp [ih]

lemma canonicalDnsLabel_eq_ok {label canonical : String} :
    canonicalDnsLabel label = .ok canonical ↔
      label.toList ≠ [] ∧ label.utf8ByteSize ≤ 63 ∧ label.toList.head? ≠ some '-' ∧
        label.toList.getLast? ≠ some '-' ∧ (∀ c ∈ label.toList, isLabelChar c = true) ∧
        canonical = String.ofList (label.toList.map Char.toLower) := by
  have hall : (label.toList.all fun c => isAsciiAlphanumeric c || c == '-') = true ↔
      ∀ c ∈ label.toList, isLabelChar c = true := List.all_eq_true
  unfold canonicalDnsLabel
  simp only [hall]
  split_ifs with hnil hsize hhead hlast hchars
  · simp [hnil]
  · simp [show ¬ label.utf8ByteSize ≤ 63 by omega]
  · simp [hhead]
  · simp [hlast]
  · constructor
    · intro h
      exact ⟨hnil, by omega, hhead, hlast, hchars, (Except.ok.inj h).symm⟩
    · rintro ⟨-, -, -, -, -, rfl⟩
      rfl
  · exact ⟨nofun, fun h => absurd h.2.2.2.2.1 hchars⟩

/-- A canonical label stays as it is. -/
lemma canonicalDnsLabel_canonical {label canonical : String}
    (h : canonicalDnsLabel label = .ok canonical) : canonicalDnsLabel canonical = .ok canonical := by
  obtain ⟨hne, hsize, hhead, hlast, hchars, rfl⟩ := canonicalDnsLabel_eq_ok.mp h
  have hlower := fun c hc => toLower_of_isLabelChar (hchars c hc)
  have hdash : ∀ c ∈ label.toList, c.toLower = '-' → c = '-' := fun c hc => (hlower c hc).2.2.1.mp
  refine canonicalDnsLabel_eq_ok.mpr ⟨?_, ?_, ?_, ?_, ?_, ?_⟩
  · simpa using hne
  · have hsizes : label.toList.map (Char.utf8Size ∘ Char.toLower) = label.toList.map Char.utf8Size :=
      List.map_congr_left fun c hc => (hlower c hc).2.2.2.2.trans (hlower c hc).2.2.2.1.symm
    rw [utf8ByteSize_ofList, List.map_map, hsizes, ← utf8ByteSize_ofList, String.ofList_toList]
    exact hsize
  · rw [String.toList_ofList, List.head?_map]
    intro hdashed
    obtain ⟨c, hc, hdashed⟩ := Option.map_eq_some_iff.mp hdashed
    exact hhead (hc.trans (congrArg some (hdash c (List.mem_of_head? hc) hdashed)))
  · rw [String.toList_ofList, List.getLast?_map]
    intro hdashed
    obtain ⟨c, hc, hdashed⟩ := Option.map_eq_some_iff.mp hdashed
    exact hlast (hc.trans (congrArg some (hdash c (List.mem_of_getLast? hc) hdashed)))
  · intro c hc
    rw [String.toList_ofList] at hc
    obtain ⟨upper, hupper, rfl⟩ := List.mem_map.mp hc
    exact (hlower upper hupper).1
  · rw [String.toList_ofList, List.map_map]
    exact congrArg String.ofList (List.map_congr_left fun c hc => (hlower c hc).2.1.symm)

end P2pVpn.Dns
