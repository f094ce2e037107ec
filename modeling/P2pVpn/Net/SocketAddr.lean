/-
# Socket addresses

The standard library's socket addresses with their text and its parser.  The text is read back unless
the address has flow information, which the text leaves out (`parseSocketAddr_text`).  It is short and
made of printable ASCII characters, so its bytes are greater than those that mark the kind of a
handshake (`SocketAddr.lt_of_mem_bytes`).
-/
import P2pVpn.Lib.Utf8
import P2pVpn.Net.AddressText

namespace P2pVpn.Net

open Lib

inductive SocketAddr where
  | v4 (ip : BitVec 32) (port : UInt16)
  | v6 (ip : BitVec 128) (port : UInt16) (flowinfo scopeId : UInt32)
deriving DecidableEq, Repr

def SocketAddr.ip : SocketAddr → IpAddr
  | v4 ip _ => .v4 ip
  | v6 ip _ _ _ => .v6 ip

/-- The text form of an address, as the standard library writes it. -/
def SocketAddr.text : SocketAddr → String
  | v4 ip port => (IpAddr.v4 ip).text ++ ":" ++ toString port.toNat
  | v6 ip port _ scopeId =>
      if scopeId = 0 then "[" ++ (IpAddr.v6 ip).text ++ "]:" ++ toString port.toNat
      else "[" ++ (IpAddr.v6 ip).text ++ "%" ++ toString scopeId.toNat ++ "]:" ++ toString port.toNat

/-- The address has nothing that its text leaves out. -/
def SocketAddr.FlowFree : SocketAddr → Prop
  | v4 _ _ => True
  | v6 _ _ flowinfo _ => flowinfo = 0

/-! ## Reading an address -/

/-- A decimal number after a character, with no limit but its greatest value. -/
def readMarked (mark : Char) (maxValue : ℕ) (input : List Char) : Option (ℕ × List Char) := do
  let input ← readSeparator mark false input
  readNumber 10 input.length maxValue true input

def readPort (input : List Char) : Option (UInt16 × List Char) := do
  let (port, input) ← readMarked ':' 65535 input
  pure (UInt16.ofNat port, input)

def readScopeId (input : List Char) : Option (UInt32 × List Char) := do
  let (scopeId, input) ← readMarked '%' 4294967295 input
  pure (UInt32.ofNat scopeId, input)

def readSocketAddrV4 (input : List Char) : Option (SocketAddr × List Char) := do
  let (ip, input) ← readIpv4 input
  let (port, input) ← readPort input
  pure (.v4 ip port, input)

def readSocketAddrV6 (input : List Char) : Option (SocketAddr × List Char) := do
  let input ← readSeparator '[' false input
  let (ip, input) ← readIpv6 input
  let (scopeId, input) := (readScopeId input).getD (0, input)
  let input ← readSeparator ']' false input
  let (port, input) ← readPort input
  pure (.v6 ip port 0 scopeId, input)

/-- `str::parse::<SocketAddr>`. -/
def parseSocketAddr (text : String) : Option SocketAddr :=
  match (readSocketAddrV4 text.toList).or (readSocketAddrV6 text.toList) with
  | some (address, rest) => if rest = [] then some address else none
  | none => none

/-! ## The text is read back -/

lemma readMarked_toString (mark : Char) {n maxValue : ℕ} (hn : n ≤ maxValue) {rest : List Char}
    (hrest : EndsNumber 10 rest) :
    readMarked mark maxValue (mark :: ((toString n).toList ++ rest)) = some (n, rest) := by
  have hdigits : (toString n).toList = Nat.toDigits 10 n := by
    rw [Nat.toString_eq_ofList_toDigits, String.toList_ofList]
  have hpos : 0 < (Nat.toDigits 10 n).length := List.length_pos_iff.mpr Nat.toDigits_ne_nil
  have hlength := (Nat.length_toDigits_le_iff (by decide : 1 < 10) hpos).mp le_rfl
  have hbound : n < 10 ^ (Nat.toDigits 10 n ++ rest).length :=
    hlength.trans_le (Nat.pow_le_pow_right (by decide) (by simp))
  simp only [readMarked, readSeparator, if_true, hdigits, Option.bind_eq_bind, Option.bind_some]
  exact readNumber_toDigits (by decide) (by decide) (by simp; omega) hbound hn true hrest

lemma readPort_toString (port : UInt16) :
    readPort (':' :: (toString port.toNat).toList) = some (port, []) := by
  have hread : readMarked ':' 65535 (':' :: ((toString port.toNat).toList ++ [])) = _ :=
    readMarked_toString ':' (Nat.le_of_lt_succ port.toNat_lt) nofun
  rw [List.append_nil] at hread
  simp only [readPort, hread, Option.bind_eq_bind, Option.bind_some, UInt16.ofNat_toNat]
  rfl

lemma readScopeId_toString (scopeId : UInt32) {rest : List Char} (hrest : EndsNumber 10 rest) :
    readScopeId ('%' :: ((toString scopeId.toNat).toList ++ rest)) = some (scopeId, rest) := by
  have hread := readMarked_toString '%' (Nat.le_of_lt_succ scopeId.toNat_lt) hrest
  simp only [readScopeId, hread, Option.bind_eq_bind, Option.bind_some, UInt32.ofNat_toNat]
  rfl

lemma notMem_toString {c : Char} (hc : toDigit 10 c = none) (n : ℕ) : c ∉ (toString n).toList := by
  rw [Nat.toString_eq_ofList_toDigits, String.toList_ofList]
  exact notMem_toDigits (by decide) (by decide) hc n

lemma dot_notMem_toString (n : ℕ) : '.' ∉ (toString n).toList := notMem_toString (by decide) n

lemma endsAddress_bracket (port : ℕ) : EndsAddress (']' :: ':' :: (toString port).toList) := by
  refine ⟨?_, by simp, ?_⟩
  · rintro c ⟨⟩
    decide
  · simp only [List.mem_cons, dot_notMem_toString, or_false]
    decide

lemma endsAddress_scope (scopeId port : ℕ) :
    EndsAddress ('%' :: ((toString scopeId).toList ++ ']' :: ':' :: (toString port).toList)) := by
  refine ⟨?_, by simp, ?_⟩
  · rintro c ⟨⟩
    decide
  · simp only [List.mem_cons, List.mem_append, dot_notMem_toString, or_false, false_or]
    decide

lemma readSocketAddrV4_v6 (input : List Char) : readSocketAddrV4 ('[' :: input) = none := by
  have hv4 : readIpv4 ('[' :: input) = none := by
    refine readIpv4_eq_none_of_endsNumber ?_
    rintro c ⟨⟩
    decide
  rw [readSocketAddrV4, hv4]
  rfl

lemma toList_text_v6 (ip : BitVec 128) (port : UInt16) (flowinfo scopeId : UInt32) :
    (SocketAddr.v6 ip port flowinfo scopeId).text.toList =
      '[' :: ((IpAddr.v6 ip).text.toList ++ if scopeId = 0 then
        ']' :: ':' :: (toString port.toNat).toList
      else '%' :: ((toString scopeId.toNat).toList ++ ']' :: ':' :: (toString port.toNat).toList)) := by
  have hopen : "[".toList = ['['] := rfl
  have hclose : "]:".toList = [']', ':'] := rfl
  have hscope : "%".toList = ['%'] := rfl
  simp only [SocketAddr.text]
  split_ifs <;> simp only [String.toList_append, hopen, hclose, hscope, List.append_assoc,
    List.cons_append, List.nil_append]

/-- **The text of a socket address** without flow information is read back as that address. -/
theorem parseSocketAddr_text {address : SocketAddr} (hflow : address.FlowFree) :
    parseSocketAddr address.text = some address := by
  cases address with
  | v4 ip port =>
    have hcolon : ":".toList = [':'] := rfl
    have hip : readIpv4 ((IpAddr.v4 ip).text.toList ++ ':' :: (toString port.toNat).toList)
        = some (ip, ':' :: (toString port.toNat).toList) := by
      have hread := readIpv4_text ip.isLt (endsNumber_colon (toString port.toNat).toList).decimal
      rwa [BitVec.ofNat_toNat, BitVec.setWidth_eq] at hread
    have hread : readSocketAddrV4 (SocketAddr.v4 ip port).text.toList
        = some (SocketAddr.v4 ip port, []) := by
      simp only [SocketAddr.text, String.toList_append, hcolon, List.append_assoc, List.cons_append,
        List.nil_append, readSocketAddrV4, hip, Option.bind_eq_bind, Option.bind_some,
        readPort_toString]
      rfl
    simp only [parseSocketAddr, hread, Option.some_or, if_true]
  | v6 ip port flowinfo scopeId =>
    obtain rfl : flowinfo = 0 := hflow
    have hread : readSocketAddrV6 (SocketAddr.v6 ip port 0 scopeId).text.toList
        = some (SocketAddr.v6 ip port 0 scopeId, []) := by
      rw [toList_text_v6]
      split_ifs with hscope
      · have hnone : readScopeId (']' :: ':' :: (toString port.toNat).toList) = none := rfl
        simp only [readSocketAddrV6, readSeparator, if_true, Option.bind_eq_bind, Option.bind_some,
          (readIpv6_text (endsAddress_bracket port.toNat) ip).2, hnone, Option.getD_none,
          readPort_toString, hscope]
        rfl
      · have hbracket : EndsNumber 10 (']' :: ':' :: (toString port.toNat).toList) :=
          (endsAddress_bracket port.toNat).endsNumber.decimal
        simp only [readSocketAddrV6, readSeparator, if_true, Option.bind_eq_bind, Option.bind_some,
          (readIpv6_text (endsAddress_scope scopeId.toNat port.toNat) ip).2,
          readScopeId_toString scopeId hbracket, Option.getD_some, readPort_toString]
        rfl
    have hv4 : readSocketAddrV4 (SocketAddr.v6 ip port 0 scopeId).text.toList = none := by
      rw [toList_text_v6]
      exact readSocketAddrV4_v6 _
    simp only [parseSocketAddr, hread, hv4, Option.none_or, if_true]

/-! ## The characters of the text -/

/-- The text has digits and signs, and nothing else. -/
lemma SocketAddr.notMem_text {c : Char} (hdigit : toDigit 16 c = none)
    (hsign : c ∉ ['.', ':', '[', ']', '%']) (address : SocketAddr) : c ∉ address.text.toList := by
  simp only [List.mem_cons, List.not_mem_nil, or_false, not_or] at hsign
  obtain ⟨hdot, hcolon, hopen, hclose, hscope⟩ := hsign
  have hip : ∀ ip : IpAddr, c ∉ ip.text.toList := Net.notMem_text hdigit hdot hcolon
  have hnumber : ∀ n : ℕ, c ∉ (toString n).toList := by
    refine notMem_toString ?_
    rw [toDigit_eq_filter (by decide), hdigit]
    rfl
  cases address with
  | v4 ip port =>
    have hsign : ":".toList = [':'] := rfl
    simp only [SocketAddr.text, String.toList_append, hsign, List.mem_append, List.mem_singleton, hip,
      hcolon, hnumber, or_self, not_false_eq_true]
  | v6 ip port flowinfo scopeId =>
    rw [toList_text_v6]
    split_ifs <;> simp only [List.mem_append, List.mem_cons, hip, hnumber, hopen, hclose, hcolon,
      hscope, or_self, not_false_eq_true]

lemma toDigit_eq_none {c : Char} (h : c.toNat < 48 ∨ 102 < c.toNat) : toDigit 16 c = none := by
  have hle : ∀ a b : Char, a ≤ b ↔ a.toNat ≤ b.toNat := fun _ _ => Iff.rfl
  have h0 : '0'.toNat = 48 := rfl
  have h9 : '9'.toNat = 57 := rfl
  have ha : 'a'.toNat = 97 := rfl
  have hf : 'f'.toNat = 102 := rfl
  have hA : 'A'.toNat = 65 := rfl
  have hF : 'F'.toNat = 70 := rfl
  simp only [toDigit, hle, h0, h9, ha, hf, hA, hF]
  rw [if_neg (by omega), if_neg (by omega), if_neg (by omega)]
  rfl

/-- All characters of the text are printable ASCII. -/
lemma SocketAddr.printable_of_mem_text {address : SocketAddr} {c : Char}
    (h : c ∈ address.text.toList) : 37 ≤ c.toNat ∧ c.toNat ≤ 127 := by
  by_contra hrange
  refine SocketAddr.notMem_text (toDigit_eq_none (by omega)) ?_ address h
  intro hsign
  simp only [List.mem_cons, List.not_mem_nil, or_false] at hsign
  rcases hsign with rfl | rfl | rfl | rfl | rfl <;> exact hrange (by decide)

/-- The bytes of the text are those of its characters. -/
lemma SocketAddr.bytes_text (address : SocketAddr) :
    address.text.toUTF8.toList = address.text.toList.map fun c => UInt8.ofNat c.toNat :=
  toUTF8_toList_of_ascii fun _ hc => (SocketAddr.printable_of_mem_text hc).2

lemma SocketAddr.lt_of_mem_bytes {address : SocketAddr} {byte : UInt8}
    (h : byte ∈ address.text.toUTF8.toList) : 2 < byte := by
  rw [SocketAddr.bytes_text] at h
  obtain ⟨c, hc, rfl⟩ := List.mem_map.mp h
  obtain ⟨hlow, hhigh⟩ := SocketAddr.printable_of_mem_text hc
  rw [UInt8.lt_iff_toNat_lt, UInt8.toNat_ofNat', Nat.mod_eq_of_lt (by omega)]
  exact Nat.lt_of_lt_of_le (by decide) hlow

/-! ## The length of the text -/

lemma length_toDigits_le {radix n count : ℕ} (hradix : 1 < radix) (hcount : 0 < count)
    (h : n < radix ^ count) : (Nat.toDigits radix n).length ≤ count :=
  (Nat.length_toDigits_le_iff hradix hcount).mpr h

lemma length_ipv4Text_le (bits : ℕ) : (ipv4Text bits).toList.length ≤ 15 := by
  have hoctet : ∀ n, (Nat.toDigits 10 (n % 256)).length ≤ 3 := by
    intro n
    have hlt := Nat.mod_lt n (by decide : 256 > 0)
    exact length_toDigits_le (by decide) (by decide) (by omega)
  have h1 := hoctet (bits / 16777216)
  have h2 := hoctet (bits / 65536)
  have h3 := hoctet (bits / 256)
  have h4 := hoctet bits
  rw [toList_ipv4Text]
  simp only [List.length_append, List.length_cons]
  omega

lemma length_groupChars_le {groups : List ℕ} (h : ∀ g ∈ groups, g < 65536) (first : Bool) :
    (groupChars first groups).length ≤ 5 * groups.length := by
  induction groups generalizing first with
  | nil => simp [groupChars]
  | cons group groups ih =>
    obtain ⟨hgroup, hgroups⟩ := List.forall_mem_cons.mp h
    have hdigits : (Nat.toDigits 16 group).length ≤ 4 :=
      length_toDigits_le (by decide) (by decide) hgroup
    have hrest := ih hgroups false
    cases first <;> simp only [groupChars, List.length_cons, List.length_append] <;> omega

lemma length_ipText_le (address : IpAddr) : address.text.toList.length ≤ 82 := by
  cases address with
  | v4 bits => exact (length_ipv4Text_le _).trans (by decide)
  | v6 bits =>
    have hgroups : ∀ groups, groups ⊆ toGroups bits → groups.length ≤ 8 →
        (groupsText groups).toList.length ≤ 40 := by
      intro groups hsub hlength
      rw [toList_groupsText]
      have hchars := length_groupChars_le (fun g hg => lt_of_mem_toGroups (hsub hg)) true
      omega
    have hlength := length_toGroups bits
    simp only [IpAddr.text]
    split_ifs
    · have hmark : "::ffff:".toList.length = 7 := rfl
      have hembedded := length_ipv4Text_le (bits.toNat % 4294967296)
      rw [String.toList_append, List.length_append]
      omega
    · have hsign : "::".toList.length = 2 := rfl
      have hbefore := hgroups _ (List.take_subset (longestZeros (toGroups bits)).1 _)
        (by simp; omega)
      have hafter := hgroups _ (List.drop_subset ((longestZeros (toGroups bits)).1 +
        (longestZeros (toGroups bits)).2) _) (by simp; omega)
      rw [String.toList_append, String.toList_append, List.length_append, List.length_append]
      omega
    · exact (hgroups _ (List.Subset.refl _) hlength.le).trans (by decide)

lemma length_toString_le {n count : ℕ} (hcount : 0 < count) (h : n < 10 ^ count) :
    (toString n).toList.length ≤ count := by
  rw [Nat.toString_eq_ofList_toDigits, String.toList_ofList]
  exact length_toDigits_le (by decide) hcount h

/-- The text fits where its length is written in two bytes. -/
lemma SocketAddr.length_bytes_lt (address : SocketAddr) :
    address.text.toUTF8.toList.length < 65536 := by
  rw [SocketAddr.bytes_text, List.length_map]
  cases address with
  | v4 ip port =>
    have hcolon : ":".toList.length = 1 := rfl
    have hip := length_ipText_le (.v4 ip)
    have hport : (toString port.toNat).toList.length ≤ 5 :=
      length_toString_le (by decide) (port.toNat_lt.trans (by decide))
    simp only [SocketAddr.text, String.toList_append, List.length_append]
    omega
  | v6 ip port flowinfo scopeId =>
    have hip := length_ipText_le (.v6 ip)
    have hport : (toString port.toNat).toList.length ≤ 5 :=
      length_toString_le (by decide) (port.toNat_lt.trans (by decide))
    have hscope : (toString scopeId.toNat).toList.length ≤ 10 :=
      length_toString_le (by decide) (scopeId.toNat_lt.trans (by decide))
    rw [toList_text_v6]
    split_ifs <;> simp only [List.length_append, List.length_cons] <;> omega

end P2pVpn.Net
