/-
# Reading bytes with a cursor

A reader takes bytes from an input at a cursor.  Whether they are there is checked before they are
read; to read beyond the end, or to panic, are faults of their own beside the refusal of an input.

Two notions carry the proofs about formats.  A reader `Consumes` a byte string as a value when it
takes exactly that string wherever it stands and returns the value.  A reader is `Proper` when each
of its runs does so for some string or else refuses the input.  Both are closed under sequencing, so
a format is read back piece by piece; and a proper reader never reads an input to its end and also a
longer one that starts with it (`Proper.readAll_of_append`).
-/
import P2pVpn.Lib.Bytes
import P2pVpn.Lib.Except

namespace P2pVpn.Lib

/-- How a run ends without a result. -/
inductive Fault (ε : Type) where
  | panic (message : String)
  | outOfBounds
  | error (error : ε)
deriving DecidableEq, Repr

structure Cursor where
  input : List UInt8
  offset : ℕ
deriving DecidableEq, Repr

/-- A reader moves the cursor. -/
abbrev Reader (ε α : Type) : Type := StateT Cursor (Except (Fault ε)) α

variable {ε α β : Type}

/-- The bytes of the input from the cursor to a place. -/
def Cursor.bytesTo (cursor : Cursor) (stop : ℕ) : Except (Fault ε) (List UInt8) :=
  if stop ≤ cursor.input.length then .ok ((cursor.input.take stop).drop cursor.offset)
  else .error .outOfBounds

namespace Reader

/-! ## Taking bytes -/

variable (truncated : ℕ → ℕ → ε) (error : ε)

/-- Refuse the input. -/
def refuse : Reader ε α := fun _ => .error (.error error)

/-- Stop the program. -/
def abort (message : String) : Reader ε α := fun _ => .error (.panic message)

/-- Refuse the input unless the condition holds. -/
def require (c : Prop) [Decidable c] (error : ε) : Reader ε Unit :=
  if c then pure () else refuse error

def ofOption : Option α → Reader ε α
  | some a => pure a
  | none => refuse error

/-- The next bytes, unless the input ends before; `truncated` names the number of bytes that are left
and the one that is asked for. -/
def take (len : ℕ) : Reader ε (List UInt8) := fun cursor =>
  if cursor.offset + len ≤ cursor.input.length then do
    let bytes ← cursor.bytesTo (cursor.offset + len)
    pure (bytes, ⟨cursor.input, cursor.offset + len⟩)
  else .error (.error (truncated (cursor.input.length - cursor.offset) len))

/-- The next byte. -/
def takeByte : Reader ε UInt8 := do
  match ← take truncated 1 with
  | byte :: _ => pure byte
  | [] => abort "index out of bounds"

/-- The number in the next bytes. -/
def takeNumber (count : ℕ) : Reader ε ℕ := do
  let bytes ← take truncated count
  if bytes.length = count then pure (fromBeBytes bytes) else abort "fixed slice length"

/-- What the number in the next bytes stands for. -/
def takeAs (count : ℕ) (f : ℕ → α) : Reader ε α := do
  let n ← takeNumber truncated count
  pure (f n)

/-- As many bytes as the number in the two bytes before them says. -/
def takeLenPrefixed : Reader ε (List UInt8) := do
  let len ← takeNumber truncated 2
  take truncated len

/-- Read an input to its end; `trailing` names the number of bytes that are left. -/
def readAll (reader : Reader ε α) (trailing : ℕ → ε) (input : List UInt8) : Except (Fault ε) α := do
  let (a, cursor) ← reader.run ⟨input, 0⟩
  if cursor.input.length - cursor.offset = 0 then pure a
  else throw (.error (trailing (cursor.input.length - cursor.offset)))

/-! ## Strings that are read as a value -/

/-- The reader takes exactly these bytes, wherever they stand, as the value. -/
def Consumes (reader : Reader ε α) (bytes : List UInt8) (a : α) : Prop :=
  ∀ before after, reader.run ⟨before ++ bytes ++ after, before.length⟩ =
    .ok (a, ⟨before ++ bytes ++ after, before.length + bytes.length⟩)

lemma consumes_pure (a : α) : Consumes (pure a : Reader ε α) [] a := fun _ _ => rfl

variable {bytes : List UInt8} {reader : Reader ε α} {next : α → Reader ε β}

lemma Consumes.bind {bytes' : List UInt8} {a : α} {b : β} (h : Consumes reader bytes a)
    (h' : Consumes (next a) bytes' b) :
    Consumes (reader >>= next) (bytes ++ bytes') b := by
  intro before after
  have hfirst := h before (bytes' ++ after)
  have hsecond := h' (before ++ bytes) after
  simp only [List.append_assoc, List.length_append, Nat.add_assoc] at hfirst hsecond ⊢
  rw [StateT.run_bind, hfirst]
  exact hsecond

/-- A step that takes nothing. -/
lemma Consumes.pure_bind {a : α} {b : β} (h : Consumes reader [] a) (h' : Consumes (next a) bytes b) :
    Consumes (reader >>= next) bytes b := h.bind h'

/-- The last step. -/
lemma Consumes.map {a : α} (h : Consumes reader bytes a) (f : α → β) :
    Consumes (reader >>= fun a => pure (f a)) bytes (f a) := by
  have hlast : Consumes (reader >>= fun a => pure (f a)) (bytes ++ []) (f a) :=
    h.bind (consumes_pure (f a))
  rwa [List.append_nil] at hlast

lemma consumes_require {c : Prop} [Decidable c] {error : ε} (h : c) :
    Consumes (require c error) [] () := by
  rw [require, if_pos h]
  exact consumes_pure ()

lemma consumes_take (bytes : List UInt8) : Consumes (take truncated bytes.length) bytes bytes := by
  intro before after
  have hle : before.length + bytes.length ≤ (before ++ bytes ++ after).length := by
    simp only [List.length_append]
    omega
  have hbytes : ((before ++ bytes ++ after).take (before.length + bytes.length)).drop before.length
      = bytes := by
    rw [← List.length_append, List.take_left, List.drop_left]
  simp only [StateT.run, take, Cursor.bytesTo, if_pos hle, hbytes]
  rfl

lemma length_of_consumes_take {truncated : ℕ → ℕ → ε} {len : ℕ} {taken : List UInt8}
    (h : Consumes (take truncated len) bytes taken) : taken = bytes ∧ bytes.length = len := by
  have hrun := h [] []
  simp only [StateT.run, take, List.nil_append, List.append_nil, List.length_nil, Nat.zero_add] at hrun
  split_ifs at hrun with hle
  · simp only [Cursor.bytesTo, if_pos hle] at hrun
    obtain ⟨htaken, hcursor⟩ := Prod.mk.inj (Except.ok.inj hrun)
    have hlen : len = bytes.length := (Cursor.mk.inj hcursor).2
    refine ⟨?_, hlen.symm⟩
    rw [← htaken, hlen, List.take_length, List.drop_zero]

lemma consumes_takeByte (byte : UInt8) : Consumes (takeByte truncated) [byte] byte := by
  have h : Consumes (takeByte truncated) ([byte] ++ []) byte :=
    (consumes_take truncated [byte]).bind (consumes_pure byte)
  exact h

lemma consumes_takeNumber {count value : ℕ} (h : value < 256 ^ count) :
    Consumes (takeNumber truncated count) (toBeBytes count value) value := by
  have htake := consumes_take truncated (toBeBytes count value)
  rw [length_toBeBytes] at htake
  have hrest : Consumes (if (toBeBytes count value).length = count then
      pure (fromBeBytes (toBeBytes count value)) else abort "fixed slice length" : Reader ε ℕ) []
      value := by
    rw [if_pos (length_toBeBytes count value), fromBeBytes_toBeBytes h]
    exact consumes_pure value
  have hall : Consumes (takeNumber truncated count) (toBeBytes count value ++ []) value :=
    htake.bind hrest
  rwa [List.append_nil] at hall

lemma consumes_takeAs {count value : ℕ} {f : ℕ → α} {a : α} (h : value < 256 ^ count)
    (ha : f value = a) :
    Consumes (takeAs truncated count f) (toBeBytes count value) a := by
  subst ha
  exact (consumes_takeNumber truncated h).map f

lemma consumes_takeLenPrefixed (h : bytes.length < 65536) :
    Consumes (takeLenPrefixed truncated) (toBeBytes 2 bytes.length ++ bytes) bytes :=
  (consumes_takeNumber truncated h).bind (consumes_take truncated bytes)

/-! ## Readers that take or refuse -/

/-- Each run takes some bytes as a value or refuses the input. -/
def Proper (reader : Reader ε α) : Prop :=
  ∀ before rest, (∃ e, reader.run ⟨before ++ rest, before.length⟩ = .error (.error e)) ∨
    ∃ bytes after a, rest = bytes ++ after ∧ Consumes reader bytes a

lemma proper_pure (a : α) : Proper (pure a : Reader ε α) := fun _ rest =>
  .inr ⟨[], rest, a, rfl, consumes_pure a⟩

lemma proper_refuse : Proper (refuse error : Reader ε α) := fun _ _ =>
  .inl ⟨error, rfl⟩

/-- What follows may rely on what was taken. -/
lemma Proper.bind (h : Proper reader) (hnext : ∀ bytes a, Consumes reader bytes a → Proper (next a)) :
    Proper (reader >>= next) := by
  intro before rest
  rcases h before rest with ⟨e, he⟩ | ⟨bytes, after, a, rfl, hconsumes⟩
  · refine .inl ⟨e, ?_⟩
    rw [StateT.run_bind, he]
    rfl
  · have hfirst := hconsumes before after
    rcases hnext bytes a hconsumes (before ++ bytes) after with
      ⟨e, he⟩ | ⟨bytes', after', b, rfl, hconsumes'⟩
    · refine .inl ⟨e, ?_⟩
      rw [List.append_assoc] at hfirst he
      rw [List.length_append] at he
      rw [StateT.run_bind, hfirst]
      exact he
    · exact .inr ⟨bytes ++ bytes', after', b, by rw [List.append_assoc], hconsumes.bind hconsumes'⟩

lemma proper_require (c : Prop) [Decidable c] (error : ε) : Proper (require c error) := by
  rw [require]
  split_ifs
  · exact proper_pure ()
  · exact proper_refuse error

lemma proper_ofOption (a : Option α) : Proper (ofOption error a) := by
  cases a with
  | none => exact proper_refuse error
  | some a => exact proper_pure a

lemma proper_take (len : ℕ) : Proper (take truncated len) := by
  intro before rest
  by_cases hle : len ≤ rest.length
  · have htake := consumes_take truncated (rest.take len)
    rw [List.length_take_of_le hle] at htake
    exact .inr ⟨rest.take len, rest.drop len, _, (List.take_append_drop len rest).symm, htake⟩
  · refine .inl ⟨_, if_neg ?_⟩
    simp only [List.length_append]
    omega

lemma proper_takeByte : Proper (takeByte truncated) := by
  refine (proper_take truncated 1).bind fun bytes taken htake => ?_
  obtain ⟨rfl, hlength⟩ := length_of_consumes_take htake
  obtain ⟨byte, rfl⟩ := List.length_eq_one_iff.mp hlength
  exact proper_pure byte

lemma proper_takeNumber (count : ℕ) : Proper (takeNumber truncated count) := by
  refine (proper_take truncated count).bind fun bytes taken htake => ?_
  obtain ⟨rfl, hlength⟩ := length_of_consumes_take htake
  rw [if_pos hlength]
  exact proper_pure _

lemma proper_takeAs (count : ℕ) (f : ℕ → α) : Proper (takeAs truncated count f) :=
  (proper_takeNumber truncated count).bind fun _ n _ => proper_pure (f n)

lemma proper_takeLenPrefixed : Proper (takeLenPrefixed truncated) :=
  (proper_takeNumber truncated 2).bind fun _ len _ => proper_take truncated len

/-! ## Whole inputs -/

section ReadAll

variable {reader : Reader ε α} {input : List UInt8} {a : α}

lemma Consumes.readAll (h : Consumes reader input a) (trailing : ℕ → ε) :
    reader.readAll trailing input = .ok a := by
  have hrun := h [] []
  simp only [List.nil_append, List.append_nil, List.length_nil, Nat.zero_add] at hrun
  simp only [Reader.readAll, hrun]
  exact if_pos (Nat.sub_self _)

lemma Consumes.readAll_append (h : Consumes reader input a) (trailing : ℕ → ε) {more : List UInt8}
    (hmore : more ≠ []) :
    reader.readAll trailing (input ++ more) = .error (.error (trailing more.length)) := by
  have hrun := h [] more
  have hpos := List.length_pos_iff.mpr hmore
  have hleft : (input ++ more).length - input.length = more.length := by simp
  simp only [List.nil_append, List.length_nil, Nat.zero_add] at hrun
  simp only [Reader.readAll, hrun]
  change (if (input ++ more).length - input.length = 0 then _ else _) = _
  rw [hleft, if_neg (by omega)]
  rfl

/-- A proper reader neither panics nor reads beyond the end. -/
lemma Proper.readAll (h : Proper reader) (trailing : ℕ → ε) (input : List UInt8) :
    (∃ e, reader.readAll trailing input = .error (.error e)) ∨
      ∃ a, reader.readAll trailing input = .ok a ∧ Consumes reader input a := by
  rcases h [] input with ⟨e, he⟩ | ⟨bytes, after, a, rfl, hconsumes⟩
  · refine .inl ⟨e, ?_⟩
    simp only [Reader.readAll, List.nil_append, List.length_nil] at he ⊢
    rw [he]
    rfl
  · by_cases hafter : after = []
    · rw [hafter, List.append_nil]
      exact .inr ⟨a, hconsumes.readAll trailing, hconsumes⟩
    · exact .inl ⟨_, hconsumes.readAll_append trailing hafter⟩

/-- What is read to its end is not the beginning of another such input. -/
lemma Proper.readAll_of_append (h : Proper reader) (trailing : ℕ → ε) {more : List UInt8}
    (hmore : more ≠ []) (hlong : reader.readAll trailing (input ++ more) = .ok a) :
    ∃ e, reader.readAll trailing input = .error (.error e) := by
  rcases h.readAll trailing input with herror | ⟨b, -, hconsumes⟩
  · exact herror
  · rw [hconsumes.readAll_append trailing hmore] at hlong
    cases hlong

end ReadAll

end Reader

end P2pVpn.Lib
