import Rewind.Text

namespace Rewind.Utf8

abbrev Bytes := List UInt8

/-- A byte that continues a code point holds six of its bits. -/
def continuation (n : Nat) : UInt8 := .ofNat (0x80 + n % 0x40)

/-- The bytes of one code point. -/
def encodePoint (c : CodePoint) : Bytes :=
  if c.val < 0x80 then [.ofNat c.val]
  else if c.val < 0x800 then [.ofNat (0xC0 + c.val / 0x40), continuation c.val]
  else if c.val < 0x10000 then
    [.ofNat (0xE0 + c.val / 0x1000), continuation (c.val / 0x40), continuation c.val]
  else
    [.ofNat (0xF0 + c.val / 0x40000), continuation (c.val / 0x1000),
      continuation (c.val / 0x40), continuation c.val]

/-- The bytes of a text, none if a surrogate stands in it. -/
def encode? (t : Text) : Option Bytes :=
  if t.any CodePoint.isSurrogate then none else some (t.flatMap encodePoint)

/-- A code point on the way: how many of its bytes are missing, its bits so far, and the least code
point that takes so many bytes. -/
structure Pending where
  missing : Nat
  bits : Nat
  least : Nat

def Pending.start : Pending := ⟨0, 0, 0⟩

/-- What a byte starts. Bytes below `0xC0` start no code point of several bytes. -/
def lead? (b : UInt8) : Option Pending :=
  if b.toNat < 0xC0 then none
  else if b.toNat < 0xE0 then some ⟨1, b.toNat - 0xC0, 0x80⟩
  else if b.toNat < 0xF0 then some ⟨2, b.toNat - 0xE0, 0x800⟩
  else some ⟨3, b.toNat - 0xF0, 0x10000⟩

/-- The bits in a byte that continues a code point. -/
def tail? (b : UInt8) : Option Nat :=
  if 0x80 ≤ b.toNat ∧ b.toNat < 0xC0 then some (b.toNat - 0x80) else none

/-- The code point with a number, which must not be written in more bytes than it takes. -/
def point? (least n : Nat) : Option CodePoint :=
  if least ≤ n ∧ n < 0x110000 ∧ CodePoint.isSurrogate (Fin.ofNat _ n) = false then
    some (Fin.ofNat _ n)
  else none

/-- The text of bytes that go on after those of a pending code point. -/
def decodeFrom (p : Pending) : Bytes → Option Text
  | [] => if p.missing = 0 then some [] else none
  | b :: bs =>
    if p.missing = 0 then
      if b.toNat < 0x80 then (decodeFrom .start bs).map (Fin.ofNat _ b.toNat :: ·)
      else match lead? b with
        | none => none
        | some p => decodeFrom p bs
    else match tail? b with
      | none => none
      | some d =>
        if p.missing = 1 then
          match point? p.least (p.bits * 0x40 + d) with
          | none => none
          | some c => (decodeFrom .start bs).map (c :: ·)
        else decodeFrom ⟨p.missing - 1, p.bits * 0x40 + d, p.least⟩ bs

def decode? (bs : Bytes) : Option Text := decodeFrom .start bs

theorem tail?_continuation (n : Nat) : tail? (continuation n) = some (n % 0x40) := by
  have h : (continuation n).toNat = 0x80 + n % 0x40 := by
    simp only [continuation, UInt8.toNat_ofNat']
    omega
  simp only [tail?, h]
  rw [if_pos (by omega), Nat.add_sub_cancel_left]

theorem point?_val {least : Nat} {c : CodePoint} (h : least ≤ c.val)
    (hc : c.isSurrogate = false) : point? least c.val = some c := by
  have hn : c.val < 0x110000 := c.isLt
  simp only [point?, Fin.ofNat_val_eq_self]
  rw [if_pos ⟨h, hn, hc⟩]

theorem lead?_ofNat {n : Nat} (h : 0xC0 ≤ n) (hn : n < 0x100) : lead? (.ofNat n) =
    if n < 0xE0 then some ⟨1, n - 0xC0, 0x80⟩
    else if n < 0xF0 then some ⟨2, n - 0xE0, 0x800⟩
    else some ⟨3, n - 0xF0, 0x10000⟩ := by
  have hb : (UInt8.ofNat n).toNat = n := by
    rw [UInt8.toNat_ofNat']
    omega
  simp only [lead?, hb]
  rw [if_neg (by omega)]

theorem decodeFrom_lead {b : UInt8} {p : Pending} (h : lead? b = some p) (bs : Bytes) :
    decodeFrom .start (b :: bs) = decodeFrom p bs := by
  have hb : ¬ b.toNat < 0x80 := by
    intro hb
    rw [lead?, if_pos (by omega)] at h
    cases h
  simp only [decodeFrom, Pending.start, if_true, if_neg hb, h]

theorem decodeFrom_continuation (missing bits least n : Nat) (bs : Bytes) :
    decodeFrom ⟨missing + 2, bits, least⟩ (continuation n :: bs) =
      decodeFrom ⟨missing + 1, bits * 0x40 + n % 0x40, least⟩ bs := by
  simp [decodeFrom, tail?_continuation]

theorem decodeFrom_last {bits least n : Nat} {c : CodePoint}
    (h : point? least (bits * 0x40 + n % 0x40) = some c) (bs : Bytes) :
    decodeFrom ⟨1, bits, least⟩ (continuation n :: bs) =
      (decodeFrom .start bs).map (c :: ·) := by
  simp [decodeFrom, tail?_continuation, h]

/-- The bytes of a code point decode to it, whatever follows them. -/
theorem decode?_encodePoint (c : CodePoint) (hc : c.isSurrogate = false) (bs : Bytes) :
    decode? (encodePoint c ++ bs) = (decode? bs).map (c :: ·) := by
  have hn := c.isLt
  unfold encodePoint
  split
  · rename_i h
    have hb : (UInt8.ofNat c.val).toNat = c.val := by
      rw [UInt8.toNat_ofNat']
      omega
    simp only [decode?, List.cons_append, List.nil_append, decodeFrom, Pending.start, if_true, hb,
      if_pos h, Fin.ofNat_val_eq_self]
  · split
    · rename_i h
      have hl := lead?_ofNat (n := 0xC0 + c.val / 0x40) (by omega) (by omega)
      rw [if_pos (by omega)] at hl
      simp only [decode?, List.cons_append, List.nil_append]
      rw [decodeFrom_lead hl, decodeFrom_last (c := c)]
      have hv : (0xC0 + c.val / 0x40 - 0xC0) * 0x40 + c.val % 0x40 = c.val := by omega
      rw [hv]
      exact point?_val (by omega) hc
    · split
      · rename_i h
        have hl := lead?_ofNat (n := 0xE0 + c.val / 0x1000) (by omega) (by omega)
        rw [if_neg (by omega), if_pos (by omega)] at hl
        simp only [decode?, List.cons_append, List.nil_append]
        rw [decodeFrom_lead hl, decodeFrom_continuation, decodeFrom_last (c := c)]
        have hv : ((0xE0 + c.val / 0x1000 - 0xE0) * 0x40 + c.val / 0x40 % 0x40) * 0x40 +
            c.val % 0x40 = c.val := by omega
        rw [hv]
        exact point?_val (by omega) hc
      · have hl := lead?_ofNat (n := 0xF0 + c.val / 0x40000) (by omega) (by omega)
        rw [if_neg (by omega), if_neg (by omega)] at hl
        simp only [decode?, List.cons_append, List.nil_append]
        rw [decodeFrom_lead hl, decodeFrom_continuation, decodeFrom_continuation,
          decodeFrom_last (c := c)]
        have hv : (((0xF0 + c.val / 0x40000 - 0xF0) * 0x40 + c.val / 0x1000 % 0x40) * 0x40 +
            c.val / 0x40 % 0x40) * 0x40 + c.val % 0x40 = c.val := by omega
        rw [hv]
        exact point?_val (by omega) hc

/-- A text that has an encoding is what that decodes to. -/
theorem decode?_of_encode? {t : Text} {bs : Bytes} (h : encode? t = some bs) :
    decode? bs = some t := by
  unfold encode? at h
  split at h
  · cases h
  · rename_i ha
    cases h
    induction t with
    | nil => rfl
    | cons c t ih =>
      simp only [List.any_cons, Bool.or_eq_true, not_or, Bool.not_eq_true] at ha
      rw [List.flatMap_cons, decode?_encodePoint c ha.1, ih (by simp [ha.2])]
      rfl

end Rewind.Utf8
