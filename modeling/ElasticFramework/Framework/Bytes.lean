import Mathlib.Algebra.Order.Ring.Nat
import Mathlib.Tactic.Ring

/-!
# Bytes in memory and in messages

`leBytes` writes a number into a fixed number of bytes, the least significant first, and `field`
reads one back at an offset; whatever stands before and after a field does not matter
(`field_append`, `field_leBytes`).

## Pasting

A `Draft` is a buffer with the offset at which the next `paste` copies its data, the way C code
fills a message with `memcpy` and a running offset.  A copy that would pass the end of the buffer
is not defined, so pasting is partial.  `Draft.Holds` says what a draft has been filled with, and
has a rule for each way to go on.
-/

namespace ElasticFramework

/-! ## Little-endian numbers -/

/-- The `n` low bytes of a number, the least significant first. -/
def leBytes : ℕ → ℕ → List UInt8
  | 0, _ => []
  | n + 1, v => UInt8.ofNat v :: leBytes n (v / 2 ^ 8)

/-- The number whose bytes these are. -/
def ofLE : List UInt8 → ℕ
  | [] => 0
  | b :: l => b.toNat + 2 ^ 8 * ofLE l

@[simp] lemma length_leBytes (n v : ℕ) : (leBytes n v).length = n := by
  induction n generalizing v with
  | zero => rfl
  | succ n ih => rw [leBytes, List.length_cons, ih]

/-- Numbers of one width, one after the other. -/
lemma length_flatten_leBytes {α : Type*} (size : ℕ) (f : α → ℕ) (l : List α) :
    (l.map fun x => leBytes size (f x)).flatten.length = size * l.length := by
  induction l with
  | nil => rfl
  | cons x l ih =>
      rw [List.map_cons, List.flatten_cons, List.length_append, length_leBytes, ih,
        List.length_cons, Nat.mul_succ, Nat.add_comm]

lemma ofLE_leBytes (n v : ℕ) : ofLE (leBytes n v) = v % 2 ^ (8 * n) := by
  induction n generalizing v with
  | zero => simp [leBytes, ofLE, Nat.mod_one]
  | succ n ih =>
      have hpow : 2 ^ (8 * (n + 1)) = 2 ^ 8 * 2 ^ (8 * n) := by ring
      rw [leBytes, ofLE, ih, UInt8.toNat_ofNat', hpow, Nat.mod_mul]

/-- The number in `size` bytes of a buffer, from `offset` on. -/
def field (buf : List UInt8) (offset size : ℕ) : ℕ := ofLE ((buf.drop offset).take size)

lemma ofLE_lt (l : List UInt8) : ofLE l < 2 ^ (8 * l.length) := by
  induction l with
  | nil => simp [ofLE]
  | cons b l ih =>
      have hpow : 2 ^ (8 * (b :: l).length) = 2 ^ 8 * 2 ^ (8 * l.length) := by
        rw [List.length_cons]
        ring
      have hb := b.toNat_lt
      rw [ofLE, hpow]
      omega

/-- A field is as wide as it is read. -/
lemma field_lt (buf : List UInt8) (offset size : ℕ) : field buf offset size < 2 ^ (8 * size) :=
  (ofLE_lt _).trans_le
    (Nat.pow_le_pow_right (by omega) (Nat.mul_le_mul_left _ (List.length_take_le _ _)))

/-- What stands before the field does not matter. -/
lemma field_append {pre buf : List UInt8} {offset size : ℕ} (h : pre.length ≤ offset) :
    field (pre ++ buf) offset size = field buf (offset - pre.length) size := by
  rw [field, field, List.drop_append, List.drop_eq_nil_of_le h, List.nil_append]

lemma take_leBytes {n size : ℕ} (v : ℕ) (h : n ≤ size) : (leBytes size v).take n = leBytes n v := by
  induction n generalizing size v with
  | zero => rfl
  | succ n ih =>
      cases size with
      | zero => omega
      | succ size => rw [leBytes, List.take_succ_cons, ih _ (by omega), leBytes]

/-- A field read with fewer bytes than it was written with loses the high ones. -/
lemma field_leBytes (n size v : ℕ) (buf : List UInt8) (h : n ≤ size) :
    field (leBytes size v ++ buf) 0 n = v % 2 ^ (8 * n) := by
  have htake : (leBytes size v ++ buf).take n = leBytes n v := by
    rw [List.take_append_of_le_length (by rw [length_leBytes]; exact h), take_leBytes v h]
  rw [field, List.drop_zero, htake, ofLE_leBytes]

lemma field_drop (buf : List UInt8) (n offset size : ℕ) :
    field (buf.drop n) offset size = field buf (n + offset) size := by
  rw [field, field, List.drop_drop]

/-- Numbers that were written one after the other, read back in order. -/
lemma fields_leBytes (size : ℕ) (l : List ℕ) (tail : List UInt8) :
    (List.range l.length).map (fun i => field ((l.map (leBytes size)).flatten ++ tail)
      (size * i) size) = l.map (· % 2 ^ (8 * size)) := by
  induction l with
  | nil => rfl
  | cons n l ih =>
      have hbuf : ((n :: l).map (leBytes size)).flatten ++ tail =
          leBytes size n ++ ((l.map (leBytes size)).flatten ++ tail) := by simp
      rw [hbuf, List.length_cons, List.range_succ_eq_map, List.map_cons, List.map_map,
        List.map_cons, Nat.mul_zero, field_leBytes size size _ _ le_rfl, ← ih]
      congr 1
      refine List.map_congr_left fun i _ => ?_
      have hnext : size * (i + 1) - size = size * i := by
        rw [Nat.mul_succ, Nat.add_sub_cancel]
      rw [Function.comp_apply, Nat.succ_eq_add_one,
        field_append (by rw [length_leBytes, Nat.mul_succ]; exact Nat.le_add_left _ _),
        length_leBytes, hnext]

/-- A number of four bytes as an `int`. -/
lemma bmod_of_lt {n : ℕ} (h : n < 2 ^ 32) :
    (n : ℤ).bmod (2 ^ 32) = if n < 2 ^ 31 then (n : ℤ) else n - 2 ^ 32 := by
  rw [Int.bmod]
  split <;> split <;> omega

/-! ## Reads of a buffer -/

/-- The bytes at an offset; `none` when some are past the end of the buffer. -/
def bytesAt (buf : List UInt8) (offset size : ℕ) : Option (List UInt8) :=
  if offset + size ≤ buf.length then some ((buf.drop offset).take size) else none

/-- The number at an offset. -/
def readAt (buf : List UInt8) (offset size : ℕ) : Option ℕ :=
  if offset + size ≤ buf.length then some (field buf offset size) else none

lemma readAt_eq {buf : List UInt8} {offset size : ℕ} (h : offset + size ≤ buf.length) :
    readAt buf offset size = some (field buf offset size) :=
  if_pos h

/-- The low bytes of what was written are read, whatever stands before and after it. -/
lemma readAt_append (pre rest : List UInt8) {n size : ℕ} (h : n ≤ size) (v : ℕ) :
    readAt (pre ++ (leBytes size v ++ rest)) pre.length n = some (v % 2 ^ (8 * n)) := by
  have hle : pre.length + n ≤ (pre ++ (leBytes size v ++ rest)).length := by
    rw [List.length_append, List.length_append, length_leBytes]
    omega
  rw [readAt_eq hle, field_append le_rfl, Nat.sub_self, field_leBytes n size _ _ h]

lemma bytesAt_append (pre data rest : List UInt8) :
    bytesAt (pre ++ (data ++ rest)) pre.length data.length = some data := by
  rw [bytesAt, if_pos (by simp), List.drop_left, List.take_left]

/-- The C string at the front of a buffer; `none` when it does not end there. -/
def cString (buf : List UInt8) : Option (List UInt8) :=
  if 0 ∈ buf then some (buf.takeWhile (· ≠ 0)) else none

/-- A string ends where the first zero is. -/
lemma cString_append {s : List UInt8} (hs : 0 ∉ s) (rest : List UInt8) :
    cString (s ++ 0 :: rest) = some s := by
  have hall : ∀ b ∈ s, decide (b ≠ 0) = true := by
    intro b hb
    rw [decide_eq_true_iff]
    rintro rfl
    exact hs hb
  rw [cString, if_pos (by simp), List.takeWhile_append_of_pos hall]
  simp

/-- The first `n` bytes of a memory. -/
def bytesOf (mem : ℕ → UInt8) (n : ℕ) : List UInt8 := (List.range n).map mem

@[simp] lemma length_bytesOf (mem : ℕ → UInt8) (n : ℕ) : (bytesOf mem n).length = n := by
  rw [bytesOf, List.length_map, List.length_range]

lemma take_bytesOf (mem : ℕ → UInt8) {k n : ℕ} (h : k ≤ n) :
    (bytesOf mem n).take k = bytesOf mem k := by
  rw [bytesOf, ← List.map_take, List.take_range, Nat.min_eq_left h, bytesOf]

/-! ## Pasting -/

/-- A buffer and where the next paste goes. -/
structure Draft where
  buf : List UInt8
  offset : ℕ

namespace Draft

/-- Copy data to the running offset and move it on; `none` would write past the buffer. -/
def paste (b : Draft) (data : List UInt8) : Option Draft :=
  if b.offset + data.length ≤ b.buf.length then
    some ⟨b.buf.take b.offset ++ data ++ b.buf.drop (b.offset + data.length),
      b.offset + data.length⟩
  else none

/-- Paste one after the other. -/
def pasteAll (b : Draft) (l : List (List UInt8)) : Option Draft := l.foldlM paste b

/-- Move the offset on without writing. -/
def skip (b : Draft) (n : ℕ) : Draft := { b with offset := b.offset + n }

lemma pasteAll_cons (b : Draft) (data : List UInt8) (l : List (List UInt8)) :
    b.pasteAll (data :: l) = (b.paste data).bind fun b => b.pasteAll l := rfl

/-- A paste that is defined moves the offset on and stays within the buffer. -/
lemma offset_of_paste {b b' : Draft} {data : List UInt8} (h : b.paste data = some b') :
    b'.offset = b.offset + data.length ∧ b'.offset ≤ b'.buf.length ∧
      b'.buf.length = b.buf.length := by
  unfold paste at h
  split at h
  · rename_i hle
    cases h
    have hlength : (b.buf.take b.offset ++ data ++ b.buf.drop (b.offset + data.length)).length =
        b.buf.length := by
      rw [List.length_append, List.length_append, List.length_take, List.length_drop]
      omega
    exact ⟨rfl, hlength ▸ hle, hlength⟩
  · cases h

lemma offset_of_pasteAll {b b' : Draft} {l : List (List UInt8)} (h : b.pasteAll l = some b') :
    b'.offset = b.offset + l.flatten.length ∧ b'.buf.length = b.buf.length ∧
      (l ≠ [] → b'.offset ≤ b'.buf.length) := by
  induction l generalizing b with
  | nil =>
      cases h
      simp
  | cons data l ih =>
      rw [pasteAll_cons, Option.bind_eq_some_iff] at h
      obtain ⟨b₁, h₁, h⟩ := h
      obtain ⟨hoffset, hle, hlength⟩ := offset_of_paste h₁
      obtain ⟨hoffset', hlength', hle'⟩ := ih h
      rw [List.flatten_cons, List.length_append]
      refine ⟨by omega, by omega, fun _ => ?_⟩
      by_cases hl : l = []
      · subst hl
        cases h
        exact hle
      · exact hle' hl

/-- The buffer is `done`, up to the offset, and `rest`. -/
structure Holds (b : Draft) (done rest : List UInt8) : Prop where
  buf : b.buf = done ++ rest
  offset : b.offset = done.length

namespace Holds

variable {b : Draft} {done rest : List UInt8}

lemma front (buf : List UInt8) : Holds ⟨buf, 0⟩ [] buf := ⟨rfl, rfl⟩

lemma paste {data : List UInt8} (h : b.Holds done rest) (hfits : data.length ≤ rest.length) :
    ∃ b' rest', b.paste data = some b' ∧ b'.Holds (done ++ data) rest' ∧
      rest'.length + data.length = rest.length := by
  have hle : b.offset + data.length ≤ b.buf.length := by
    rw [h.buf, h.offset, List.length_append]
    omega
  refine ⟨_, rest.drop data.length, if_pos hle, ⟨?_, ?_⟩, ?_⟩
  · show b.buf.take b.offset ++ data ++ b.buf.drop (b.offset + data.length) = _
    rw [h.buf, h.offset, List.take_left, List.drop_append,
      List.drop_eq_nil_of_le (Nat.le_add_right _ _), List.nil_append, Nat.add_sub_cancel_left]
  · show b.offset + data.length = _
    rw [h.offset, List.length_append]
  · rw [List.length_drop]
    omega

/-- The data in order; what stands behind them is what is left of the buffer. -/
lemma pasteAll {l : List (List UInt8)} (h : b.Holds done rest)
    (hfits : l.flatten.length ≤ rest.length) :
    ∃ b' rest', b.pasteAll l = some b' ∧ b'.Holds (done ++ l.flatten) rest' ∧
      rest'.length + l.flatten.length = rest.length := by
  induction l generalizing b done rest with
  | nil => exact ⟨b, rest, rfl, by simpa using h, rfl⟩
  | cons data l ih =>
      rw [List.flatten_cons, List.length_append] at hfits
      obtain ⟨b₁, rest₁, hb₁, h₁, hlength₁⟩ := h.paste (by omega : data.length ≤ rest.length)
      obtain ⟨b₂, rest₂, hb₂, h₂, hlength₂⟩ := ih h₁ (by omega)
      refine ⟨b₂, rest₂, by rw [pasteAll_cons, hb₁, Option.bind_some, hb₂], ?_, ?_⟩
      · rwa [List.append_assoc, ← List.flatten_cons] at h₂
      · rw [List.flatten_cons, List.length_append]
        omega

/-- The bytes skipped stay as they are. -/
lemma skip {n : ℕ} (h : b.Holds done rest) (hfits : n ≤ rest.length) :
    ∃ gap rest', (b.skip n).Holds (done ++ gap) rest' ∧ gap.length = n ∧
      rest'.length + n = rest.length := by
  refine ⟨rest.take n, rest.drop n, ⟨?_, ?_⟩, List.length_take_of_le hfits, ?_⟩
  · rw [List.append_assoc, List.take_append_drop]
    exact h.buf
  · rw [List.length_append, List.length_take_of_le hfits, ← h.offset]
    rfl
  · rw [List.length_drop]
    omega

end Holds

end Draft

end ElasticFramework
