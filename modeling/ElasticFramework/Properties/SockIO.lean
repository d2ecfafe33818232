import ElasticFramework.Construction.SockIO
import ElasticFramework.Properties.RoundTrip
import Mathlib.Algebra.Order.Ring.Int

/-!
# What the partial transfers come to

`Through` is the invariant of the four loops: the total is the sum of what the calls have returned,
their effect is that of one call for all of it, and each of them returned what an `int` holds.  The
loop ends with all bytes through or, at the first result that an `int` does not hold and that turns
negative, as if the call had failed.
-/

namespace ElasticFramework

section Results

variable {results : Results} {n : ℕ}

lemma Results.sum_le_succ (i : ℕ) : results.sum n i ≤ results.sum n (i + 1) := Nat.le_add_right _ _

/-- Once the bytes are through they stay so. -/
lemma Results.lt_of_sum_lt {i j : ℕ} (hi : results.sum n i < n) (hj : results.sum n j = n) :
    i < j := by
  by_contra h
  have hle : results.sum n j ≤ results.sum n i :=
    monotone_nat_of_le_succ (f := results.sum n) Results.sum_le_succ (not_lt.1 h)
  omega

lemma toInt_of_lt {k : ℕ} (h : k < 2 ^ 31) : toInt k = k := by
  unfold toInt
  rw [bmod_of_lt (by omega), if_pos h]

/-- A number too large for an `int` turns negative. -/
lemma toInt_neg {k : ℕ} (h : 2 ^ 31 ≤ k) (hlt : k < 2 ^ 32) : toInt k < 0 := by
  unfold toInt
  rw [bmod_of_lt hlt, if_neg (not_lt.2 h)]
  omega

end Results

namespace TransferLoop

variable {ω : Type*} {io : TransferLoop ω} {results : Results} {w : ω} {s s' : TransferState ω}

/-- How far the loop is when `s.calls` calls have returned. -/
structure Through (io : TransferLoop ω) (results : Results) (w : ω) (s : TransferState ω) :
    Prop where
  total_eq : s.total = results.sum io.bufLen.val s.calls
  total_lt : s.total < io.bufLen.val
  world_eq : s.world = io.call 0 s.total w
  fits : ∀ i < s.calls, results.size i (io.bufLen.val - results.sum io.bufLen.val i) < 2 ^ 31

lemma through_init : Through io results w (init w) where
  total_eq := rfl
  total_lt := io.bufLen.pos
  world_eq := (io.call_zero 0 w).symm
  fits i hi := absurd hi i.not_lt_zero

lemma Through.remaining_eq (h : Through io results w s) :
    io.remaining s = io.bufLen.val - s.total := by
  have hpow : (2 : ℤ) ^ 32 ≤ 2 ^ io.bits := pow_le_pow_right₀ (by decide) io.le_bits
  have hlt := io.bufLen.lt
  have htotal := h.total_lt
  rw [remaining, Int.emod_eq_of_lt (by omega) (by omega)]
  omega

/-- What the calls have done, and the next one. -/
lemma Through.call_eq (h : Through io results w s) (k : ℕ) :
    io.call s.total k s.world = io.call 0 (s.total + k) w := by
  have hadd := io.call_add 0 s.total k w
  rw [Nat.zero_add] at hadd
  rw [h.world_eq, hadd]

/-- A call either returns what an `int` holds, and the total is that of one more call, or turns
negative. -/
lemma Through.round_eq (h : Through io results w s) :
    let size := results.size s.calls (io.bufLen.val - s.total)
    let world := io.call 0 (s.total + size) w
    size < 2 ^ 31 ∧ io.round results s =
        (if io.bufLen.val = s.total + size then .quit (.returned (toInt io.bufLen.val), world)
        else .again ⟨s.calls + 1, s.total + size, world⟩) ∨
      2 ^ 31 ≤ size ∧ io.round results s = .quit (.error, world) := by
  intro size world
  have hle : size ≤ io.bufLen.val - s.total := results.size_le _ _
  have hpos : 0 < size := results.size_pos _ _ (Nat.sub_pos_of_lt h.total_lt)
  have hlt := io.bufLen.lt
  have htotal := h.total_lt
  have hround : io.round results s =
      if 0 < toInt size then
        if io.bufLen.val = (s.total + (toInt size).toNat) % 2 ^ 32 then
          .quit (.returned (toInt ((s.total + (toInt size).toNat) % 2 ^ 32)), world)
        else if io.bufLen.val < (s.total + (toInt size).toNat) % 2 ^ 32 then
          .quit (.tooMuchData, world)
        else .again ⟨s.calls + 1, (s.total + (toInt size).toNat) % 2 ^ 32, world⟩
      else .quit (.error, world) := by
    show io.round results s = _
    rw [round, h.remaining_eq, h.call_eq]
  rw [hround]
  by_cases hsize : size < 2 ^ 31
  · refine Or.inl ⟨hsize, ?_⟩
    have hmod : (s.total + size) % 2 ^ 32 = s.total + size := Nat.mod_eq_of_lt (by omega)
    rw [toInt_of_lt hsize, Int.toNat_natCast, hmod, if_pos (Int.natCast_pos.2 hpos)]
    split_ifs with heq hquit
    · rw [← heq]
    · omega
    · rfl
  · refine Or.inr ⟨not_lt.1 hsize, ?_⟩
    rw [if_neg (not_lt.2 (toInt_neg (not_lt.1 hsize) (by omega)).le)]

/-- A round keeps the invariant, and less is missing. -/
lemma Through.again (h : Through io results w s) (hs : io.round results s = .again s') :
    Through io results w s' ∧ io.bufLen.val - s'.total < io.bufLen.val - s.total := by
  have hle := results.size_le s.calls (io.bufLen.val - s.total)
  have hpos := results.size_pos s.calls _ (Nat.sub_pos_of_lt h.total_lt)
  have htotal := h.total_lt
  rcases h.round_eq with ⟨hsize, hround⟩ | ⟨-, hround⟩
  · rw [hround] at hs
    split_ifs at hs with heq
    cases hs
    refine ⟨⟨?_, by show _ + _ < _; omega, rfl, fun i hi => ?_⟩, by show _ - (_ + _) < _; omega⟩
    · show _ + _ = _
      rw [Results.sum, ← h.total_eq]
    · rcases Nat.lt_succ_iff_lt_or_eq.1 hi with hi | rfl
      · exact h.fits i hi
      · rwa [← h.total_eq]
  · rw [hround] at hs
    cases hs

/-- The loop is left with the bytes through, or for a result that does not fit. -/
lemma Through.quit (h : Through io results w s) {a : SockExit × ω}
    (ha : io.round results s = .quit a) :
    results.FitInt io.bufLen.val ∧
        a = (.returned (toInt io.bufLen.val), io.call 0 io.bufLen.val w) ∨
      ¬ results.FitInt io.bufLen.val ∧ a.1 = .error := by
  rcases h.round_eq with ⟨hsize, hround⟩ | ⟨hsize, hround⟩
  · rw [hround] at ha
    split_ifs at ha with heq
    cases ha
    have hlast : results.sum io.bufLen.val (s.calls + 1) = io.bufLen.val := by
      rw [Results.sum, ← h.total_eq, ← heq]
    refine Or.inl ⟨fun i hi => ?_, by rw [← heq]⟩
    rcases Nat.lt_succ_iff_lt_or_eq.1 (Results.lt_of_sum_lt hi hlast) with hlt | rfl
    · exact h.fits i hlt
    · rwa [← h.total_eq]
  · rw [hround] at ha
    cases ha
    refine Or.inr ⟨fun hfit => ?_, rfl⟩
    have hlt := hfit s.calls (h.total_eq ▸ h.total_lt)
    rw [← h.total_eq] at hlt
    omega

/-- How the loop ends. -/
lemma exists_ends (io : TransferLoop ω) (results : Results) (w : ω) :
    ∃ a, Loop.Ends (io.round results) (init w) a ∧
      (results.FitInt io.bufLen.val ∧
          a = (.returned (toInt io.bufLen.val), io.call 0 io.bufLen.val w) ∨
        ¬ results.FitInt io.bufLen.val ∧ a.1 = .error) :=
  Loop.exists_ends (I := Through io results w) (fun s => io.bufLen.val - s.total)
    (fun _ _ h hs => h.again hs) (fun _ _ h ha => h.quit ha) through_init

/-- The bytes are through exactly when every result fits into an `int`. -/
lemma transfers_iff (io : TransferLoop ω) (results : Results) (w : ω) :
    io.Transfers results w (io.call 0 io.bufLen.val w) ↔ results.FitInt io.bufLen.val := by
  obtain ⟨a, ha, hcases⟩ := io.exists_ends results w
  constructor
  · intro h
    obtain ⟨n, hn⟩ := h.returns
    rcases hcases with ⟨hfit, -⟩ | ⟨-, herror⟩
    · exact hfit
    · cases hn.unique ha
      cases herror
  · intro hfit
    have hret : a = (.returned (toInt io.bufLen.val), io.call 0 io.bufLen.val w) := by
      rcases hcases with ⟨-, h⟩ | ⟨hnot, -⟩
      · exact h
      · exact absurd hfit hnot
    refine ⟨⟨_, hret ▸ ha⟩, fun s hs => ?_, fun w' hw' => ?_⟩
    · have hs := hs.invariant (I := Through io results w) (fun _ _ h hst => (h.again hst).1)
        through_init
      have hlt := hs.total_lt
      rw [hs.remaining_eq]
      omega
    · cases (hw'.unique ha).trans hret

/-- Loops that differ in the number of bits only end alike. -/
lemma ends_congr {io' : TransferLoop ω} (hlen : io.bufLen = io'.bufLen) (hcall : io.call = io'.call)
    (results : Results) (w : ω) (a : SockExit × ω) :
    Loop.Ends (io.round results) (init w) a ↔ Loop.Ends (io'.round results) (init w) a := by
  refine Loop.ends_congr (I := Through io results w) (fun _ _ h hst => (h.again hst).1)
    (fun s h => ?_) through_init a
  have h' : Through io' results w s :=
    ⟨hlen ▸ h.total_eq, hlen ▸ h.total_lt, hcall ▸ h.world_eq, hlen ▸ h.fits⟩
  rw [round, round, h.remaining_eq, h'.remaining_eq, hcall, hlen]

end TransferLoop

/-! ## The four functions -/

section Functions

variable (results : Results) (buf : SockBuffer) (wire : List UInt8) (stream : ℕ → UInt8)
  (bufLen : BufLen) (s : Inbox)

lemma Common.sockSend_transfers_iff :
    (Common.sockSend buf).Transfers results wire (wire ++ buf.bytes) ↔
      results.FitInt buf.bufLen.val := by
  have hall := handOver_all buf.length_bytes wire
  rw [← hall]
  exact (Common.sockSend buf).transfers_iff results wire

lemma Common.sockRecv_transfers_iff :
    (Common.sockRecv stream bufLen).Transfers results s (s.received stream bufLen.val) ↔
      results.FitInt bufLen.val := by
  rw [← store_all]
  exact (Common.sockRecv stream bufLen).transfers_iff results s

lemma CommonClient.sockRecv_transfers_iff :
    (CommonClient.sockRecv stream bufLen).Transfers results s (s.received stream bufLen.val) ↔
      results.FitInt bufLen.val :=
  Common.sockRecv_transfers_iff results stream bufLen s

lemma CommonClient.bufLen_sockSend : (CommonClient.sockSend buf).bufLen = buf.bufLen := by
  cases hlen : buf.bufLen with
  | mk n pos lt =>
      have hval : (CommonClient.sendBuf buf.bytes).length = n := by
        rw [CommonClient.sendBuf_eq, buf.length_bytes, hlen]
      simp only [CommonClient.sockSend, hval]

lemma CommonClient.sockSend_transfers_iff :
    (CommonClient.sockSend buf).Transfers results wire (wire ++ buf.bytes) ↔
      results.FitInt buf.bufLen.val := by
  have hiff := (CommonClient.sockSend buf).transfers_iff results wire
  have hall : (CommonClient.sockSend buf).call 0 buf.bufLen.val wire = wire ++ buf.bytes := by
    show handOver (CommonClient.sendBuf buf.bytes) 0 _ wire = _
    rw [CommonClient.sendBuf_eq]
    exact handOver_all buf.length_bytes wire
  rwa [CommonClient.bufLen_sockSend, hall] at hiff

/-- The copy of the client sends what the other does. -/
lemma sockSend_agree (a : SockExit × List UInt8) :
    Loop.Ends ((Common.sockSend buf).round results) (TransferLoop.init wire) a ↔
      Loop.Ends ((CommonClient.sockSend buf).round results) (TransferLoop.init wire) a := by
  refine TransferLoop.ends_congr (CommonClient.bufLen_sockSend buf).symm ?_ results wire a
  show handOver buf.bytes = handOver (CommonClient.sendBuf buf.bytes)
  rw [CommonClient.sendBuf_eq]

end Functions

/-- **Sending, the bytes of the buffer are handed over in order; receiving, the next bytes of the
stream are stored in order and nothing else is written; no range goes beyond the buffer, the exit
for too much data is not reached, and the copies agree: exactly when no call returns more than an
`int` holds.** -/
theorem partial_transfers_iff (sends recvs : Results) (buf : SockBuffer) (wire : List UInt8)
    (stream : ℕ → UInt8) (bufLen : BufLen) (s : Inbox) :
    (((Common.sockSend buf).Transfers sends wire (wire ++ buf.bytes) ∧
        (CommonClient.sockSend buf).Transfers sends wire (wire ++ buf.bytes)) ∧
      ((Common.sockRecv stream bufLen).Transfers recvs s (s.received stream bufLen.val) ∧
        (CommonClient.sockRecv stream bufLen).Transfers recvs s (s.received stream bufLen.val)) ∧
      (∀ a, Loop.Ends ((Common.sockSend buf).round sends) (TransferLoop.init wire) a ↔
        Loop.Ends ((CommonClient.sockSend buf).round sends) (TransferLoop.init wire) a) ∧
      ∀ a, Loop.Ends ((Common.sockRecv stream bufLen).round recvs) (TransferLoop.init s) a ↔
        Loop.Ends ((CommonClient.sockRecv stream bufLen).round recvs) (TransferLoop.init s) a) ↔
      sends.FitInt buf.bufLen.val ∧ recvs.FitInt bufLen.val := by
  rw [Common.sockSend_transfers_iff, CommonClient.sockSend_transfers_iff,
    Common.sockRecv_transfers_iff, CommonClient.sockRecv_transfers_iff, and_self, and_self]
  constructor
  · rintro ⟨hsends, hrecvs, -, -⟩
    exact ⟨hsends, hrecvs⟩
  · rintro ⟨hsends, hrecvs⟩
    exact ⟨hsends, hrecvs, sockSend_agree sends buf wire, fun a => Iff.rfl⟩

/-- No call of a transfer of fewer than `2 ^ 31` bytes returns more. -/
theorem fitInt_of_lt (results : Results) {n : ℕ} (h : n < 2 ^ 31) : results.FitInt n := by
  intro i _
  have hle := results.size_le i (n - results.sum n i)
  omega

/-- More bytes than an `int` counts. -/
def largeBuffer : SockBuffer where
  bytes := List.replicate (2 ^ 31 + 1) 0
  bufLen := ⟨2 ^ 31 + 1, by omega, by omega⟩
  length_bytes := List.length_replicate

/-- As much as is asked for, up to `2 ^ 31`. -/
def largeResults : Results where
  size _ m := min m (2 ^ 31)
  size_pos _ _ h := Nat.lt_min.2 ⟨h, by omega⟩
  size_le _ _ := Nat.min_le_left _ _

/-- The first call of `send` takes `2 ^ 31` bytes, and the last byte is never sent. -/
theorem large_result_exits :
    Loop.Ends ((Common.sockSend largeBuffer).round largeResults) (TransferLoop.init [])
        (.error, List.replicate (2 ^ 31) 0) ∧
      ¬ (Common.sockSend largeBuffer).Transfers largeResults [] ([] ++ largeBuffer.bytes) := by
  constructor
  · have hstart : TransferLoop.Through (Common.sockSend largeBuffer) largeResults []
        (TransferLoop.init []) := TransferLoop.through_init
    rcases hstart.round_eq with ⟨hlt, -⟩ | ⟨-, hround⟩
    · have hlt : min (2 ^ 31 + 1) (2 ^ 31) < 2 ^ 31 := hlt
      omega
    · refine Loop.ends_quit (hround.trans ?_)
      have hsize : min (0 + min (2 ^ 31 + 1) (2 ^ 31)) (2 ^ 31 + 1) = 2 ^ 31 := by omega
      have hwire : handOver (List.replicate (2 ^ 31 + 1) 0) 0 (0 + min (2 ^ 31 + 1) (2 ^ 31)) [] =
          List.replicate (2 ^ 31) 0 := by
        rw [handOver, List.drop_zero, List.take_replicate, List.nil_append, hsize]
      exact congrArg (fun wire => Round.quit (SockExit.error, wire)) hwire
  · rw [Common.sockSend_transfers_iff]
    intro hfit
    have hlt : min (2 ^ 31 + 1) (2 ^ 31) < 2 ^ 31 := hfit 0 largeBuffer.bufLen.pos
    omega

/-! ## The transfers of the other models -/

/-- What the calls are made of is sent buffer by buffer by such a loop. -/
theorem sockSend_transmit (results : Results) (buf : SockBuffer) (wire : List UInt8)
    (h : results.FitInt buf.bufLen.val) :
    (transmit [buf.bytes]).exited = false ∧
      (Common.sockSend buf).Transfers results wire (wire ++ (transmit [buf.bytes]).bytes) := by
  have hsmall : transmit [buf.bytes] = ⟨buf.bytes, false⟩ := by
    rw [transmit_small fun data hdata => ?_, List.flatten_singleton]
    rw [List.mem_singleton.1 hdata, buf.length_bytes]
    exact ⟨buf.bufLen.pos, buf.bufLen.lt⟩
  rw [hsmall]
  exact ⟨rfl, (Common.sockSend_transfers_iff results buf wire).2 h⟩

/-- What the handlers read is received by such a loop. -/
theorem sockRecv_received (results : Results) (stream : ℕ → UInt8) (bufLen : BufLen) (s : Inbox)
    (h : results.FitInt bufLen.val) :
    ∃ s', (Common.sockRecv stream bufLen).Transfers results s s' ∧
      Reader.Yields (sockRecv bufLen.val) (bytesOf (fun i => stream (s.pos + i)) bufLen.val)
        (.ok (bytesOf s'.mem bufLen.val)) := by
  refine ⟨_, (Common.sockRecv_transfers_iff results stream bufLen s).2 h, ?_⟩
  have hmem : bytesOf (s.received stream bufLen.val).mem bufLen.val =
      bytesOf (fun i => stream (s.pos + i)) bufLen.val :=
    List.map_congr_left fun i hi => if_pos (List.mem_range.1 hi)
  have hmod : bufLen.val % 2 ^ 32 = bufLen.val := Nat.mod_eq_of_lt bufLen.lt
  rw [hmem, sockRecv, hmod, if_neg bufLen.pos.ne']
  have hnext := Reader.Yields.next Stop.wait (bytesOf (fun i => stream (s.pos + i)) bufLen.val)
  rwa [length_bytesOf] at hnext

end ElasticFramework
