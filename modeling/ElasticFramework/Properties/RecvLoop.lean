import ElasticFramework.Construction.RecvLoop
import ElasticFramework.Properties.RoundTrip

/-!
# Receiving control messages

What the loop of a `Run` does with whatever `recv` returns: it stays inside its buffer, cuts what
it receives into messages of sixty-four bytes, and ends with the connection.

## Results

`safe_iff_not_survives`: it does exactly when `recv` reports no error that is taken for a size.  For
the loop of the node this is `Cn.recvSafe_iff`: `-1` is a large number there, the loop goes on, and
`total_recv_size` has become one less.  For the loop of the dispatcher it is `Dispatcher.recvSafe`.

`round_yields`: the bytes of a round are taken by the `Reader.next` that stands for it.
-/

namespace ElasticFramework

open Reader

namespace LoopKind

variable (L : LoopKind) {buf₀ : MsgBuf} {rs : List RecvResult} {s s' : RecvLoop} {r : RecvResult}

/-! ## One call of `recv` -/

/-- What the loop can do with what `recv` returns. -/
inductive Moves (s : RecvLoop) : RecvResult → RecvLoop → Prop
  | overrun {l : List UInt8} (hwritten : s.written (.data l) = none) :
      Moves s (.data l) { s with status := .overrun }
  | ends {r : RecvResult} {buf : List UInt8} (hwritten : s.written r = some buf)
      (hsize : ¬ 0 < L.convert r.size) : Moves s r { s with status := .ended }
  | more {r : RecvResult} {buf : List UInt8} (hwritten : s.written r = some buf)
      (hsize : 0 < L.convert r.size)
      (htotal : L.convert (s.totalRecvSize + L.convert r.size) ≠ kMsgMaxSize) :
      Moves s r
        { s with totalRecvSize := L.convert (s.totalRecvSize + L.convert r.size), buf := buf }
  | message {r : RecvResult} {buf : List UInt8} (hwritten : s.written r = some buf)
      (hsize : 0 < L.convert r.size)
      (htotal : L.convert (s.totalRecvSize + L.convert r.size) = kMsgMaxSize) :
      Moves s r
        { totalRecvSize := 0
          buf := L.clear buf
          status := if L.known buf then .running else .aborted }

variable {L}

/-- The loop was running, and `recv` returned at most what it was asked for. -/
lemma enabled_of_step (h : L.machine.step s r = some s') :
    s.status = .running ∧ r.bytes.length ≤ s.requested ∧ r ≠ .data [] := by
  change (if _ then _ else _) = some s' at h
  split at h
  · assumption
  · cases h

lemma moves_of_step (h : L.machine.step s r = some s') : L.Moves s r s' := by
  have henabled := enabled_of_step h
  change (if _ then _ else _) = some s' at h
  rw [if_pos henabled] at h
  cases hwritten : s.written r with
  | none =>
      rw [hwritten] at h
      cases h
      cases r with
      | data l => exact .overrun hwritten
      | closed => cases hwritten
      | error => cases hwritten
  | some buf =>
      rw [hwritten] at h
      cases h
      by_cases hsize : 0 < L.convert r.size
      · by_cases htotal : L.convert (s.totalRecvSize + L.convert r.size) = kMsgMaxSize
        · have hround : L.round s buf r.size = _ := (if_pos hsize).trans (if_pos htotal)
          rw [hround]
          exact .message hwritten hsize htotal
        · have hround : L.round s buf r.size = _ := (if_pos hsize).trans (if_neg htotal)
          rw [hround]
          exact .more hwritten hsize htotal
      · have hround : L.round s buf r.size = _ := if_neg hsize
        rw [hround]
        exact .ends hwritten hsize

lemma dispatched_eq {buf : List UInt8} (hwritten : s.written r = some buf) :
    L.dispatched s r = if 0 < L.convert r.size ∧
      L.convert (s.totalRecvSize + L.convert r.size) = kMsgMaxSize then [buf] else [] := by
  rw [dispatched, hwritten]

/-! ## What a run keeps -/

/-- The messages whose type was looked at, the first one first. -/
abbrev messages (L : LoopKind) (buf₀ : MsgBuf) (rs : List RecvResult) : List (List UInt8) :=
  L.machine.trace L.dispatched (init buf₀) rs

/-- What has been received is the messages and what is in the buffer of the next one. -/
structure Tracks (L : LoopKind) (buf₀ : MsgBuf) (rs : List RecvResult) (s : RecvLoop) : Prop where
  nonneg : 0 ≤ s.totalRecvSize
  lt : s.totalRecvSize < kMsgMaxSize
  length : s.buf.length = kMsgMaxSize
  within : s.status ≠ .overrun
  messages : ∀ msg ∈ L.messages buf₀ rs, msg.length = kMsgMaxSize
  received : rs.flatMap RecvResult.bytes =
    (L.messages buf₀ rs).flatten ++ s.buf.take s.totalRecvSize.toNat

lemma Tracks.requested_eq (h : L.Tracks buf₀ rs s) :
    (s.requested : ℤ) = kMsgMaxSize - s.totalRecvSize := by
  have hnonneg := h.nonneg
  have hlt := h.lt
  rw [kMsgMaxSize] at hlt
  rw [RecvLoop.requested, kMsgMaxSize]
  omega

lemma tracks_init (L : LoopKind) (buf₀ : MsgBuf) : L.Tracks buf₀ [] (init buf₀) where
  nonneg := le_rfl
  lt := (by decide : (0 : ℤ) < kMsgMaxSize)
  length := buf₀.2
  within := (by decide : LoopStatus.running ≠ .overrun)
  messages := by
    rintro msg ⟨⟩
  received := rfl

lemma messages_snoc (hs : L.machine.exec (init buf₀) rs = some s) (r : RecvResult) :
    L.messages buf₀ (rs ++ [r]) = L.messages buf₀ rs ++ L.dispatched s r :=
  L.machine.trace_snoc _ r hs

section Data

/-- What there is of the next message, with `l` behind it. -/
def front (s : RecvLoop) (l : List UInt8) : List UInt8 := s.buf.take s.totalRecvSize.toNat ++ l

variable {l : List UInt8} (h : L.Tracks buf₀ rs s)
include h

lemma Tracks.length_front : (front s l).length = s.totalRecvSize.toNat + l.length := by
  have hnonneg := h.nonneg
  have hlt := h.lt
  have hlength := h.length
  rw [front, List.length_append, List.length_take_of_le (by omega)]

lemma Tracks.received_data : (rs ++ [RecvResult.data l]).flatMap RecvResult.bytes =
    (L.messages buf₀ rs).flatten ++ front s l := by
  rw [List.flatMap_append, h.received, List.flatMap_singleton, List.append_assoc]
  rfl

/-- With the last of its bytes a message is complete. -/
lemma Tracks.complete (hmessages : L.messages buf₀ (rs ++ [.data l]) =
      L.messages buf₀ rs ++ [front s l ++ s.buf.drop (s.totalRecvSize.toNat + l.length)])
    (hcomplete : s.totalRecvSize + l.length = kMsgMaxSize) {status : LoopStatus}
    (hstatus : status ≠ .overrun) :
    L.Tracks buf₀ (rs ++ [.data l])
      { totalRecvSize := 0
        buf := L.clear (front s l ++ s.buf.drop (s.totalRecvSize.toNat + l.length))
        status := status } := by
  have hnonneg := h.nonneg
  have hlength := h.length
  have hfront := h.length_front (l := l)
  have hdrop : s.buf.drop (s.totalRecvSize.toNat + l.length) = [] :=
    List.drop_eq_nil_of_le (by omega)
  rw [hdrop, List.append_nil] at hmessages ⊢
  have hsize : (front s l).length = kMsgMaxSize := by omega
  refine ⟨le_rfl, (by decide : (0 : ℤ) < kMsgMaxSize), L.length_clear _ hsize, hstatus, ?_, ?_⟩
  · rw [hmessages, List.forall_mem_append]
    exact ⟨h.messages, List.forall_mem_singleton.2 hsize⟩
  · rw [hmessages, h.received_data, List.flatten_append]
    simp

variable (hl : l.length ≤ s.requested)
include hl

/-- What `recv` is asked for fits. -/
lemma Tracks.written : s.written (.data l) =
    some (front s l ++ s.buf.drop (s.totalRecvSize.toNat + l.length)) := by
  have hrequested := h.requested_eq
  have hnonneg := h.nonneg
  have hlength := h.length
  have hfits : s.totalRecvSize.toNat + l.length ≤ s.buf.length := by omega
  rw [RecvLoop.written, Draft.paste, if_pos hfits, Option.map_some, front]

/-- Nothing is lost of the sizes. -/
lemma Tracks.convert_eq : L.convert (l.length : ℤ) = l.length ∧
    L.convert (s.totalRecvSize + l.length) = s.totalRecvSize + l.length := by
  have hrequested := h.requested_eq
  have hnonneg := h.nonneg
  exact ⟨L.convert_eq _ (by omega) (by omega), L.convert_eq _ (by omega) (by omega)⟩

/-- Bytes that do not complete the message make it longer. -/
lemma Tracks.more (hmessages : L.messages buf₀ (rs ++ [.data l]) = L.messages buf₀ rs)
    (hmore : s.totalRecvSize + l.length ≠ kMsgMaxSize) :
    L.Tracks buf₀ (rs ++ [.data l])
      { s with
        totalRecvSize := s.totalRecvSize + l.length
        buf := front s l ++ s.buf.drop (s.totalRecvSize.toNat + l.length) } := by
  have hnonneg := h.nonneg
  have hlength := h.length
  have hrequested := h.requested_eq
  have hfront := h.length_front (l := l)
  have hnonneg' : 0 ≤ s.totalRecvSize + l.length := by omega
  have hlt' : s.totalRecvSize + l.length < kMsgMaxSize := by omega
  refine ⟨hnonneg', hlt', ?_, h.within, hmessages ▸ h.messages, ?_⟩
  · rw [List.length_append, hfront, List.length_drop]
    omega
  · have hnat : (s.totalRecvSize + l.length).toNat = (front s l).length := by omega
    rw [hmessages, h.received_data]
    simp only [hnat, List.take_left]

end Data

/-- Bytes that are received. -/
lemma Tracks.data (h : L.Tracks buf₀ rs s) (hs : L.machine.exec (init buf₀) rs = some s)
    {l : List UInt8} (hstep : L.machine.step s (.data l) = some s') :
    L.Tracks buf₀ (rs ++ [.data l]) s' := by
  obtain ⟨-, hl, hne⟩ := enabled_of_step hstep
  change l.length ≤ s.requested at hl
  have hpos : l.length ≠ 0 := fun hzero => hne (by rw [List.length_eq_zero_iff.1 hzero])
  obtain ⟨hsize, htotal⟩ := h.convert_eq hl
  have hwritten := h.written hl
  have hmessages := messages_snoc hs (.data l)
  rw [dispatched_eq hwritten] at hmessages
  cases moves_of_step hstep with
  | overrun hnone =>
      rw [hwritten] at hnone
      cases hnone
  | ends _ hend =>
      rw [RecvResult.size, hsize] at hend
      omega
  | more hsome _ hmore =>
      cases hwritten.symm.trans hsome
      rw [if_neg fun hboth => hmore hboth.2, List.append_nil] at hmessages
      rw [RecvResult.size, hsize, htotal] at hmore ⊢
      exact h.more hl hmessages hmore
  | message hsome hpos' hmessage =>
      cases hwritten.symm.trans hsome
      rw [if_pos ⟨hpos', hmessage⟩] at hmessages
      rw [RecvResult.size, hsize, htotal] at hmessage
      exact h.complete hmessages hmessage (by split <;> decide)

/-- When the loop ends nothing has been received. -/
lemma Tracks.ended (h : L.Tracks buf₀ rs s) (hs : L.machine.exec (init buf₀) rs = some s)
    (hwritten : s.written r = some s.buf) (hbytes : r.bytes = [])
    (hsize : ¬ 0 < L.convert r.size) :
    L.Tracks buf₀ (rs ++ [r]) { s with status := .ended } := by
  have hmessages : L.messages buf₀ (rs ++ [r]) = L.messages buf₀ rs := by
    rw [messages_snoc hs, dispatched_eq hwritten, if_neg fun hboth => hsize hboth.1,
      List.append_nil]
  refine ⟨h.nonneg, h.lt, h.length, LoopStatus.noConfusion, hmessages ▸ h.messages, ?_⟩
  rw [hmessages, List.flatMap_append, h.received, List.flatMap_singleton, hbytes, List.append_nil]

/-- A loop that goes on after an error takes it for a size. -/
def Survives (L : LoopKind) : Prop := 0 < L.convert (-1)

/-- A call of `recv` that reports no error, or whose error ends the loop. -/
lemma Tracks.step (h : L.Tracks buf₀ rs s) (hs : L.machine.exec (init buf₀) rs = some s)
    (hr : r = .error → ¬ L.Survives) (hstep : L.machine.step s r = some s') :
    L.Tracks buf₀ (rs ++ [r]) s' := by
  have hzero : ¬ 0 < L.convert 0 := by
    rw [L.convert_eq 0 le_rfl (by decide)]
    decide
  cases r with
  | data l => exact h.data hs hstep
  | closed =>
      cases moves_of_step hstep with
      | ends _ hsize => exact h.ended hs rfl rfl hsize
      | more _ hsize _ => exact absurd hsize hzero
      | message _ hsize _ => exact absurd hsize hzero
  | error =>
      cases moves_of_step hstep with
      | ends _ hsize => exact h.ended hs rfl rfl hsize
      | more _ hsize _ => exact absurd hsize (hr rfl)
      | message _ hsize _ => exact absurd hsize (hr rfl)

lemma tracks_of_exec (hs : L.machine.exec (init buf₀) rs = some s)
    (herror : .error ∈ rs → ¬ L.Survives) : L.Tracks buf₀ rs s := by
  refine L.machine.exec_induction (P := fun rs s => (.error ∈ rs → ¬ L.Survives) →
    L.Tracks buf₀ rs s) (fun _ => tracks_init L buf₀) ?_ hs herror
  intro rs s r s' hs ih hstep herror
  refine (ih fun hmem => herror (List.mem_append_left _ hmem)).step hs ?_ hstep
  rintro rfl
  exact herror (List.mem_append_right _ (List.mem_singleton_self _))

/-! ## The end of the loop -/

/-- The loop ends with what is taken for no bytes. -/
lemma ended_of_step (hsize : ¬ 0 < L.convert r.size) (hr : r.bytes = [])
    (hstep : L.machine.step s r = some s') : s'.status = .ended := by
  cases moves_of_step hstep with
  | overrun _ => exact absurd hr (fun hnil => (enabled_of_step hstep).2.2 (by rw [← hnil]; rfl))
  | ends _ _ => rfl
  | more _ hpos _ => exact absurd hpos hsize
  | message _ hpos _ => exact absurd hpos hsize

/-- The loop does not end with what is taken for bytes. -/
lemma not_ended_of_step (hsize : 0 < L.convert r.size) (hstep : L.machine.step s r = some s') :
    s'.status ≠ .ended := by
  cases moves_of_step hstep with
  | overrun _ => exact LoopStatus.noConfusion
  | ends _ hnot => exact absurd hsize hnot
  | more _ _ _ =>
      show s.status ≠ .ended
      rw [(enabled_of_step hstep).1]
      exact LoopStatus.noConfusion
  | message _ _ _ =>
      show (if _ then LoopStatus.running else .aborted) ≠ _
      split <;> decide

/-- No call of `recv` follows the end of the loop. -/
lemma exec_of_ended (h : s.status = .ended) (hs : L.machine.exec s rs = some s') :
    rs = [] ∧ s' = s := by
  cases rs with
  | nil =>
      cases hs
      exact ⟨rfl, rfl⟩
  | cons r rs =>
      obtain ⟨t, hstep, -⟩ := L.machine.exec_cons_iff.1 hs
      have hrunning := (enabled_of_step hstep).1
      rw [h] at hrunning
      cases hrunning

end LoopKind

/-- `recv` may write only inside the buffer. -/
def RecvLoop.Inside (s : RecvLoop) : Prop :=
  0 ≤ s.totalRecvSize ∧ s.totalRecvSize + s.requested ≤ kMsgMaxSize

open LoopKind

/-- What is to hold of a loop that has got the results `rs`. -/
structure RecvSafe (L : LoopKind) (buf₀ : MsgBuf) (rs : List RecvResult) (s : RecvLoop) : Prop where
  inside : L.machine.AllSteps (fun t _ => t.Inside) (LoopKind.init buf₀) rs
  total : 0 ≤ s.totalRecvSize ∧ s.totalRecvSize ≤ kMsgMaxSize
  messages : ∃ rest, rs.flatMap RecvResult.bytes = (L.messages buf₀ rs).flatten ++ rest ∧
    rest.length < kMsgMaxSize ∧ ∀ msg ∈ L.messages buf₀ rs, msg.length = kMsgMaxSize
  ends : ∀ pre r post, rs = pre ++ r :: post → r = .closed ∨ r = .error →
    post = [] ∧ s.status = .ended

section Safety

variable {L : LoopKind} {buf₀ : MsgBuf} {rs : List RecvResult} {s : RecvLoop}

lemma inside_of_tracks (h : L.Tracks buf₀ rs s) : s.Inside := by
  have hrequested := h.requested_eq
  exact ⟨h.nonneg, by omega⟩

/-- A loop is safe exactly when it gets no error that it takes for a size. -/
theorem safe_iff_not_survives (hs : L.machine.exec (LoopKind.init buf₀) rs = some s) :
    RecvSafe L buf₀ rs s ↔ (.error ∈ rs → ¬ L.Survives) := by
  constructor
  · intro h herror hsurvives
    obtain ⟨pre, post, hsplit⟩ := List.append_of_mem herror
    obtain ⟨rfl, hended⟩ := h.ends pre .error post hsplit (Or.inr rfl)
    rw [hsplit] at hs
    obtain ⟨t, -, hstep⟩ := L.machine.exec_snoc_iff.1 hs
    exact not_ended_of_step (r := .error) hsurvives hstep hended
  · intro herror
    have htracks := tracks_of_exec hs herror
    refine ⟨?_, ⟨htracks.nonneg, htracks.lt.le⟩, ⟨_, htracks.received, ?_, htracks.messages⟩, ?_⟩
    · rintro t r ⟨pre, post, rfl, ht⟩
      exact inside_of_tracks (tracks_of_exec ht fun hmem => herror (List.mem_append_left _ hmem))
    · have hlt := htracks.lt
      have hnonneg := htracks.nonneg
      rw [List.length_take]
      omega
    · rintro pre r post rfl hr
      obtain ⟨t, -, hrest⟩ := L.machine.exec_append_iff.1 hs
      obtain ⟨t', hstep, hpost⟩ := L.machine.exec_cons_iff.1 hrest
      have hbytes : r.bytes = [] := by rcases hr with rfl | rfl <;> rfl
      have hsize : ¬ 0 < L.convert r.size := by
        rcases hr with rfl | rfl
        · rw [RecvResult.size, L.convert_eq 0 le_rfl (by decide)]
          decide
        · exact herror (List.mem_append_right _ List.mem_cons_self)
      have hended := ended_of_step hsize hbytes hstep
      obtain ⟨hnil, hsame⟩ := exec_of_ended hended hpost
      exact ⟨hnil, by rw [hsame, hended]⟩

/-- The loop of the node is safe exactly when `recv` reports no error to it. -/
theorem Cn.recvSafe_iff (hs : Cn.loop.machine.exec (LoopKind.init zeroed) rs = some s) :
    RecvSafe Cn.loop zeroed rs s ↔ .error ∉ rs := by
  have hsurvives : Cn.loop.Survives := by
    show (0 : ℤ) < -1 % 2 ^ 32
    decide
  rw [safe_iff_not_survives hs, imp_not_comm, imp_iff_right hsurvives]

/-- A message that comes in three parts, and two bytes of the next before the end. -/
def messageInParts : List RecvResult :=
  [.data [9, 0, 0, 0], .data (List.replicate 57 7), .data [1, 2, 3], .data [4, 0], .closed]

theorem Cn.recvSafe_iff_closed : ∃ s,
    Cn.loop.machine.exec (LoopKind.init zeroed) messageInParts = some s ∧
      Cn.loop.machine.trace Cn.loop.dispatched (LoopKind.init zeroed) messageInParts =
        [[9, 0, 0, 0] ++ List.replicate 57 7 ++ [1, 2, 3]] ∧
      RecvSafe Cn.loop zeroed messageInParts s := by
  obtain ⟨s, hs⟩ : ∃ s, Cn.loop.machine.exec (LoopKind.init zeroed) messageInParts = some s :=
    ⟨_, rfl⟩
  exact ⟨s, hs, by decide, (Cn.recvSafe_iff hs).2 (by decide)⟩

/-- After an error on an empty buffer `recv` is asked to write four gigabytes behind it. -/
theorem Cn.error_survives : ∃ s, Cn.loop.machine.exec (LoopKind.init zeroed) [.error] = some s ∧
    s.status = .running ∧ s.totalRecvSize = 2 ^ 32 - 1 ∧ ¬ RecvSafe Cn.loop zeroed [.error] s := by
  obtain ⟨s, hs, hrunning, htotal⟩ : ∃ s,
      Cn.loop.machine.exec (LoopKind.init zeroed) [.error] = some s ∧
        s.status = .running ∧ s.totalRecvSize = 2 ^ 32 - 1 := ⟨_, rfl, rfl, rfl⟩
  refine ⟨s, hs, hrunning, htotal, fun h => ?_⟩
  have hle := h.total.2
  rw [htotal] at hle
  exact absurd hle (by decide)

/-- The loop of the dispatcher is safe whatever `recv` returns. -/
theorem Dispatcher.recvSafe (hs : Dispatcher.loop.machine.exec (LoopKind.init buf₀) rs = some s) :
    RecvSafe Dispatcher.loop buf₀ rs s :=
  (safe_iff_not_survives hs).2 fun _ => by
    show ¬ (0 : ℤ) < -1
    decide

/-- After an error it does not go on. -/
theorem Dispatcher.recvSafe_error : ∃ s,
    Dispatcher.loop.machine.exec (LoopKind.init zeroed) [.data [9, 0, 0, 0], .error] = some s ∧
      RecvSafe Dispatcher.loop zeroed [.data [9, 0, 0, 0], .error] s := by
  obtain ⟨s, hs⟩ : ∃ s, Dispatcher.loop.machine.exec (LoopKind.init zeroed)
      [.data [9, 0, 0, 0], .error] = some s := ⟨_, rfl⟩
  exact ⟨s, hs, Dispatcher.recvSafe hs⟩

/-- A round of the loop is the `Reader.next` of `nextRequest`. -/
theorem round_yields (hs : L.machine.exec (LoopKind.init buf₀) rs = some s)
    (herror : .error ∈ rs → ¬ L.Survives) {msg : List UInt8}
    (hmessages : L.messages buf₀ rs = [msg]) (htotal : s.totalRecvSize = 0) :
    Yields (Reader.next Stop.wait kMsgMaxSize) (rs.flatMap RecvResult.bytes) (.ok msg) := by
  have htracks := tracks_of_exec hs herror
  have hreceived := htracks.received
  rw [hmessages, htotal] at hreceived
  have hmsg : rs.flatMap RecvResult.bytes = msg := by simpa using hreceived
  have hlength := htracks.messages msg (by rw [hmessages]; exact List.mem_singleton_self _)
  rw [hmsg, ← hlength]
  exact Yields.next Stop.wait msg

end Safety

end ElasticFramework
