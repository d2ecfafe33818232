import ElasticFramework.Construction.Handlers

/-!
# Messages and payloads come through

The parts of a request one by one: a control message and the handler `Run` finds in it, payloads
whose length both sides know, and the messages with the entries of a list.  Each is a statement
about what a reader of the node does with what the client has sent, whatever follows
(`Reader.Yields`).

A payload may end the client: both `SockSend` and `SockRecv` exit when there is nothing to
transfer, so a reader of the same length exits with it (`sockRecv_yields`).
-/

namespace ElasticFramework

open Reader

/-! ## Control messages -/

/-- A message with room for its fields is the type, the fields, and what the buffer held. -/
lemma message_eq (buf : MsgBuf) (type : MsgType) {fields : List (List UInt8)}
    (h : 4 + fields.flatten.length ≤ kMsgMaxSize) :
    ∃ tail, message buf type fields = some (leBytes 4 type.num ++ (fields.flatten ++ tail)) ∧
      (leBytes 4 type.num ++ (fields.flatten ++ tail)).length = kMsgMaxSize := by
  have hlength : (leBytes 4 type.num :: fields).flatten.length = 4 + fields.flatten.length := by
    rw [List.flatten_cons, List.length_append, length_leBytes]
  have hbuf := buf.2
  obtain ⟨b, tail, hpaste, hb, htail⟩ := (Draft.Holds.front buf.1).pasteAll
    (by omega : (leBytes 4 type.num :: fields).flatten.length ≤ buf.1.length)
  refine ⟨tail, ?_, ?_⟩
  · rw [message, hpaste, Option.map_some, hb.buf]
    simp
  · simp only [List.length_append, length_leBytes]
    omega

/-- A round of `Run` takes the message and goes on to its handler. -/
lemma nextRequest_message {msg : List UInt8} (hmsg : msg.length = kMsgMaxSize) (l : List UInt8) :
    nextRequest (msg ++ l) = dispatch msg l := by
  have hnext := Yields.next Stop.wait msg l
  rw [hmsg] at hnext
  exact bind_ok hnext

lemma nextRequest_yields {msg payload : List UInt8} {x : Except Stop Request}
    (hmsg : msg.length = kMsgMaxSize) (h : Yields (dispatch msg) payload x) :
    Yields nextRequest (msg ++ payload) x := by
  intro rest
  rw [List.append_assoc, nextRequest_message hmsg]
  exact h rest

/-- The `switch` on a message with a known type in front. -/
lemma dispatch_message (type : MsgType) (recvBuf : List UInt8) :
    dispatch (leBytes 4 type.num ++ recvBuf) =
      match type with
      | .reg => Handler.register recvBuf
      | .createProgramWithSource =>
        Handler.createProgramWithSource (leBytes 4 MsgType.createProgramWithSource.num ++ recvBuf)
      | .buildProgram => Handler.buildProgram (leBytes 4 MsgType.buildProgram.num ++ recvBuf)
      | .createKernel => Handler.createKernel recvBuf
      | .enqueueTask => Handler.enqueueTask recvBuf
      | .createBuffer => Handler.createBuffer recvBuf
      | .enqueueReadBuffer => Handler.enqueueReadBuffer recvBuf
      | .enqueueWriteBuffer => Handler.enqueueWriteBuffer recvBuf
      | .setKernelArg => Handler.setKernelArg recvBuf
      | .finish => Handler.finish recvBuf
      | .enqueueNDRangeKernel => Handler.enqueueNDRangeKernel recvBuf
      | .enqueueCopyBuffer => Handler.enqueueCopyBuffer recvBuf
      | .releaseMemObject => Handler.releaseMemObject recvBuf
      | _ => Reader.stop .abort := by
  have hfield : field (leBytes 4 type.num ++ recvBuf) 0 4 = type.num % 2 ^ 32 :=
    field_leBytes 4 4 type.num recvBuf le_rfl
  have hdrop : (leBytes 4 type.num ++ recvBuf).drop 4 = recvBuf :=
    List.drop_left' (length_leBytes 4 type.num)
  unfold dispatch
  rw [hfield, hdrop]
  cases type <;> rfl

/-! ## Payloads -/

/-- The outcome of a reader whose bytes come from calls of `SockSend` that may exit. -/
def endsWith {α : Type} (exited : Bool) (a : α) : Except Stop α :=
  if exited then .error .exit else .ok a

/-- What is made of a value that may not come. -/
lemma endsWith_map {α β : Type} {r : Recv α} {bytes : List UInt8} {exited : Bool} {a : α}
    (h : Yields r bytes (endsWith exited a)) (f : α → β) :
    Yields (r >>= fun a => pure (f a)) bytes (endsWith exited (f a)) := by
  cases exited with
  | true => exact Yields.bind_error h
  | false =>
      rw [← List.append_nil bytes]
      exact Yields.bind h (Yields.pure (f a))

lemma transmit_exit {data : List UInt8} (h : data.length % 2 ^ 32 = 0) (l : List (List UInt8)) :
    transmit (data :: l) = ⟨[], true⟩ := by
  rw [transmit, if_pos h]

lemma transmit_cons {data : List UInt8} (h : data.length % 2 ^ 32 ≠ 0) (l : List (List UInt8)) :
    transmit (data :: l) =
      ⟨data.take (data.length % 2 ^ 32) ++ (transmit l).bytes, (transmit l).exited⟩ := by
  rw [transmit, if_neg h]

lemma transmit_append {l : List (List UInt8)} (h : (transmit l).exited = false)
    (m : List (List UInt8)) :
    transmit (l ++ m) = ⟨(transmit l).bytes ++ (transmit m).bytes, (transmit m).exited⟩ := by
  induction l with
  | nil => rfl
  | cons data l ih =>
      by_cases hzero : data.length % 2 ^ 32 = 0
      · rw [transmit_exit hzero] at h
        cases h
      · rw [transmit_cons hzero] at h
        rw [List.cons_append, transmit_cons hzero, transmit_cons hzero, ih h, List.append_assoc]

/-- Buffers of a size between one and `2 ^ 32` go out as they are. -/
lemma transmit_small {l : List (List UInt8)}
    (h : ∀ data ∈ l, 0 < data.length ∧ data.length < 2 ^ 32) : transmit l = ⟨l.flatten, false⟩ := by
  induction l with
  | nil => rfl
  | cons data l ih =>
      obtain ⟨hpos, hlt⟩ := h data (List.mem_cons_self ..)
      have hmod : data.length % 2 ^ 32 = data.length := Nat.mod_eq_of_lt hlt
      rw [transmit_cons (by omega), ih fun d hd => h d (List.mem_cons_of_mem _ hd), hmod,
        List.take_length, List.flatten_cons]

/-- A control message goes out as it is, and what follows it after it. -/
lemma transmit_message {msg : List UInt8} (h : msg.length = kMsgMaxSize) (l : List (List UInt8)) :
    transmit (msg :: l) = ⟨msg ++ (transmit l).bytes, (transmit l).exited⟩ := by
  have hmod : msg.length % 2 ^ 32 = msg.length := by
    rw [h]
    rfl
  have hpos : msg.length % 2 ^ 32 ≠ 0 := by
    rw [h]
    decide
  rw [transmit_cons hpos, hmod, List.take_length]

/-- A buffer that is sent and one that is received, of lengths that agree as `unsigned int`. -/
lemma sockRecv_yields (n : ℕ) (data : List UInt8) (h : n % 2 ^ 32 = data.length % 2 ^ 32) :
    Yields (sockRecv n) (transmit [data]).bytes
      (endsWith (transmit [data]).exited (data.take (data.length % 2 ^ 32))) := by
  by_cases hzero : data.length % 2 ^ 32 = 0
  · rw [sockRecv, if_pos (by omega), transmit_exit hzero]
    exact Yields.stop Stop.exit
  · have hlength : (data.take (data.length % 2 ^ 32)).length = data.length % 2 ^ 32 :=
      List.length_take_of_le (Nat.mod_le _ _)
    rw [sockRecv, if_neg (by omega), transmit_cons hzero, transmit, List.append_nil, h]
    have hnext := Yields.next Stop.wait (data.take (data.length % 2 ^ 32))
    rw [hlength] at hnext
    exact hnext

/-- A buffer of a size between one and `2 ^ 32`. -/
lemma sockRecv_small (data : List UInt8) (hpos : 0 < data.length) (hlt : data.length < 2 ^ 32) :
    Yields (sockRecv data.length) data (.ok data) := by
  have h := sockRecv_yields data.length data rfl
  have hsmall : ∀ d ∈ [data], 0 < d.length ∧ d.length < 2 ^ 32 := by
    intro d hd
    rw [List.mem_singleton.1 hd]
    exact ⟨hpos, hlt⟩
  rw [transmit_small hsmall, Nat.mod_eq_of_lt hlt, List.take_length] at h
  simpa [endsWith] using h

lemma recvLengths_yields (lengths : List ℕ) :
    Yields (recvLengths lengths.length) (lengths.map (leBytes 8)).flatten
      (.ok (lengths.map (· % 2 ^ 64))) := by
  induction lengths with
  | nil => exact Yields.pure []
  | cons n lengths ih =>
      have hn := sockRecv_small (leBytes 8 n) (by simp) (by simp)
      rw [length_leBytes] at hn
      refine hn.bind ?_
      rw [← List.append_nil (List.flatten _)]
      refine ih.bind ?_
      have hfield : field (leBytes 8 n) 0 8 = n % 2 ^ 64 := by
        have h := field_leBytes 8 8 n [] le_rfl
        rwa [List.append_nil] at h
      rw [hfield]
      exact Yields.pure _

lemma recvStrs_yields {lengths : List ℕ} {strs : List (List UInt8)}
    (h : List.Forall₂ (fun n str => n % 2 ^ 32 = str.length % 2 ^ 32) lengths strs) :
    Yields (recvStrs lengths) (transmit strs).bytes (endsWith (transmit strs).exited
      (strs.map fun str => str.take (str.length % 2 ^ 32))) := by
  induction h with
  | nil => exact Yields.pure []
  | @cons n str lengths strs hn _ ih =>
      have hstr := sockRecv_yields n str hn
      by_cases hzero : str.length % 2 ^ 32 = 0
      · rw [transmit_exit hzero] at hstr ⊢
        exact hstr.bind_error
      · rw [transmit_cons hzero, transmit, List.append_nil] at hstr
        rw [transmit_cons hzero]
        refine hstr.bind ?_
        exact endsWith_map ih _

/-! ## Lists of entries -/

/-- An entry as it comes out of a message. -/
def narrow (size : ℕ) (x : ℕ × ℕ) : ℕ × ℕ := (x.1 % 2 ^ 8, x.2 % 2 ^ (8 * size))

lemma length_entries (size : ℕ) (l : List (ℕ × ℕ)) :
    (l.flatMap fun x => [leBytes 1 x.1, leBytes size x.2]).flatten.length =
      (1 + size) * l.length := by
  induction l with
  | nil => rfl
  | cons x l ih =>
      rw [List.flatMap_cons, List.flatten_append, List.length_append, ih, List.length_cons]
      simp only [List.flatten_cons, List.flatten_nil, List.length_append, length_leBytes,
        List.length_nil]
      ring

lemma entriesOf_succ (size n : ℕ) (buf : List UInt8) :
    entriesOf size (n + 1) buf =
      (field buf 0 1, field buf 1 size) :: entriesOf size n (buf.drop (1 + size)) := by
  rw [entriesOf, List.range_succ_eq_map, List.map_cons, List.map_map, entriesOf]
  congr 1
  refine List.map_congr_left fun j _ => ?_
  have hnext : (1 + size) * (j + 1) = 1 + size + (1 + size) * j := by ring
  simp only [Function.comp_apply, Nat.succ_eq_add_one, field_drop, hnext, Nat.add_assoc]

/-- The entries of a message are read back, whatever stands behind them. -/
lemma entriesOf_entries (size : ℕ) (l : List (ℕ × ℕ)) (tail : List UInt8) :
    entriesOf size l.length
        ((l.flatMap fun x => [leBytes 1 x.1, leBytes size x.2]).flatten ++ tail) =
      l.map (narrow size) := by
  induction l with
  | nil => rfl
  | cons x l ih =>
      have hbuf : ((x :: l).flatMap fun x => [leBytes 1 x.1, leBytes size x.2]).flatten ++ tail =
          leBytes 1 x.1 ++ (leBytes size x.2 ++
            ((l.flatMap fun x => [leBytes 1 x.1, leBytes size x.2]).flatten ++ tail)) := by
        simp
      have hindex := field_leBytes 1 1 x.1 (leBytes size x.2 ++
        ((l.flatMap fun x => [leBytes 1 x.1, leBytes size x.2]).flatten ++ tail)) le_rfl
      have hvalue := field_leBytes size size x.2
        ((l.flatMap fun x => [leBytes 1 x.1, leBytes size x.2]).flatten ++ tail) le_rfl
      have hdrop : (leBytes 1 x.1 ++ (leBytes size x.2 ++
          ((l.flatMap fun x => [leBytes 1 x.1, leBytes size x.2]).flatten ++ tail))).drop
            (1 + size) =
          (l.flatMap fun x => [leBytes 1 x.1, leBytes size x.2]).flatten ++ tail := by
        rw [← List.append_assoc]
        exact List.drop_left' (by simp)
      rw [List.length_cons, hbuf, entriesOf_succ, hindex, hdrop, ih, List.map_cons,
        field_append (by simp), length_leBytes, Nat.sub_self, hvalue, narrow]

/-- A message that starts at the front of its buffer and has room for the entries. -/
lemma pasteAll_entries (size : ℕ) {b : Draft} {l : List (ℕ × ℕ)} (hb : b.offset = 0)
    (hl : (1 + size) * l.length ≤ b.buf.length) :
    ∃ b', b.pasteAll (l.flatMap fun x => [leBytes 1 x.1, leBytes size x.2]) = some b' ∧
      b'.buf.length = b.buf.length ∧ entriesOf size l.length b'.buf = l.map (narrow size) := by
  have hfront : b.Holds [] b.buf := ⟨rfl, hb⟩
  obtain ⟨b', tail, hpaste, hb', -⟩ := hfront.pasteAll (by rw [length_entries]; exact hl)
  refine ⟨b', hpaste, (Draft.offset_of_pasteAll hpaste).2.1, ?_⟩
  rw [hb'.buf, List.nil_append]
  exact entriesOf_entries size l _

/-- How reading a list of entries ends: with the entries, or at the first that is not `ok`. -/
def Delivers {α : Type} (r : Recv α) (bytes : List UInt8) (ok : Bool) (a : α) : Prop :=
  if ok then Yields r bytes (.ok a)
  else ∃ input more, bytes = input ++ more ∧ Yields r input (.error .abort)

/-- One message with its entries, before the messages with the others. -/
lemma Delivers.cons {size perMessage n left : ℕ} {ok : ℕ × ℕ → Bool} {msg rest : List UInt8}
    {here more : List (ℕ × ℕ)} (hmsg : msg.length = kMsgMaxSize)
    (hentries : entriesOf size (if n = 0 then left else perMessage) msg = here)
    (hrest : Delivers (recvEntries size perMessage ok n (left - perMessage)) rest (more.all ok)
      more) :
    Delivers (recvEntries size perMessage ok (n + 1) left) (msg ++ rest) ((here ++ more).all ok)
      (here ++ more) := by
  have hrecv := sockRecv_small msg (by rw [hmsg]; decide) (by rw [hmsg]; decide)
  rw [hmsg] at hrecv
  rw [List.all_append, recvEntries]
  cases hok : here.all ok with
  | false =>
      refine ⟨msg, rest, rfl, ?_⟩
      rw [← List.append_nil msg]
      refine hrecv.bind ?_
      simp only [hentries, hok, Bool.false_eq_true, if_false]
      exact Yields.stop Stop.abort
  | true =>
      unfold Delivers at hrest ⊢
      rw [Bool.true_and]
      split at hrest
      · rename_i hall
        rw [if_pos hall]
        refine hrecv.bind ?_
        simp only [hentries, hok, if_true]
        rw [← List.append_nil rest]
        exact hrest.bind (Yields.pure _)
      · rename_i hall
        obtain ⟨input, after, rfl, hinput⟩ := hrest
        rw [if_neg hall]
        refine ⟨msg ++ input, after, by rw [List.append_assoc], ?_⟩
        refine hrecv.bind ?_
        simp only [hentries, hok, if_true]
        exact hinput.bind_error

/-- The entries of the next message, and those of the messages after it. -/
lemma chunk_append {α : Type*} {perMessage n : ℕ} {l : List α}
    (hle : l.length ≤ perMessage * (n + 1)) :
    (if n = 0 then l else l.take perMessage) ++ l.drop perMessage = l := by
  split
  · rename_i hn
    subst hn
    rw [List.drop_eq_nil_of_le (by omega), List.append_nil]
  · exact List.take_append_drop perMessage l

/-- The number of entries the two sides give the next message. -/
lemma length_chunk {α : Type*} {perMessage n : ℕ} {l : List α}
    (hlt : perMessage * (n + 1) < l.length + perMessage) :
    (if n = 0 then l else l.take perMessage).length = if n = 0 then l.length else perMessage := by
  split
  · rfl
  · rename_i hn
    have hpos : perMessage * 1 ≤ perMessage * n := Nat.mul_le_mul_left _ (by omega)
    have hstep : perMessage * (n + 1) = perMessage * n + perMessage := by ring
    rw [List.length_take]
    omega

/-- The messages of a list, each started at the front of its buffer, are read back. -/
lemma sendEntries_delivers (size perMessage : ℕ) (ok : ℕ × ℕ → Bool)
    (hsize : (1 + size) * perMessage ≤ kMsgMaxSize) (n : ℕ) (b : Draft) (l : List (ℕ × ℕ))
    (hb : b.buf.length = kMsgMaxSize) (hle : l.length ≤ perMessage * n)
    (hlt : perMessage * n < l.length + perMessage) :
    ∃ msgs, sendEntries size perMessage (fun b => { b with offset := 0 }) n b l = some msgs ∧
      (∀ msg ∈ msgs, msg.length = kMsgMaxSize) ∧ msgs.length = n ∧
      Delivers (recvEntries size perMessage ok n l.length) msgs.flatten
        ((l.map (narrow size)).all ok) (l.map (narrow size)) := by
  induction n generalizing b l with
  | zero =>
      have hnil : l = [] := List.length_eq_zero_iff.1 (by omega)
      subst hnil
      exact ⟨[], rfl, by simp, rfl, Yields.pure []⟩
  | succ n ih =>
      obtain ⟨here, hhere⟩ : ∃ here, here = if n = 0 then l else l.take perMessage := ⟨_, rfl⟩
      have hstep : perMessage * (n + 1) = perMessage * n + perMessage := by ring
      have hsplit : here ++ l.drop perMessage = l := by rw [hhere, chunk_append hle]
      have hcount : here.length = if n = 0 then l.length else perMessage := by
        rw [hhere, length_chunk hlt]
      have hfits : here.length ≤ perMessage := by
        rw [hcount]
        split
        · rename_i hn
          subst hn
          omega
        · exact le_rfl
      have hroom : (1 + size) * here.length ≤ kMsgMaxSize :=
        (Nat.mul_le_mul_left _ hfits).trans hsize
      obtain ⟨b', hpaste, hb', hentries⟩ := pasteAll_entries size
        (b := { b with offset := 0 }) (l := here) rfl (by rw [hb]; exact hroom)
      have hbuf : b'.buf.length = kMsgMaxSize := hb'.trans hb
      have hlength : (l.drop perMessage).length = l.length - perMessage := List.length_drop ..
      obtain ⟨msgs, hmsgs, hmsg, hn, hdelivers⟩ := ih b' (l.drop perMessage) hbuf (by omega) (by
        by_cases hzero : n = 0
        · subst hzero
          omega
        · have hpos : perMessage * 1 ≤ perMessage * n := Nat.mul_le_mul_left _ (by omega)
          omega)
      refine ⟨b'.buf :: msgs, ?_, ?_, by rw [List.length_cons, hn], ?_⟩
      · rw [sendEntries, ← hhere, hpaste, Option.bind_eq_bind, Option.bind_some, hmsgs]
        rfl
      · intro msg hmem
        rcases List.mem_cons.1 hmem with rfl | hmem
        · exact hbuf
        · exact hmsg msg hmem
      · rw [hcount] at hentries
        rw [hlength] at hdelivers
        have hmap : l.map (narrow size) =
            here.map (narrow size) ++ (l.drop perMessage).map (narrow size) := by
          rw [← List.map_append, hsplit]
        rw [hmap, List.flatten_cons]
        exact hdelivers.cons hbuf hentries

/-- The buffer arguments, on whichever side an entry is refused. -/
lemma sendMems_delivers (buf : MsgBuf) (l : List (ℕ × ℕ)) (ok : ℕ × ℕ → Bool) :
    ∃ msgs, sendMems buf l = some msgs ∧ (∀ msg ∈ msgs, msg.length = kMsgMaxSize) ∧
      msgs.length = (l.length + 11) / 12 ∧
      Delivers (recvEntries 4 12 ok ((l.length + 11) / 12) l.length) msgs.flatten
        ((l.map (narrow 4)).all ok) (l.map (narrow 4)) :=
  sendEntries_delivers 4 12 ok (by decide) ((l.length + 11) / 12) ⟨buf, 0⟩ l buf.2 (by omega)
    (by omega)

/-- With one message at most it does not matter where the next would start. -/
lemma sendEntries_id {size perMessage n : ℕ} (hn : n ≤ 1) {b : Draft} (hb : b.offset = 0)
    (l : List (ℕ × ℕ)) :
    sendEntries size perMessage id n b l =
      sendEntries size perMessage (fun b => { b with offset := 0 }) n b l := by
  have hfront : ({ b with offset := 0 } : Draft) = b := by rw [← hb]
  cases n with
  | zero => rfl
  | succ n =>
      have hzero : n = 0 := by omega
      subst hzero
      simp only [sendEntries, id_eq, hfront]

lemma entries_ne_nil {size : ℕ} {l : List (ℕ × ℕ)} (h : l ≠ []) :
    (l.flatMap fun x => [leBytes 1 x.1, leBytes size x.2]) ≠ [] := by
  obtain ⟨x, l, rfl⟩ := List.exists_cons_of_ne_nil h
  rw [List.flatMap_cons]
  exact List.cons_ne_nil _ _

/-- Messages that are not set back to the front share one buffer. -/
lemma sendEntries_id_fits {size perMessage n : ℕ} {b : Draft} {l : List (ℕ × ℕ)}
    {msgs : List (List UInt8)} (hn : 0 < n) (hl : l ≠ []) (hper : 0 < perMessage)
    (h : sendEntries size perMessage id n b l = some msgs) :
    b.offset + (1 + size) * l.length ≤ b.buf.length := by
  induction n generalizing b l msgs with
  | zero => omega
  | succ n ih =>
      simp only [sendEntries, id_eq, Option.bind_eq_bind, Option.bind_eq_some_iff] at h
      obtain ⟨b', hpaste, more, hmore, -⟩ := h
      obtain ⟨hoffset, hbuf, hle⟩ := Draft.offset_of_pasteAll hpaste
      rw [length_entries] at hoffset
      by_cases hzero : n = 0
      · rw [if_pos hzero] at hoffset hle
        have hfits := hle (entries_ne_nil hl)
        omega
      · rw [if_neg hzero] at hoffset hle
        have hpos : 0 < l.length := List.length_pos_iff.2 hl
        have htake : l.take perMessage ≠ [] := by
          intro hnil
          have := congrArg List.length hnil
          rw [List.length_take, List.length_nil] at this
          omega
        have hfits := hle (entries_ne_nil htake)
        have hsum : (1 + size) * (l.take perMessage).length +
            (1 + size) * (l.drop perMessage).length = (1 + size) * l.length := by
          rw [← Nat.mul_add, ← List.length_append, List.take_append_drop]
        by_cases hdrop : l.drop perMessage = []
        · rw [hdrop, List.length_nil] at hsum
          omega
        · have hrest := ih (by omega) hdrop hmore
          omega

/-- The by-value arguments come through when they fit one message, and none of them when the byte
with their number is zero. -/
lemma sendConsts_delivers (buf : MsgBuf) {l : List (ℕ × ℕ)}
    (hl : l.length ≤ 7 ∨ l.length % 2 ^ 8 = 0) :
    ∃ msgs, sendConsts buf l = some msgs ∧ (∀ msg ∈ msgs, msg.length = kMsgMaxSize) ∧
      Yields (recvEntries 8 7 (fun _ => true) ((l.length % 2 ^ 8 + 6) / 7) (l.length % 2 ^ 8))
        msgs.flatten (.ok ((l.take (l.length % 2 ^ 8)).map (narrow 8))) := by
  by_cases hzero : l.length % 2 ^ 8 = 0
  · have htimes : (l.length % 2 ^ 8 + kMsgMaxSize / (1 + 8) - 1) / (kMsgMaxSize / (1 + 8)) = 0 := by
      rw [hzero]
      rfl
    refine ⟨[], by rw [sendConsts, htimes, sendEntries], by simp, ?_⟩
    rw [hzero]
    exact Yields.pure []
  · have hmod : l.length % 2 ^ 8 = l.length := Nat.mod_eq_of_lt (by omega)
    obtain ⟨msgs, hmsgs, hmsg, -, hdelivers⟩ := sendEntries_delivers 8 7 (fun _ => true)
      (by decide) ((l.length + 6) / 7) ⟨buf, 0⟩ l buf.2 (by omega) (by omega)
    have htimes : (l.length + kMsgMaxSize / (1 + 8) - 1) / (kMsgMaxSize / (1 + 8)) ≤ 1 := by
      show (l.length + 7 - 1) / 7 ≤ 1
      omega
    refine ⟨msgs, ?_, hmsg, ?_⟩
    · rw [sendConsts, hmod, sendEntries_id htimes rfl]
      exact hmsgs
    · have hall : (l.map (narrow 8)).all (fun _ => true) = true := by simp
      rw [hall] at hdelivers
      rw [hmod, List.take_length]
      exact hdelivers

/-- The messages are as many as asked for, each the buffer they are pasted into. -/
lemma length_sendEntries {size perMessage n : ℕ} {rewind : Draft → Draft}
    (hrewind : ∀ b, (rewind b).buf = b.buf) {b : Draft} {l : List (ℕ × ℕ)}
    {msgs : List (List UInt8)} (h : sendEntries size perMessage rewind n b l = some msgs) :
    msgs.length = n ∧ ∀ msg ∈ msgs, msg.length = b.buf.length := by
  induction n generalizing b l msgs with
  | zero =>
      cases h
      simp
  | succ n ih =>
      simp only [sendEntries, Option.bind_eq_bind, Option.bind_eq_some_iff, Option.some.injEq] at h
      obtain ⟨b', hpaste, more, hmore, rfl⟩ := h
      obtain ⟨hlength, hmsg⟩ := ih hmore
      have hbuf := (Draft.offset_of_pasteAll hpaste).2.1
      rw [hrewind] at hbuf
      refine ⟨by rw [List.length_cons, hlength], fun msg hmem => ?_⟩
      rcases List.mem_cons.1 hmem with rfl | hmem
      · exact hbuf
      · exact (hmsg msg hmem).trans hbuf

/-- More by-value arguments than a message holds overrun the buffer, unless the byte with their
number is zero. -/
lemma length_of_sendConsts {buf : MsgBuf} {l : List (ℕ × ℕ)} {msgs : List (List UInt8)}
    (h : sendConsts buf l = some msgs) : l.length ≤ 7 ∨ l.length % 2 ^ 8 = 0 := by
  by_cases hzero : l.length % 2 ^ 8 = 0
  · exact Or.inr hzero
  · have hl : l ≠ [] := by
      rintro rfl
      exact hzero rfl
    have htimes : 0 < (l.length % 2 ^ 8 + kMsgMaxSize / (1 + 8) - 1) / (kMsgMaxSize / (1 + 8)) := by
      show 0 < (l.length % 2 ^ 8 + 7 - 1) / 7
      omega
    have hfits := sendEntries_id_fits htimes hl (by decide) h
    have hbuf : (buf : List UInt8).length = 64 := buf.2
    simp only [hbuf] at hfits
    omega

/-! ## Readers that take too little -/

lemma sockRecv_takes (n : ℕ) : Takes (sockRecv n) (n % 2 ^ 32) := by
  rw [sockRecv]
  exact (Takes.stop _ _).ite (Takes.next _ _)

lemma recvEntries_takes (size perMessage : ℕ) (ok : ℕ × ℕ → Bool) (n left : ℕ) :
    Takes (recvEntries size perMessage ok n left) (kMsgMaxSize * n) := by
  induction n generalizing left with
  | zero => exact Takes.pure []
  | succ n ih =>
      have hstep : kMsgMaxSize * (n + 1) = kMsgMaxSize % 2 ^ 32 + (kMsgMaxSize * n + 0) := by
        show 64 * (n + 1) = 64 % 2 ^ 32 + (64 * n + 0)
        omega
      rw [recvEntries, hstep]
      refine (sockRecv_takes kMsgMaxSize).bind fun buf => ?_
      exact ((ih _).bind fun more => Takes.pure _).ite (Takes.stop _ _)

end ElasticFramework
