import ElasticFramework.Construction.Rounds
import ElasticFramework.Properties.RoundTrip

/-!
# Buffer arguments come through

The client's loop pastes the entries of a round in order (`sendRounds_eq`), the handler's reads
them where they were pasted (`recvRounds_eq`), so the loops do what is done with the list cut into
portions.  `changedMemId_delivered` is the result for the loops: they agree on the number of
messages, stay inside their buffers, and the handler has the list the client had, up to an entry
that it refuses, which is one for a null pointer.
-/

namespace ElasticFramework

open Reader

lemma roundOf_eq {count times n i : ℕ} (h : n + 1 + i = times) :
    roundOf count times i = List.range' (i * 12) (if n = 0 then count - i * 12 else 12) := by
  have hmax : maxMemInMsg = 12 := rfl
  unfold roundOf
  rw [hmax]
  by_cases hn : n = 0
  · simp [hn, show i + 1 = times by omega]
  · simp only [hn, show i + 1 ≠ times by omega, if_false]
    congr 1
    omega

/-! ## The client -/

lemma foldlM_getElem {α β : Type} (f : β → α → Option β) (l : List α) {a k : ℕ}
    (h : a + k ≤ l.length) (b : β) :
    (List.range' a k).foldlM (fun b j => do let x ← l[j]?; f b x) b =
      ((l.drop a).take k).foldlM f b := by
  induction k generalizing a b with
  | zero => simp
  | succ k ih =>
      have hlt : a < l.length := by omega
      rw [List.range'_succ, List.foldlM_cons, List.drop_eq_getElem_cons hlt, List.take_succ_cons,
        List.foldlM_cons, List.getElem?_eq_getElem hlt]
      simp only [Option.bind_eq_bind, Option.bind_some]
      congr 1
      funext b
      exact ih (by omega) b

lemma foldlM_pasteEntry (l : List (ℕ × ℕ)) (b : Draft) :
    l.foldlM pasteEntry b = b.pasteAll (l.flatMap fun x => [leBytes 1 x.1, leBytes 4 x.2]) := by
  induction l generalizing b with
  | nil => rfl
  | cons x l ih =>
      rw [List.foldlM_cons, List.flatMap_cons, List.cons_append, List.cons_append,
        List.nil_append, Draft.pasteAll_cons, pasteEntry]
      simp only [Option.bind_eq_bind, Option.bind_assoc, Draft.pasteAll_cons]
      congr 1
      funext b
      congr 1
      funext b
      exact ih b

/-- A round pastes its portion of the list. -/
lemma sendRound_eq {l : List (ℕ × ℕ)} {times n i : ℕ} (h : n + 1 + i = times)
    (hfits : 12 * (n + 1 + i) < l.length + 12) (buf : List UInt8) :
    sendRound l times i buf = ((⟨buf, 0⟩ : Draft).pasteAll
      ((if n = 0 then l.drop (i * 12) else (l.drop (i * 12)).take 12).flatMap
        fun x => [leBytes 1 x.1, leBytes 4 x.2])).map Draft.buf := by
  rw [sendRound, roundOf_eq h, foldlM_getElem pasteEntry l (by split <;> omega),
    foldlM_pasteEntry]
  by_cases hn : n = 0
  · simp [hn, List.take_of_length_le, List.length_drop]
  · simp [hn]

/-- The rounds send what is sent with the list cut into portions. -/
lemma sendRounds_eq {l : List (ℕ × ℕ)} {times : ℕ} (htimes : 12 * times < l.length + 12) (n i : ℕ)
    (h : n + i = times) (b : Draft) :
    sendRounds l times n i b.buf =
      sendEntries 4 12 (fun b => { b with offset := 0 }) n b (l.drop (i * 12)) := by
  induction n generalizing i b with
  | zero => rfl
  | succ n ih =>
      rw [sendRounds, sendRound_eq h (by omega), sendEntries]
      simp only [Option.bind_eq_bind, Option.bind_map, List.drop_drop]
      congr 1
      funext b'
      have hnext : i * 12 + 12 = (i + 1) * 12 := by omega
      rw [Function.comp_apply, ih (i + 1) (by omega) b', hnext]

lemma sendChangedMemId_eq (buf : MsgBuf) (l : List (ℕ × ℕ)) :
    sendChangedMemId buf l = sendMems buf l := by
  have htimes : 12 * memSendTimes l.length < l.length + 12 := by
    unfold memSendTimes
    rw [show maxMemInMsg = 12 from rfl]
    omega
  exact sendRounds_eq htimes (memSendTimes l.length) 0 (Nat.add_zero _) ⟨buf, 0⟩

/-! ## The handler -/

section Handler

variable {buf : List UInt8}

/-- The entry of `j` is in its place among the twelve of its message. -/
lemma recvEntry_eq (hbuf : buf.length = kMsgMaxSize) (i : ℕ) {k : ℕ} (hk : k < 12) :
    recvEntry buf (i * 12 + k) =
      some (field buf ((1 + 4) * k) 1, field buf ((1 + 4) * k + 1) 4) := by
  have hsize : buf.length = 64 := hbuf
  have hmod : (i * 12 + k) % maxMemInMsg = k := by
    rw [show maxMemInMsg = 12 from rfl]
    omega
  rw [recvEntry, hmod, readAt_eq (by omega), readAt_eq (by omega)]
  rfl

lemma addRound_range' (hbuf : buf.length = kMsgMaxSize) (i : ℕ) {a k : ℕ} (hk : a + k ≤ 12)
    (args : List (ℕ × ℕ)) :
    addRound buf (List.range' (i * 12 + a) k) args =
      let entries := (List.range' a k).map fun j =>
        (field buf ((1 + 4) * j) 1, field buf ((1 + 4) * j + 1) 4)
      if entries.all fun x => x.2 ≠ nullMemId then .ok (args ++ entries) else .error .abort := by
  induction k generalizing a args with
  | zero => simp [addRound]
  | succ k ih =>
      have hrest := ih (a := a + 1) (by omega)
        (args ++ [(field buf ((1 + 4) * a) 1, field buf ((1 + 4) * a + 1) 4)])
      rw [List.range'_succ, List.range'_succ, addRound, recvEntry_eq hbuf i (by omega)]
      simp only [List.map_cons, List.all_cons]
      by_cases hnull : field buf ((1 + 4) * a + 1) 4 = nullMemId
      · simp [hnull]
      · simp only [hnull, ne_eq, not_false_eq_true, if_true, decide_true, Bool.true_and]
        rw [Nat.add_assoc, hrest]
        simp only [List.append_assoc, List.cons_append, List.nil_append, ne_eq]

/-- A round makes the `AddArg`s of its entries, unless one of them is refused. -/
lemma addRound_eq (hbuf : buf.length = kMsgMaxSize) (i : ℕ) {k : ℕ} (hk : k ≤ 12)
    (args : List (ℕ × ℕ)) :
    addRound buf (List.range' (i * 12) k) args =
      if (entriesOf 4 k buf).all fun x => x.2 ≠ nullMemId then .ok (args ++ entriesOf 4 k buf)
      else .error .abort := by
  have hround := addRound_range' hbuf i (a := 0) (k := k) (by omega) args
  rw [Nat.add_zero, ← List.range_eq_range'] at hround
  exact hround

lemma length_of_sockRecv {l l' : List UInt8} (h : sockRecv kMsgMaxSize l = (.ok buf, l')) :
    buf.length = kMsgMaxSize := by
  have hpos : ¬ kMsgMaxSize % 2 ^ 32 = 0 := by decide
  rw [sockRecv, if_neg hpos, Reader.next] at h
  split at h
  · rename_i hle
    cases h
    exact List.length_take_of_le hle
  · cases h

/-- The rounds receive what is received with the list cut into portions. -/
lemma recvRounds_eq {count times : ℕ} (htimes : count ≤ 12 * times) (n i : ℕ) (h : n + i = times)
    (args : List (ℕ × ℕ)) :
    recvRounds count times n i args = (do
      let more ← recvEntries 4 12 (fun x => x.2 ≠ nullMemId) n (count - i * 12)
      pure (args ++ more)) := by
  induction n generalizing i args with
  | zero =>
      show (pure args : Recv (List (ℕ × ℕ))) = pure (args ++ [])
      rw [List.append_nil]
  | succ n ih =>
      rw [recvRounds, recvEntries, Reader.bind_assoc]
      refine Reader.bind_congr fun l buf l' hrecv => ?_
      have hround := addRound_eq (length_of_sockRecv hrecv) i
        (k := if n = 0 then count - i * 12 else 12) (by split <;> omega) args
      rw [roundOf_eq h, hround]
      obtain ⟨entries, hentries⟩ : ∃ entries,
        entries = entriesOf 4 (if n = 0 then count - i * 12 else 12) buf := ⟨_, rfl⟩
      rw [← hentries]
      by_cases hok : (entries.all fun x => x.2 ≠ nullMemId) = true
      · have hnext : count - i * 12 - 12 = count - (i + 1) * 12 := by omega
        simp only [hok, if_true]
        rw [ih (i + 1) (by omega), Reader.bind_assoc, hnext]
        refine Reader.bind_congr fun _ more _ _ => ?_
        show (pure (args ++ entries ++ more) : Recv (List (ℕ × ℕ))) =
          pure (args ++ (entries ++ more))
        rw [List.append_assoc]
      · simp only [hok]
        rfl

lemma recvChangedMemId_eq (count : ℕ) :
    recvChangedMemId count =
      recvEntries 4 12 (fun x => x.2 ≠ nullMemId) ((count + 11) / 12) count := by
  have hmax : maxMemInMsg = 12 := rfl
  unfold recvChangedMemId memSendTimes
  by_cases hcount : count = 0
  · subst hcount
    rfl
  · simp only [hcount, ne_eq, not_false_eq_true, if_true, hmax]
    rw [recvRounds_eq (by omega) _ 0 (Nat.add_zero _), Nat.zero_mul, Nat.sub_zero]
    exact Reader.bind_pure _

end Handler

/-! ## Client and handler -/

/-- The buffer arguments of a launch come through.  Every paste is inside `arg_send_buf`, the
messages are those that the handler reads, and it reads inside `arg_recv_buf` and has the client's
list, unless there is a null pointer in it, at which it fails its assertion. -/
theorem changedMemId_delivered (argSendBuf : MsgBuf) {l : List (ℕ × ℕ)} (hlength : l.length < 2 ^ 8)
    (hentries : ∀ x ∈ l, x.1 < 2 ^ 8 ∧ x.2 < 2 ^ 32) :
    ∃ msgs, sendChangedMemId argSendBuf l = some msgs ∧
      (∀ msg ∈ msgs, msg.length = kMsgMaxSize) ∧
      msgs.length = memSendTimes (field (leBytes 1 l.length) 0 1) ∧
      Delivers (recvChangedMemId (field (leBytes 1 l.length) 0 1)) msgs.flatten
        (l.all fun x => x.2 ≠ nullMemId) l := by
  have hcount : field (leBytes 1 l.length) 0 1 = l.length := by
    have hfield := field_leBytes 1 1 l.length [] le_rfl
    rw [List.append_nil] at hfield
    rw [hfield, Nat.mod_eq_of_lt (by omega)]
  have hnarrow : l.map (narrow 4) = l := by
    refine (List.map_congr_left fun x hx => ?_).trans (List.map_id l)
    obtain ⟨hindex, hid⟩ := hentries x hx
    exact Prod.ext (Nat.mod_eq_of_lt hindex) (Nat.mod_eq_of_lt hid)
  obtain ⟨msgs, hmsgs, hsize, htimes, hdelivers⟩ :=
    sendMems_delivers argSendBuf l fun x => x.2 ≠ nullMemId
  rw [hnarrow] at hdelivers
  rw [hcount, recvChangedMemId_eq]
  exact ⟨msgs, (sendChangedMemId_eq argSendBuf l).trans hmsgs, hsize, htimes, hdelivers⟩

/-- Thirteen buffers take two messages. -/
theorem changedMemId_delivered_thirteen :
    ∃ msgs, sendChangedMemId zeroed (List.replicate 13 (1, 7)) = some msgs ∧
      (∀ msg ∈ msgs, msg.length = kMsgMaxSize) ∧
      msgs.length = memSendTimes (field (leBytes 1 13) 0 1) ∧
      Delivers (recvChangedMemId (field (leBytes 1 13) 0 1)) msgs.flatten
        ((List.replicate 13 (1, 7)).all fun x => x.2 ≠ nullMemId) (List.replicate 13 (1, 7)) :=
  changedMemId_delivered zeroed (l := List.replicate 13 (1, 7)) (by decide) (by decide)

/-- A null pointer is not recovered. -/
theorem null_buffer_refused :
    ¬ ∀ (argSendBuf : MsgBuf) (l : List (ℕ × ℕ)), l.length < 2 ^ 8 →
      (∀ x ∈ l, x.1 < 2 ^ 8 ∧ x.2 < 2 ^ 32) →
      ∃ msgs, sendChangedMemId argSendBuf l = some msgs ∧
        Yields (recvChangedMemId l.length) msgs.flatten (.ok l) := by
  intro h
  obtain ⟨msgs, hmsgs, hyields⟩ := h zeroed [(0, nullMemId)] (by decide) (by decide)
  have hrefused : (sendChangedMemId zeroed [(0, nullMemId)]).map
      (fun msgs => (recvChangedMemId 1 (msgs.flatten ++ [])).1) = some (.error .abort) := rfl
  rw [hmsgs, Option.map_some] at hrefused
  have hok : (recvChangedMemId 1 (msgs.flatten ++ [])).1 = .ok [(0, nullMemId)] :=
    congrArg Prod.fst (hyields [])
  rw [hok] at hrefused
  cases hrefused

end ElasticFramework
