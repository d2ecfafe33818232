import ElasticFramework.Construction.BestNodes
import ElasticFramework.Properties.Nodes
import ElasticFramework.Properties.RoundTrip

/-!
# Asking for nodes and being told

Results about the request for the best nodes and its answer, each with the condition under which
the code does what it is for.

`request_decodes_iff`: the name stands in the middle of a message of fixed size, which leaves it
forty bytes, and the id is read with half the bytes it was written with, as a signed number.

`chooseBestCN_iff`: the array is as long as the client asked for, and the loop that fills it runs
over the nodes there are.

`ips_received_iff`: one buffer is used for all the answers and never cleared, so that an address
comes with the end of a longer one before it.

`getDevices_answered_iff` puts the three together.
-/

namespace ElasticFramework

open Reader

/-! ## The request -/

section Request

variable (sendBuf : MsgBuf) (appName : List UInt8) (deadline levelCnt : Int32) (clientId : UInt64)

lemma length_leInt (x : Int32) : (leInt x).length = 4 := length_leBytes 4 _

/-- An `int` read from a number of at least as many bytes. -/
lemma readInt_leBytes (pre rest : List UInt8) {size : ℕ} (h : 4 ≤ size) (v : ℕ) :
    readInt (pre ++ (leBytes size v ++ rest)) pre.length = some (Int32.ofNat (v % 2 ^ 32)) := by
  rw [readInt, readAt_append pre rest h, Option.map_some]

lemma readInt_leInt (pre rest : List UInt8) (x : Int32) :
    readInt (pre ++ (leInt x ++ rest)) pre.length = some x := by
  have hx : Int32.ofNat x.toUInt32.toNat = x := by
    rw [← UInt32.toInt32_ofNat', UInt32.ofNat_toNat, Int32.toInt32_toUInt32]
  rw [leInt, readInt_leBytes pre rest le_rfl, Nat.mod_eq_of_lt x.toUInt32.toNat_lt, hx]

/-- What the handler reads of a message that holds the fields. -/
lemma parseGetBestCN_fields (type : List UInt8) (htype : type.length = 4) {name : List UInt8}
    (hname : name.length < 2 ^ 31) (deadline levelCnt : Int32) (clientId : ℕ) (tail : List UInt8) :
    parseGetBestCN (type ++ (leBytes 4 name.length ++ (name ++ (leInt deadline ++
      (leInt levelCnt ++ (leBytes 8 clientId ++ tail)))))) =
      some { appName := name, deadline := deadline, levelCnt := levelCnt,
             clientId := Int32.ofNat (clientId % 2 ^ 32) } := by
  have hsize : (Int32.ofNat (name.length % 2 ^ 32)).toInt = name.length := by
    rw [Nat.mod_eq_of_lt (by omega), Int32.toInt_ofNat_of_lt hname]
  have hsign : ¬ Int32.ofNat (name.length % 2 ^ 32) < 0 := by
    rw [Int32.lt_iff_toInt_lt, hsize]
    simp
  obtain ⟨pre, hpre⟩ : ∃ pre, pre = type ++ leBytes 4 name.length := ⟨_, rfl⟩
  -- Each later field stands behind all that come before it.
  have hnameSize := readInt_leBytes type (name ++ (leInt deadline ++ (leInt levelCnt ++
    (leBytes 8 clientId ++ tail)))) le_rfl name.length
  have happName := bytesAt_append pre name (leInt deadline ++ (leInt levelCnt ++
    (leBytes 8 clientId ++ tail)))
  have hdeadline := readInt_leInt (pre ++ name) (leInt levelCnt ++ (leBytes 8 clientId ++ tail))
    deadline
  have hlevel := readInt_leInt (pre ++ name ++ leInt deadline) (leBytes 8 clientId ++ tail) levelCnt
  have hclient := readInt_leBytes (pre ++ name ++ leInt deadline ++ leInt levelCnt) tail
    (by decide : 4 ≤ 8) clientId
  simp only [hpre, List.length_append, List.append_assoc, length_leBytes, htype,
    length_leInt] at hnameSize happName hdeadline hlevel hclient
  rw [show 4 + (4 + name.length) = 8 + name.length by omega] at hdeadline
  rw [show 4 + (4 + (name.length + 4)) = 8 + name.length + 4 by omega] at hlevel
  rw [show 4 + (4 + (name.length + (4 + 4))) = 8 + name.length + 8 by omega] at hclient
  rw [parseGetBestCN, hnameSize]
  simp only [Option.bind_eq_bind, Option.bind_some, hsign, if_false, hsize, Int.toNat_natCast,
    happName, hdeadline, hlevel, hclient]

/-- The message is packed unless the name leaves no room for the other fields. -/
lemma packGetBestCN_eq (hname : appName.length % 2 ^ 32 ≤ 40) :
    ∃ msg, packGetBestCN sendBuf appName deadline levelCnt clientId = some msg ∧
      msg.length = kMsgMaxSize ∧ parseGetBestCN msg =
        some { appName := appName.take (appName.length % 2 ^ 32), deadline := deadline,
               levelCnt := levelCnt, clientId := Int32.ofNat (clientId.toNat % 2 ^ 32) } := by
  obtain ⟨name, hname'⟩ : ∃ name, name = appName.take (appName.length % 2 ^ 32) := ⟨_, rfl⟩
  have hlength : name.length = appName.length % 2 ^ 32 := by
    rw [hname', List.length_take_of_le (Nat.mod_le _ _)]
  have hsendBuf : (sendBuf : List UInt8).length = 64 := sendBuf.2
  obtain ⟨b, tail, hb, hholds, -⟩ := (Draft.Holds.front sendBuf).pasteAll
    (l := [leBytes 4 kGetBestCN, leBytes 4 name.length, name, leInt deadline, leInt levelCnt,
      leBytes 8 clientId.toNat]) (by simp [length_leInt]; omega)
  refine ⟨b.buf, ?_, (Draft.offset_of_pasteAll hb).2.1.trans sendBuf.2, ?_⟩
  · rw [packGetBestCN, if_pos (by omega), ← hname', ← hlength, hb, Option.map_some]
  · have hparse := parseGetBestCN_fields (leBytes 4 kGetBestCN) (length_leBytes _ _)
      (by omega : name.length < 2 ^ 31) deadline levelCnt clientId.toNat tail
    rw [hholds.buf, ← hname', ← hparse]
    simp only [List.nil_append, List.flatten_cons, List.flatten_nil, List.append_nil,
      List.append_assoc]

lemma packGetBestCN_eq_none (hname : 40 < appName.length % 2 ^ 32) :
    packGetBestCN sendBuf appName deadline levelCnt clientId = none := by
  rw [packGetBestCN]
  split
  · rw [Option.map_eq_none_iff, Option.eq_none_iff_forall_ne_some]
    intro b hb
    obtain ⟨hoffset, hbuf, hle⟩ := Draft.offset_of_pasteAll hb
    have hfits := hle (List.cons_ne_nil _ _)
    have htake : (appName.take (appName.length % 2 ^ 32)).length = appName.length % 2 ^ 32 :=
      List.length_take_of_le (Nat.mod_le _ _)
    have hlength : b.buf.length = kMsgMaxSize := hbuf.trans sendBuf.2
    simp only [List.flatten_cons, List.flatten_nil, List.length_append, length_leBytes, htake,
      length_leInt, List.length_nil] at hoffset
    simp only [kMsgMaxSize] at hlength
    omega
  · rfl

/-- Nothing is sent, or the message fits and the handler reads what the client put in. -/
def RequestSurvives : Prop :=
  (0 < levelCnt → ∃ msg request,
    getDevices sendBuf appName deadline levelCnt clientId = .sent msg ∧
      msg.length = kMsgMaxSize ∧ parseGetBestCN msg = some request ∧
      request.appName = appName ∧ request.deadline = deadline ∧ request.levelCnt = levelCnt ∧
      request.clientId.toInt = clientId.toNat)

/-- The last four of the eight bytes of an id are not read. -/
lemma toInt_clientId (h : (Int32.ofNat (clientId.toNat % 2 ^ 32)).toInt = clientId.toNat) :
    clientId.toNat < 2 ^ 31 := by
  have hlt := (Int32.ofNat (clientId.toNat % 2 ^ 32)).toInt_lt
  omega

/-- The node is asked for what the client wants exactly when the client wants nothing, or the name
leaves room for the other fields and the id is one an `int` can hold. -/
theorem request_decodes_iff :
    RequestSurvives sendBuf appName deadline levelCnt clientId ↔
      (0 < levelCnt → appName.length ≤ 40 ∧ clientId.toNat < 2 ^ 31) := by
  refine forall_congr' fun hlevel => ?_
  rw [getDevices, if_pos hlevel]
  constructor
  · rintro ⟨msg, request, hsent, -, hparse, hname, -, -, hid⟩
    by_cases hsize : appName.length % 2 ^ 32 ≤ 40
    · obtain ⟨msg', hpack, -, hparse'⟩ := packGetBestCN_eq sendBuf appName deadline levelCnt
        clientId hsize
      rw [hpack] at hsent
      cases hsent
      rw [hparse'] at hparse
      cases hparse
      have hlength := congrArg List.length hname
      rw [List.length_take_of_le (Nat.mod_le _ _)] at hlength
      exact ⟨by omega, toInt_clientId clientId hid⟩
    · rw [packGetBestCN_eq_none sendBuf appName deadline levelCnt clientId (by omega)] at hsent
      cases hsent
  · rintro ⟨hname, hid⟩
    have hmod : appName.length % 2 ^ 32 = appName.length := Nat.mod_eq_of_lt (by omega)
    obtain ⟨msg, hpack, hlength, hparse⟩ := packGetBestCN_eq sendBuf appName deadline levelCnt
      clientId (by omega)
    refine ⟨msg, _, by rw [hpack], hlength, hparse, ?_, rfl, rfl, ?_⟩
    · rw [hmod, List.take_length]
    · show (Int32.ofNat (clientId.toNat % 2 ^ 32)).toInt = clientId.toNat
      rw [Nat.mod_eq_of_lt (by omega), Int32.toInt_ofNat_of_lt hid]

/-- With a name of forty-one characters the id ends one byte behind the message. -/
theorem long_name_overruns :
    ¬ RequestSurvives zeroed (List.replicate 41 97) 0 1 0 := by
  intro h
  obtain ⟨msg, -, hsent, -⟩ := h (by decide)
  rw [getDevices, if_pos (by decide), packGetBestCN_eq_none _ _ _ _ _ (by decide)] at hsent
  cases hsent

end Request

/-! ## The nodes -/

section Nodes

namespace KeyArray

/-- From the end of the array on nothing is written into it. -/
lemma fill_end (a : KeyArray) {i : ℕ} (hi : a.cells.length ≤ i) (ids : List ℤ) :
    a.fill i ids = { cells := a.cells, overrun := a.overrun || decide (0 < ids.length) } := by
  induction ids generalizing a i with
  | nil => simp [fill]
  | cons key ids ih =>
      have hwrite : a.write i key = { a with overrun := true } := if_neg (by omega)
      rw [fill, hwrite, ih { a with overrun := true } (i := i + 1) (Nat.le_succ_of_le hi)]
      simp

/-- The cells behind those that are written stay as they are. -/
lemma fill_eq (a : KeyArray) {done : List (Option ℤ)} {room : ℕ}
    (h : a.cells = done ++ List.replicate room none) (ids : List ℤ) :
    a.fill done.length ids =
      { cells := done ++ (ids.take room).map some ++ List.replicate (room - ids.length) none
        overrun := a.overrun || decide (room < ids.length) } := by
  induction ids generalizing a done room with
  | nil => simp [fill, ← h]
  | cons key ids ih =>
      cases room with
      | zero =>
          rw [fill_end a (by simp [h])]
          simp [h]
      | succ room =>
          have hwrite : a.write done.length key =
              { a with cells := done ++ [some key] ++ List.replicate room none } := by
            rw [write, if_pos (by simp [h]), h, List.replicate_succ,
              List.set_append_right _ _ le_rfl, Nat.sub_self, List.set_cons_zero,
              List.append_assoc, List.singleton_append]
          have hlength : done.length + 1 = (done ++ [some key]).length := by simp
          rw [fill, hwrite, hlength,
            ih { a with cells := done ++ [some key] ++ List.replicate room none } rfl]
          simp [List.take_succ_cons]

/-- The array holds as many distinct keys as there are and fit, and every cell is set. -/
structure Lists (a : KeyArray) (n : ℕ) (ids : List ℤ) : Prop where
  inside : a.overrun = false
  keys : ∃ keys : List ℤ, a.cells.take (min n ids.length) = keys.map some ∧ keys.Nodup ∧
    keys ⊆ ids ∧ keys.length = min n ids.length
  set : ∀ i < n, ∃ key, a.cells[i]? = some (some key)

end KeyArray

variable {K : Type*}

/-- What is in the array, and whether the loop has left it. -/
lemma Scoring.chooseBestCN_eq (r : Registry K) (n : ℕ) :
    Scoring.chooseBestCN r n =
      { cells := (r.ids.take n).map some ++ List.replicate (n - r.ids.length) none
        overrun := decide (n < r.ids.length) } := by
  have hcells : (KeyArray.new n).cells = [] ++ List.replicate n none := rfl
  have h := (KeyArray.new n).fill_eq hcells r.ids
  rw [List.length_nil] at h
  rw [Scoring.chooseBestCN, h]
  simp [KeyArray.new]

/-- As long as the array is it is all set, when there are nodes enough. -/
lemma Scoring.chooseBestCN_ids (r : Registry K) :
    Scoring.chooseBestCN r r.ids.length = { cells := r.ids.map some, overrun := false } := by
  simp [Scoring.chooseBestCN_eq]

/-- The array is right exactly when as many nodes are asked for as there are: with fewer nodes the
last cells are never set, with more the loop writes behind the array. -/
theorem chooseBestCN_iff (r : Registry K) (n : ℕ) (hids : r.ids.Nodup) :
    (Scoring.chooseBestCN r n).Lists n r.ids ↔ n = r.ids.length := by
  constructor
  · rintro ⟨hinside, -, hset⟩
    rw [Scoring.chooseBestCN_eq] at hinside hset
    have hle : r.ids.length ≤ n := Nat.le_of_not_lt (of_decide_eq_false hinside)
    by_contra hne
    obtain ⟨key, hkey⟩ := hset r.ids.length (by omega)
    rw [List.getElem?_append_right (by simp), List.getElem?_replicate] at hkey
    split at hkey
    · cases hkey
    · cases hkey
  · rintro rfl
    rw [Scoring.chooseBestCN_ids]
    refine ⟨rfl, ⟨r.ids, ?_, hids, fun _ h => h, by simp⟩, fun i hi => ⟨r.ids[i], ?_⟩⟩
    · exact List.take_of_length_le (by simp)
    · rw [List.getElem?_map, List.getElem?_eq_getElem hi, Option.map_some]

theorem chooseBestCN_iff_two :
    (Scoring.chooseBestCN (K := ℤ)
      ⟨[(0, ⟨0, 0, 1⟩), (1, ⟨0, 0, 1⟩)], 1, 0, 0, 2⟩ 2).Lists 2 [0, 1] :=
  (chooseBestCN_iff ⟨[(0, ⟨0, 0, 1⟩), (1, ⟨0, 0, 1⟩)], 1, 0, 0, 2⟩ 2 (by decide)).2 rfl

/-- One node and a request for two: the second cell is used without having been set. -/
theorem second_key_unset :
    ¬ (Scoring.chooseBestCN (K := ℤ) ⟨[(0, ⟨0, 0, 1⟩)], 0, 0, 0, 1⟩ 2).Lists 2 [0] := by
  intro h
  obtain ⟨key, hkey⟩ := h.set 1 (by decide)
  have hnone : (Scoring.chooseBestCN (K := ℤ) ⟨[(0, ⟨0, 0, 1⟩)], 0, 0, 0, 1⟩ 2).cells[1]? =
      some none := rfl
  rw [hnone] at hkey
  cases hkey

end Nodes

/-! ## The answers -/

section Answers

namespace IPString

/-- The buffer after it has held an address. -/
def slot (front : IPString) : List UInt8 :=
  front.1 ++ List.replicate (kMsgMaxSize - front.1.length) 0

/-- Nothing. -/
def empty : IPString := ⟨[], by decide⟩

/-- What is left of a buffer with `front` in it when `ip` is pasted to the beginning. -/
def overwrite (front ip : IPString) : IPString :=
  ⟨ip.1 ++ front.1.drop ip.1.length, by
    have hfront := front.2.1
    have hip := ip.2.1
    rw [List.length_append, List.length_drop]
    omega, by
    rw [List.mem_append]
    rintro (h | h)
    · exact ip.2.2 h
    · exact front.2.2 (List.mem_of_mem_drop h)⟩

lemma length_slot (front : IPString) : front.slot.length = kMsgMaxSize := by
  have hfront := front.2.1
  rw [slot, List.length_append, List.length_replicate, kMsgMaxSize]
  omega

/-- The end of a longer address stays behind a shorter one. -/
lemma paste_slot (front ip : IPString) :
    Draft.paste ⟨front.slot, 0⟩ ip = some ⟨(front.overwrite ip).slot, ip.1.length⟩ := by
  have hfront := front.2.1
  have hip := ip.2.1
  have hfits : 0 + ip.1.length ≤ front.slot.length := by
    rw [length_slot, kMsgMaxSize]
    omega
  have hzeros : kMsgMaxSize - front.1.length - (ip.1.length - front.1.length) =
      kMsgMaxSize - (ip.1.length + (front.1.length - ip.1.length)) := by
    rw [kMsgMaxSize]
    omega
  have hrest : front.slot.drop (0 + ip.1.length) = front.1.drop ip.1.length ++
      List.replicate (kMsgMaxSize - (front.overwrite ip).1.length) 0 := by
    rw [Nat.zero_add, slot, List.drop_append, List.drop_replicate, hzeros, overwrite,
      List.length_append, List.length_drop]
  rw [Draft.paste, if_pos hfits, hrest, slot]
  simp [overwrite, slot]

lemma cString_slot (front : IPString) : cString front.slot = some front.1 := by
  have hfront := front.2.1
  have hzeros : kMsgMaxSize - front.1.length = (63 - front.1.length) + 1 := by
    rw [kMsgMaxSize]
    omega
  rw [slot, hzeros, List.replicate_succ, cString_append front.2.2]

lemma overwrite_eq_iff (front ip : IPString) :
    front.overwrite ip = ip ↔ front.1.length ≤ ip.1.length := by
  rw [Subtype.ext_iff, overwrite, List.append_right_eq_self, List.drop_eq_nil_iff]

/-- What the answers are read as, from a buffer with `front` in it. -/
def arriving (front : IPString) : List IPString → List IPString
  | [] => []
  | ip :: ips => front.overwrite ip :: (front.overwrite ip).arriving ips

lemma length_arriving (front : IPString) (ips : List IPString) :
    (front.arriving ips).length = ips.length := by
  induction ips generalizing front with
  | nil => rfl
  | cons ip ips ih => rw [arriving, List.length_cons, ih, List.length_cons]

/-- Nothing of an earlier address is left exactly when no address is shorter than one before. -/
lemma arriving_eq_iff (front : IPString) (ips : List IPString) :
    front.arriving ips = ips ↔ (∀ ip ∈ ips, front.1.length ≤ ip.1.length) ∧
      ips.Pairwise fun ip ip' => ip.1.length ≤ ip'.1.length := by
  induction ips generalizing front with
  | nil => simp [arriving]
  | cons ip ips ih =>
      rw [arriving, List.cons.injEq, overwrite_eq_iff, List.pairwise_cons, List.forall_mem_cons]
      constructor
      · rintro ⟨hle, harriving⟩
        rw [(overwrite_eq_iff front ip).2 hle, ih] at harriving
        exact ⟨⟨hle, fun ip' hip' => hle.trans (harriving.1 ip' hip')⟩, harriving⟩
      · rintro ⟨⟨hle, -⟩, hpairwise⟩
        rw [(overwrite_eq_iff front ip).2 hle, ih]
        exact ⟨hle, hpairwise⟩

/-- The buffer is cleared before the first address. -/
lemma arriving_empty_iff (ips : List IPString) :
    empty.arriving ips = ips ↔ ips.Pairwise fun ip ip' => ip.1.length ≤ ip'.1.length := by
  have hempty : ∀ ip ∈ ips, empty.1.length ≤ ip.1.length := fun ip _ => Nat.zero_le _
  rw [arriving_eq_iff, and_iff_right hempty]

end IPString

open IPString

lemma sendIPs_slot (front : IPString) (ips : List IPString) :
    sendIPs front.slot (ips.map Subtype.val) = some ((front.arriving ips).map slot) := by
  induction ips generalizing front with
  | nil => rfl
  | cons ip ips ih =>
      rw [List.map_cons, sendIPs, paste_slot]
      simp only [Option.bind_eq_bind, Option.bind_some, ih, arriving, List.map_cons]

lemma recvIPs_slots (l : List IPString) :
    Yields (recvIPs l.length) (l.map slot).flatten (.ok (l.map Subtype.val)) := by
  induction l with
  | nil => exact Yields.pure []
  | cons front l ih =>
      have hrecv := sockRecv_small front.slot (by rw [length_slot]; decide)
        (by rw [length_slot]; decide)
      rw [length_slot] at hrecv
      refine hrecv.bind ?_
      rw [cString_slot]
      refine (Yields.orStop_some _ _).bind_nil ?_
      rw [← List.append_nil (List.flatten _)]
      exact ih.bind (Yields.pure _)

/-- Of the answers with these addresses the client reads the addresses. -/
def IPsReceived (ips : List IPString) : Prop :=
  ∃ answers, sendIPs zeroed (ips.map Subtype.val) = some answers ∧
    Yields (recvIPs ips.length) answers.flatten (.ok (ips.map Subtype.val))

lemma ipsReceived_iff (ips : List IPString) : IPsReceived ips ↔ empty.arriving ips = ips := by
  have hzeroed : (zeroed : List UInt8) = empty.slot := rfl
  have hrecv := recvIPs_slots (empty.arriving ips)
  rw [length_arriving] at hrecv
  rw [IPsReceived, hzeroed, sendIPs_slot]
  constructor
  · rintro ⟨answers, hanswers, hyields⟩
    cases hanswers
    have heq := (hrecv []).symm.trans (hyields [])
    exact List.map_injective_iff.2 Subtype.val_injective (Except.ok.inj (Prod.mk.inj heq).1)
  · intro heq
    rw [heq] at hrecv ⊢
    exact ⟨_, rfl, hrecv⟩

/-- The client reads the addresses that were sent exactly when none is shorter than one before
it. -/
theorem ips_received_iff (ips : List IPString) :
    IPsReceived ips ↔ ips.Pairwise fun ip ip' => ip.1.length ≤ ip'.1.length := by
  rw [ipsReceived_iff, arriving_empty_iff]

/-- `10.0.0.2` after `10.0.0.10` is read as `10.0.0.20`. -/
theorem shorter_ip_keeps_tail :
    ¬ IPsReceived [⟨[49, 48, 46, 48, 46, 48, 46, 49, 48], by decide⟩,
      ⟨[49, 48, 46, 48, 46, 48, 46, 50], by decide⟩] := by
  rw [ipsReceived_iff]
  decide

end Answers

/-! ## Request and answers -/

section Discovery

open IPString

variable {K : Type*} (r : Registry K) (ip : ℤ → IPString)

/-- The addresses of all nodes are found. -/
lemma mapM_getCN : r.ids.mapM (fun id => (r.getCN id).map fun _ => (ip id : List UInt8)) =
    some (r.ids.map fun id => (ip id).1) := by
  have hfound : ∀ l : List ℤ, (∀ id ∈ l, id ∈ r.ids) →
      l.mapM (fun id => (r.getCN id).map fun _ => (ip id : List UInt8)) =
        some (l.map fun id => (ip id).1) := by
    intro l hl
    induction l with
    | nil => rfl
    | cons id l ih =>
        rw [List.forall_mem_cons] at hl
        obtain ⟨cn, hcn⟩ := Option.isSome_iff_exists.1 (r.isSome_getCN_iff.2 hl.1)
        rw [List.mapM_cons, ih hl.2, hcn]
        rfl
  exact hfound r.ids fun _ h => h

lemma mapM_set (l : List ℤ) : (l.map some).mapM id = some l := by
  rw [List.mapM_map]
  exact List.mapM_pure.trans (congrArg some (List.map_id l))

/-- A key that is read before it is set. -/
lemma mapM_unset (l : List ℤ) (n : ℕ) :
    (l.map some ++ List.replicate (n + 1) none).mapM id = (none : Option (List ℤ)) := by
  rw [List.mapM_append, List.replicate_succ, List.mapM_cons]
  cases (l.map some).mapM id <;> rfl

/-- The handler answers when as many nodes are asked for as there are, with the addresses of
all. -/
lemma handlerGetBestCN_eq {buf : List UInt8} {request : BestCNRequest}
    (hparse : parseGetBestCN buf = some request) :
    handlerGetBestCN r ip buf =
      if request.levelCnt.toInt = r.ids.length then sendIPs zeroed (r.ids.map fun id => (ip id).1)
      else none := by
  have hsign : request.levelCnt < 0 ↔ request.levelCnt.toInt < 0 := Int32.lt_iff_toInt_lt
  rw [handlerGetBestCN, hparse]
  simp only [Option.bind_eq_bind, Option.bind_some, Scoring.chooseBestCN_eq, hsign,
    decide_eq_true_iff]
  split
  · rw [if_neg (by omega)]
  · rename_i hbounds
    obtain ⟨n, hn⟩ := Int.eq_ofNat_of_zero_le (not_lt.1 fun h => hbounds (Or.inl h))
    rw [hn, Int.toNat_natCast] at hbounds ⊢
    rw [List.take_of_length_le (by omega)]
    by_cases hlevel : n = r.ids.length
    · rw [if_pos (by rw [hlevel]), hlevel, Nat.sub_self, List.replicate_zero, List.append_nil,
        mapM_set, Option.bind_some, mapM_getCN, Option.bind_some]
    · obtain ⟨m, hm⟩ : ∃ m, n - r.ids.length = m + 1 := ⟨n - r.ids.length - 1, by omega⟩
      rw [if_neg (by omega), hm, mapM_unset]
      rfl

/-- The client is told the addresses of all nodes, in the order of the map, exactly when it asks
for as many as there are and none is shorter than one before it. -/
theorem getDevices_answered_iff (sendBuf : MsgBuf) {appName : List UInt8}
    {deadline levelCnt : Int32} (clientId : UInt64) (hname : appName.length ≤ 40)
    (hlevel : 0 < levelCnt) :
    (∃ msg answers, getDevices sendBuf appName deadline levelCnt clientId = .sent msg ∧
      handlerGetBestCN r ip msg = some answers ∧
      Yields (recvIPs levelCnt.toInt.toNat) answers.flatten
        (.ok (r.ids.map fun id => (ip id).1))) ↔
    levelCnt.toInt = r.ids.length ∧
      (r.ids.map ip).Pairwise fun ip ip' => ip.1.length ≤ ip'.1.length := by
  obtain ⟨msg, hpack, -, hparse⟩ := packGetBestCN_eq sendBuf appName deadline levelCnt clientId
    ((Nat.mod_le _ _).trans hname)
  have hsent : getDevices sendBuf appName deadline levelCnt clientId = .sent msg := by
    rw [getDevices, if_pos hlevel, hpack]
  have hanswers := handlerGetBestCN_eq r ip hparse
  have hips : (r.ids.map ip).map Subtype.val = r.ids.map fun id => (ip id).1 := List.map_map ..
  have hreceived := ipsReceived_iff (r.ids.map ip)
  rw [arriving_empty_iff, IPsReceived, hips, List.length_map] at hreceived
  rw [← hreceived]
  constructor
  · rintro ⟨msg', answers, hsent', hhandler, hyields⟩
    cases hsent.symm.trans hsent'
    rw [hanswers] at hhandler
    split at hhandler
    · rename_i hcount
      change levelCnt.toInt = _ at hcount
      rw [hcount, Int.toNat_natCast] at hyields
      exact ⟨hcount, answers, hhandler, hyields⟩
    · cases hhandler
  · rintro ⟨hcount, answers, hsendIPs, hyields⟩
    refine ⟨msg, answers, hsent, ?_, ?_⟩
    · rw [hanswers, if_pos hcount, hsendIPs]
    · rwa [hcount, Int.toNat_natCast]

end Discovery

/-- Two nodes, the second of which was registered last. -/
def nineAndTen : Registry ℕ where
  CNs := [(0, ⟨0, 0, 1⟩), (1, ⟨0, 0, 1⟩)]
  cnId := 1
  basedInnerProduct := 0
  vLengSquare := 0
  iLengSquare := 2

/-- `10.0.0.9`, and `10.0.0.10` for the others. -/
def nodeAddress (id : ℤ) : IPString :=
  if id = 0 then ⟨[49, 48, 46, 48, 46, 48, 46, 57], by decide⟩
  else ⟨[49, 48, 46, 48, 46, 48, 46, 49, 48], by decide⟩

/-- A client that asks for two nodes is told both addresses. -/
theorem getDevices_answered_iff_two :
    ∃ msg answers, getDevices zeroed [97] 10 2 0 = .sent msg ∧
      handlerGetBestCN nineAndTen nodeAddress msg = some answers ∧
      Yields (recvIPs 2) answers.flatten
        (.ok [[49, 48, 46, 48, 46, 48, 46, 57], [49, 48, 46, 48, 46, 48, 46, 49, 48]]) :=
  (getDevices_answered_iff nineAndTen nodeAddress zeroed 0 (by decide) (by decide)).2 (by decide)

end ElasticFramework
