import ElasticFramework.Construction.History
import ElasticFramework.Properties.RoundTrip
import Mathlib.Data.List.TakeWhile

/-!
# What arrives of the history file

The last block is never full, so that at least one zero is sent behind the file.  Whatever the
handler takes for the end marker, what it has written by then ends before the zeros or takes some
of them in: it is never the file (`not_transferred`).  What the transfer comes to when the marker
arrives by itself, and nothing before it looks like it, is the file with the zeros (`padded_iff`).
-/

namespace ElasticFramework

namespace History

variable {file : List UInt8}

/-! ## What is sent -/

lemma length_cleared {l : List UInt8} (h : l.length ≤ kMsgMaxSize) :
    (cleared l).length = kMsgMaxSize := by
  rw [cleared, List.length_append, List.length_replicate]
  omega

lemma length_block {file block : List UInt8} (h : block ∈ blocks file) :
    block.length = kMsgMaxSize := by
  induction file using blocks.induct with
  | case1 file hshort =>
      rw [blocks, if_pos hshort, List.mem_singleton] at h
      rw [h]
      exact length_cleared hshort.le
  | case2 file hlong ih =>
      rw [blocks, if_neg hlong] at h
      rcases List.mem_cons.1 h with rfl | h
      · exact length_cleared (List.length_take_le _ _)
      · exact ih h

/-- The file, and the zeros that fill the last block. -/
lemma flatten_blocks (file : List UInt8) : (blocks file).flatten =
    file ++ List.replicate (kMsgMaxSize - file.length % kMsgMaxSize) 0 := by
  induction file using blocks.induct with
  | case1 file hshort =>
      rw [blocks, if_pos hshort, Nat.mod_eq_of_lt hshort]
      simp [cleared]
  | case2 file hlong ih =>
      have htake : (file.take kMsgMaxSize).length = kMsgMaxSize :=
        List.length_take_of_le (Nat.le_of_not_lt hlong)
      rw [blocks, if_neg hlong, List.flatten_cons, ih, cleared, htake, Nat.sub_self,
        List.replicate_zero, List.append_nil, ← List.append_assoc, List.take_append_drop,
        List.length_drop, ← Nat.mod_eq_sub_mod (Nat.le_of_not_lt hlong)]

/-- There is at least one of them. -/
lemma padding_eq (file : List UInt8) :
    List.replicate (kMsgMaxSize - file.length % kMsgMaxSize) (0 : UInt8) =
      0 :: List.replicate (kMsgMaxSize - file.length % kMsgMaxSize - 1) 0 := by
  have hlt : file.length % kMsgMaxSize < kMsgMaxSize := Nat.mod_lt _ (by decide)
  rw [← List.replicate_succ]
  congr 1
  omega

/-- The bytes on the socket. -/
def sent (file : List UInt8) : List UInt8 := (transmit (updateScore file)).bytes

lemma length_update {data : List UInt8} (h : data ∈ updateScore file) :
    0 < data.length ∧ data.length ≤ kMsgMaxSize := by
  rcases List.mem_append.1 h with hblock | hend
  · rw [length_block hblock]
    decide
  · rw [List.mem_singleton.1 hend]
    decide

lemma sent_eq (file : List UInt8) : sent file =
    file ++ List.replicate (kMsgMaxSize - file.length % kMsgMaxSize) 0 ++ endMarker := by
  have hsmall : ∀ data ∈ updateScore file, 0 < data.length ∧ data.length < 2 ^ 32 :=
    fun data hdata => (length_update hdata).imp_right fun hle => lt_of_le_of_lt hle (by decide)
  rw [sent, transmit_small hsmall, updateScore, List.flatten_append, flatten_blocks]
  rfl

/-! ## The end marker -/

lemma isEnd_iff (buf : List UInt8) : isEnd buf = true ↔ buf.take 3 = endMarker := by
  let text := (buf.take 3).takeWhile (· ≠ 0)
  have hzero : 0 ∉ text := fun h => by simpa using List.mem_takeWhile_imp h
  have hstring : cString (strncpy buf 3 ++ [0]) = some text := by
    rw [strncpy, List.append_assoc, ← List.replicate_succ']
    exact cString_append hzero _
  rw [isEnd, hstring, decide_eq_true_eq, Option.some_inj]
  constructor
  · intro htext
    -- three characters in front of a zero leave no room for one
    have hfront : text <+: buf.take 3 := List.takeWhile_prefix _
    rw [← htext]
    refine (hfront.eq_of_length_le ?_).symm
    rw [htext]
    exact List.length_take_le _ _
  · intro htake
    change (buf.take 3).takeWhile _ = endMarker
    rw [htake]
    decide

/-- The zeros behind a result are not taken for a part of the marker. -/
lemma isEnd_cleared_iff (l : List UInt8) : isEnd (cleared l) = true ↔ endMarker <+: l := by
  rw [isEnd_iff, cleared]
  constructor
  · intro h
    have hlength : 3 ≤ l.length := by
      by_contra! hlt
      have hthird : ((l ++ List.replicate (kMsgMaxSize - l.length) 0).take 3)[2]? = some 0 := by
        rw [List.getElem?_take_of_lt (by decide), List.getElem?_append_right (by omega),
          List.getElem?_replicate_of_lt (by simp only [kMsgMaxSize]; omega)]
      rw [h] at hthird
      exact absurd hthird (by decide)
    rw [List.take_append_of_le_length hlength] at h
    exact h ▸ List.take_prefix 3 l
  · rintro ⟨t, rfl⟩
    rw [List.append_assoc]
    exact List.take_left' rfl

/-! ## What is received -/

lemma size_data_pos {c : List UInt8} (h : c ≠ []) : 0 < (RecvResult.data c).size :=
  Int.natCast_pos.2 (List.length_pos_iff.2 h)

lemma handlerUpdateScore_end {c : List UInt8} (h : endMarker <+: c) (rs : List RecvResult) :
    handlerUpdateScore (.data c :: rs) = { copy := [], ended := true, unread := rs } := by
  have hne : c ≠ [] := by
    rintro rfl
    exact absurd (List.prefix_nil.1 h) (by decide)
  have hend : isEnd (cleared (RecvResult.data c).bytes) = true := (isEnd_cleared_iff c).2 h
  rw [handlerUpdateScore, if_pos (size_data_pos hne), if_pos hend]

lemma handlerUpdateScore_write {c : List UInt8} (hne : c ≠ []) (h : ¬ endMarker <+: c)
    (rs : List RecvResult) : handlerUpdateScore (.data c :: rs) =
      { handlerUpdateScore rs with copy := c ++ (handlerUpdateScore rs).copy } := by
  have hend : ¬ isEnd (cleared (RecvResult.data c).bytes) = true :=
    fun hend => h ((isEnd_cleared_iff c).1 hend)
  rw [handlerUpdateScore, if_pos (size_data_pos hne), if_neg hend]
  rfl

/-- The handler stops at the first result that starts with the marker, or waits for one. -/
lemma handlerUpdateScore_cases {cs : List (List UInt8)} (h : ∀ c ∈ cs, c ≠ []) :
    (handlerUpdateScore (cs.map .data)).ended = false ∨
      ∃ pre c post, cs = pre ++ c :: post ∧ (∀ d ∈ pre, ¬ endMarker <+: d) ∧ endMarker <+: c ∧
        handlerUpdateScore (cs.map .data) =
          { copy := pre.flatten, ended := true, unread := post.map .data } := by
  induction cs with
  | nil => exact Or.inl rfl
  | cons c cs ih =>
      obtain ⟨hne, hcs⟩ := List.forall_mem_cons.1 h
      by_cases hend : endMarker <+: c
      · exact Or.inr ⟨[], c, cs, rfl, by simp, hend, handlerUpdateScore_end hend _⟩
      · rw [List.map_cons, handlerUpdateScore_write hne hend]
        rcases ih hcs with hwait | ⟨pre, d, post, rfl, hpre, hd, heq⟩
        · exact Or.inl hwait
        · refine Or.inr ⟨c :: pre, d, post, rfl, List.forall_mem_cons.2 ⟨hend, hpre⟩, hd, ?_⟩
          rw [heq]
          rfl

/-- If only the last result starts with it, all the others are written. -/
lemma handlerUpdateScore_snoc {pre : List (List UInt8)} {c : List UInt8}
    (hpre : ∀ d ∈ pre, d ≠ [] ∧ ¬ endMarker <+: d) (hc : endMarker <+: c) :
    handlerUpdateScore ((pre ++ [c]).map .data) =
      { copy := pre.flatten, ended := true, unread := [] } := by
  induction pre with
  | nil => exact handlerUpdateScore_end hc []
  | cons d pre ih =>
      obtain ⟨⟨hne, hend⟩, hrest⟩ := List.forall_mem_cons.1 hpre
      rw [List.cons_append, List.map_cons, handlerUpdateScore_write hne hend, ih hrest]
      rfl

/-- The file has arrived, and the handler is done with what was sent. -/
def Transferred (file : List UInt8) (s : Segmentation (sent file)) : Prop :=
  handlerUpdateScore s.results = { copy := file, ended := true, unread := [] }

/-- **No transfer.**  Whatever the file and however the bytes arrive, the copy is not the file when
the end is recognised: the byte that was sent behind the file is a zero, at which no marker
starts. -/
theorem not_transferred (file : List UInt8) (s : Segmentation (sent file)) :
    ¬ Transferred file s := by
  intro h
  rw [Transferred, Segmentation.results] at h
  rcases handlerUpdateScore_cases s.ne_nil with hwait | ⟨pre, c, post, hcs, -, hc, heq⟩
  · rw [h] at hwait
    cases hwait
  have hcopy : pre.flatten = file := (Handled.mk.inj (heq.symm.trans h)).1
  obtain ⟨t, rfl⟩ := hc
  have hflatten := s.flatten_eq
  rw [hcs, List.flatten_append, hcopy, List.flatten_cons, sent_eq, List.append_assoc,
    List.append_assoc] at hflatten
  have hrest := List.append_cancel_left hflatten
  rw [padding_eq, List.cons_append] at hrest
  exact absurd (List.cons.inj hrest).1 (by decide)

/-- What comes of a transfer at best: the handler is done with what was sent, and has written the
file and the zeros behind it, when the marker arrives by itself and is not seen before. -/
theorem padded_iff (file : List UInt8) (s : Segmentation (sent file)) :
    handlerUpdateScore s.results =
        { copy := (blocks file).flatten, ended := true, unread := [] } ↔
      ∃ pre, s.chunks = pre ++ [endMarker] ∧ ∀ c ∈ pre, ¬ endMarker <+: c := by
  have hsent : s.chunks.flatten = (blocks file).flatten ++ endMarker := by
    rw [s.flatten_eq, sent_eq, flatten_blocks]
  rw [Segmentation.results]
  constructor
  · intro h
    rcases handlerUpdateScore_cases s.ne_nil with hwait | ⟨pre, c, post, hcs, hpre, hc, heq⟩
    · rw [h] at hwait
      cases hwait
    obtain ⟨hcopy, -, hpost⟩ := Handled.mk.inj (heq.symm.trans h)
    have hnil : post = [] := List.map_eq_nil_iff.1 hpost
    rw [hcs, hnil, List.flatten_append, hcopy, List.flatten_singleton] at hsent
    have hmarker : c = endMarker := List.append_cancel_left hsent
    exact ⟨pre, by rw [hcs, hnil, hmarker], hpre⟩
  · rintro ⟨pre, hchunks, hpre⟩
    rw [hchunks, List.flatten_append, List.flatten_singleton] at hsent
    have hne : ∀ c ∈ pre, c ≠ [] := fun c hc =>
      s.ne_nil c (hchunks ▸ List.mem_append_left _ hc)
    rw [hchunks, handlerUpdateScore_snoc (fun c hc => ⟨hne c hc, hpre c hc⟩) (List.prefix_refl _),
      List.append_cancel_right hsent]

/-- What is given to `Send` arrives piece by piece. -/
def oneByOne (file : List UInt8) : Segmentation (sent file) where
  chunks := updateScore file
  flatten_eq := by rw [sent_eq, updateScore, List.flatten_append, flatten_blocks]; rfl
  ne_nil c hc := by
    rintro rfl
    exact absurd (length_update hc).1 (lt_irrefl 0)
  length_le c hc := (length_update hc).2

/-- `"{}"` is followed by 62 zeros in the copy. -/
theorem object_padded :
    ¬ ∀ (file : List UInt8) (s : Segmentation (sent file)), Transferred file s := by
  intro h
  have hchunks : (oneByOne [123, 125]).chunks = [cleared [123, 125], endMarker] := by
    change updateScore [123, 125] = _
    rw [updateScore, blocks, if_pos (by decide)]
    rfl
  have hobject := h [123, 125] (oneByOne [123, 125])
  rw [Transferred, Segmentation.results, hchunks] at hobject
  exact absurd hobject (by decide)

end History

end ElasticFramework
