import ElasticFramework.Construction.Platforms

/-!
# The node does not find itself among the platforms

The loop keeps `Filtered`: an entry behind the erased one moves to the index the loop goes on with,
so that none is skipped.  Each round brings the index and the number of platforms closer.
-/

namespace ElasticFramework

namespace PlatformLoop

variable {α : Type*} {name : α → List UInt8} {ids : List α} {s s' : PlatformLoop α}

lemma filtered_init (p : PlatformIDs α) : Filtered name p.platforms (init p) where
  split := ⟨[], p.platforms, rfl, rfl, rfl⟩
  length_platforms := p.length_platforms

/-- Where the condition holds the index is that of an entry. -/
lemma Filtered.getElem? (h : Filtered name ids s) (hi : s.i < s.numOfPlatforms) :
    ∃ seen p rest, ids = seen ++ p :: rest ∧
      s.platforms = seen.filter (fun p => name p ≠ newsclName) ++ p :: rest ∧
      s.i.toNat = (seen.filter fun p => name p ≠ newsclName).length ∧
      s.platforms[s.i.toNat]? = some p := by
  obtain ⟨seen, rest, hids, hplatforms, hlen⟩ := h.split
  cases rest with
  | nil =>
      have hlt : s.i.toNat < s.platforms.length := h.length_platforms ▸ UInt32.lt_iff_toNat_lt.1 hi
      rw [hplatforms, List.append_nil, hlen] at hlt
      exact absurd hlt (lt_irrefl _)
  | cons p rest =>
      refine ⟨seen, p, rest, hids, hplatforms, hlen, ?_⟩
      rw [hplatforms, hlen, List.getElem?_append_right le_rfl, Nat.sub_self]
      rfl

section Entry

variable {seen rest : List α} {p : α} (h : Filtered name ids s) (hids : ids = seen ++ p :: rest)
  (hplatforms : s.platforms = seen.filter (fun p => name p ≠ newsclName) ++ p :: rest)
  (hlen : s.i.toNat = (seen.filter fun p => name p ≠ newsclName).length)
  (hi : s.i < s.numOfPlatforms)

include h hids hplatforms hlen hi

/-- The entry is erased: the next one moves to its index. -/
lemma filtered_erase (hname : name p = newsclName) :
    let s' : PlatformLoop α :=
      ⟨s.i - 1 + 1, s.numOfPlatforms - 1, s.platforms.eraseIdx s.i.toNat⟩
    Filtered name ids s' ∧
      s'.numOfPlatforms.toNat - s'.i.toNat < s.numOfPlatforms.toNat - s.i.toNat := by
  have hlt := UInt32.lt_iff_toNat_lt.1 hi
  have hcount : (seen.filter fun p => name p ≠ newsclName).length + (rest.length + 1) =
      s.numOfPlatforms.toNat := by
    rw [← h.length_platforms, hplatforms, List.length_append, List.length_cons]
  have hback : s.i - 1 + 1 = s.i := sub_add_cancel s.i 1
  have hone : (s.numOfPlatforms - 1).toNat = s.numOfPlatforms.toNat - 1 :=
    UInt32.toNat_sub_of_le _ 1 (UInt32.le_iff_toNat_le.2 (Nat.one_le_of_lt hlt))
  have herase : s.platforms.eraseIdx s.i.toNat =
      seen.filter (fun p => name p ≠ newsclName) ++ rest := by
    rw [hplatforms, hlen, List.eraseIdx_append_of_length_le le_rfl, Nat.sub_self,
      List.eraseIdx_cons_zero]
  refine ⟨⟨⟨seen ++ [p], rest, by simpa using hids, ?_, ?_⟩, ?_⟩, ?_⟩
  · show s.platforms.eraseIdx s.i.toNat = _
    rw [herase, List.filter_append]
    simp [hname]
  · show (s.i - 1 + 1).toNat = _
    rw [hback, hlen, List.filter_append]
    simp [hname]
  · show (s.platforms.eraseIdx s.i.toNat).length = (s.numOfPlatforms - 1).toNat
    rw [herase, hone, List.length_append]
    omega
  · show (s.numOfPlatforms - 1).toNat - (s.i - 1 + 1).toNat < _
    rw [hback, hone]
    omega

/-- The entry is kept: the loop goes on behind it. -/
lemma filtered_keep (hname : name p ≠ newsclName) :
    Filtered name ids { s with i := s.i + 1 } ∧
      s.numOfPlatforms.toNat - (s.i + 1).toNat < s.numOfPlatforms.toNat - s.i.toNat := by
  have hlt := UInt32.lt_iff_toNat_lt.1 hi
  have hnext : (s.i + 1).toNat = s.i.toNat + 1 := by
    rw [UInt32.toNat_add]
    exact Nat.mod_eq_of_lt (lt_of_le_of_lt hlt (UInt32.toNat_lt _))
  refine ⟨⟨⟨seen ++ [p], rest, by simpa using hids, ?_, ?_⟩, h.length_platforms⟩, ?_⟩
  · show s.platforms = _
    rw [hplatforms, List.filter_append]
    simp [hname]
  · show (s.i + 1).toNat = _
    rw [hnext, hlen, List.filter_append]
    simp [hname]
  · omega

end Entry

/-- A round keeps what was filtered, and brings the end closer. -/
lemma Filtered.round (h : Filtered name ids s) (hs : s.round name = .again s') :
    Filtered name ids s' ∧
      s'.numOfPlatforms.toNat - s'.i.toNat < s.numOfPlatforms.toNat - s.i.toNat := by
  unfold PlatformLoop.round at hs
  by_cases hi : s.i < s.numOfPlatforms
  · obtain ⟨seen, p, rest, hids, hplatforms, hlen, hp⟩ := h.getElem? hi
    rw [if_pos hi, hp] at hs
    simp only at hs
    by_cases hname : name p = newsclName
    · rw [if_pos hname] at hs
      cases hs
      exact filtered_erase h hids hplatforms hlen hi hname
    · rw [if_neg hname] at hs
      cases hs
      exact filtered_keep h hids hplatforms hlen hi hname
  · rw [if_neg hi] at hs
    cases hs

/-- At the end nothing is left to look at. -/
lemma Filtered.quit (h : Filtered name ids s) {r : Option (PlatformLoop α)}
    (hr : s.round name = .quit r) :
    r = some s ∧ s.platforms = ids.filter (fun p => name p ≠ newsclName) := by
  unfold PlatformLoop.round at hr
  by_cases hi : s.i < s.numOfPlatforms
  · obtain ⟨seen, p, rest, -, -, -, hp⟩ := h.getElem? hi
    rw [if_pos hi, hp] at hr
    simp only at hr
    split at hr <;> cases hr
  · rw [if_neg hi] at hr
    cases hr
    refine ⟨rfl, ?_⟩
    obtain ⟨seen, rest, rfl, hplatforms, hlen⟩ := h.split
    have hle : s.numOfPlatforms.toNat ≤ s.i.toNat :=
      not_lt.1 fun hlt => hi (UInt32.lt_iff_toNat_lt.2 hlt)
    have hcount := h.length_platforms
    rw [hplatforms, List.length_append] at hcount
    have hrest : rest = [] := List.length_eq_zero_iff.1 (by omega)
    rw [hplatforms, hrest, List.append_nil, List.append_nil]

/-- **The loop ends, without an access outside the vector, and leaves the platforms that are not
called `NEWSCL`, in their order, and their number.** -/
theorem platforms_filtered (name : α → List UInt8) (p : PlatformIDs α) :
    ∃ s, Loop.Ends (round name) (init p) (some s) ∧
      s.platforms = p.platforms.filter (fun id => name id ≠ newsclName) ∧
      s.numOfPlatforms.toNat = s.platforms.length := by
  obtain ⟨r, hends, s, rfl, hs, hlen⟩ := Loop.exists_ends (I := Filtered name p.platforms)
    (Q := fun r => ∃ s, r = some s ∧
      s.platforms = p.platforms.filter (fun id => name id ≠ newsclName) ∧
      s.numOfPlatforms.toNat = s.platforms.length)
    (fun s => s.numOfPlatforms.toNat - s.i.toNat)
    (fun s s' h hs => h.round hs)
    (fun s r h hr => ⟨s, (h.quit hr).1, (h.quit hr).2, h.length_platforms.symm⟩)
    (filtered_init p)
  exact ⟨s, hends, hs, hlen⟩

/-- The first entry is erased, and the index goes below zero and back. -/
example : Loop.run (round id) 3 (init ⟨2, [newsclName, [67, 80, 85]], rfl⟩) =
    some (some ⟨1, 1, [[67, 80, 85]]⟩) := by decide

end PlatformLoop

end ElasticFramework
