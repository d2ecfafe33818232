import ElasticFramework.Framework.Transition

/-!
# Doing later what was asked for now

A server is asked for operations of a machine.  Some it performs at once, the others it puts on a
list and performs in order, whenever it gets to it.  What is meant is the run that performs every
operation when it is asked for, and there is one: nothing is asked for that cannot be performed
then.

## The relation

`Owes` ties the two together: from the state `d` the server is in, the operations on its list lead
to where all that was asked for leads, and what has been said so far is the beginning of what there
is to say.  It survives an operation put off (`Owes.defer`), the first of the list performed, which
can be (`Owes.perform`), and an operation performed ahead of the list (`Owes.atOnce`).

The last takes a condition.  `Early I a p` means that in the states of `I` the operation `a`, where
it can be performed behind `p`, can be performed ahead of it; it is about the two operations alone,
and `early_exec` takes it to a list of any length.
-/

namespace ElasticFramework

namespace Machine

variable {σ ι ε : Type*} (M : Machine σ ι) (emit : σ → ι → List ε)

/-! ## Operations performed ahead of others -/

/-- Where `p` can be performed and `a` after it, `a` can be performed first, which comes to the
same; `p` emits the same. -/
structure Early (I : σ → Prop) (a p : ι) : Prop where
  comm : ∀ s t u, I s → M.step s p = some t → M.step t a = some u →
    ∃ s', M.step s a = some s' ∧ M.step s' p = some u
  emits : ∀ s s' t, I s → M.step s a = some s' → M.step s p = some t → emit s' p = emit s p

variable {M emit} {I : σ → Prop} {s₀ d r r' : σ} {asked pending : List ι} {said : List ε} {a p : ι}

/-- An operation that may go ahead of each of a list may go ahead of the list. -/
lemma early_exec (hI : ∀ p ∈ pending, ∀ s s', I s → M.step s p = some s' → I s')
    (hearly : ∀ p ∈ pending, M.Early emit I a p) (hd : I d) (hpending : M.exec d pending = some r)
    (ha : M.step r a = some r') :
    ∃ d', M.step d a = some d' ∧ M.exec d' pending = some r' ∧
      M.trace emit d' pending = M.trace emit d pending := by
  induction pending generalizing d with
  | nil =>
      cases hpending
      exact ⟨r', ha, rfl, rfl⟩
  | cons p pending ih =>
      obtain ⟨t, ht, hrest⟩ := M.exec_cons_iff.1 hpending
      have hp : M.Early emit I a p := hearly p List.mem_cons_self
      obtain ⟨u, hu, hexec, htrace⟩ := ih (fun q hq => hI q (List.mem_cons_of_mem _ hq))
        (fun q hq => hearly q (List.mem_cons_of_mem _ hq)) (hI p List.mem_cons_self d t hd ht) hrest
      obtain ⟨d', hd', hp'⟩ := hp.comm d t u hd ht hu
      refine ⟨d', hd', M.exec_cons_iff.2 ⟨u, hp', hexec⟩, ?_⟩
      rw [trace, trace, hp', ht, hp.emits d d' t hd hd' ht, Option.map_some, Option.map_some,
        htrace]

/-! ## What is left to do -/

variable (M emit) in
/-- At `d`, with `said` said, what is left to do of all that was asked for at `s₀` is `pending`, and
it leads to `r`. -/
structure Owes (s₀ : σ) (asked : List ι) (said : List ε) (d : σ) (pending : List ι) (r : σ) :
    Prop where
  meant : M.exec s₀ asked = some r
  left : M.exec d pending = some r
  emits : M.trace emit s₀ asked = said ++ M.trace emit d pending

namespace Owes

lemma init (s₀ : σ) : M.Owes emit s₀ [] [] s₀ [] s₀ := ⟨rfl, rfl, rfl⟩

/-- An operation is put off. -/
lemma defer (h : M.Owes emit s₀ asked said d pending r) (hp : M.step r p = some r') :
    M.Owes emit s₀ (asked ++ [p]) said d (pending ++ [p]) r' where
  meant := M.exec_snoc_iff.2 ⟨r, h.meant, hp⟩
  left := M.exec_snoc_iff.2 ⟨r, h.left, hp⟩
  emits := by
    rw [trace_snoc _ _ _ h.meant, trace_snoc _ _ _ h.left, h.emits, List.append_assoc]

/-- An operation that emits nothing is performed ahead of the list. -/
lemma atOnce (h : M.Owes emit s₀ asked said d pending r)
    (hI : ∀ p ∈ pending, ∀ s s', I s → M.step s p = some s' → I s')
    (hearly : ∀ p ∈ pending, M.Early emit I a p) (hquiet : ∀ s, emit s a = []) (hd : I d)
    (ha : M.step r a = some r') :
    ∃ d', M.step d a = some d' ∧ M.Owes emit s₀ (asked ++ [a]) said d' pending r' := by
  obtain ⟨d', hd', hexec, htrace⟩ := early_exec hI hearly hd h.left ha
  refine ⟨d', hd', M.exec_snoc_iff.2 ⟨r, h.meant, ha⟩, hexec, ?_⟩
  rw [trace_snoc _ _ _ h.meant, hquiet, List.append_nil, h.emits, htrace]

/-- The first of the list can be performed. -/
lemma perform (h : M.Owes emit s₀ asked said d (p :: pending) r) :
    ∃ d', M.step d p = some d' ∧ M.Owes emit s₀ asked (said ++ emit d p) d' pending r := by
  obtain ⟨d', hp, hleft⟩ := M.exec_cons_iff.1 h.left
  refine ⟨d', hp, h.meant, hleft, ?_⟩
  rw [h.emits, trace, hp, Option.map_some, Option.getD_some, List.append_assoc]

/-- With nothing left to do, all that was asked for has been done, and said. -/
lemma settled (h : M.Owes emit s₀ asked said d [] r) :
    M.exec s₀ asked = some d ∧ M.trace emit s₀ asked = said := by
  obtain ⟨hmeant, hleft, hemits⟩ := h
  cases hleft
  exact ⟨hmeant, by rw [hemits, trace_nil, List.append_nil]⟩

/-- What has been said is the beginning of what there is to say. -/
lemma said_begins (h : M.Owes emit s₀ asked said d pending r) :
    said <+: M.trace emit s₀ asked :=
  ⟨_, h.emits.symm⟩

end Owes

end Machine

end ElasticFramework
