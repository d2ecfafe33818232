import ElasticFramework.Construction.OpenCL
import ElasticFramework.Properties.PendingArgs

/-!
# What a command does, as documented

A handler makes one call.  The `Exec` of a command makes several: a write goes to all queues, and a
kernel has its arguments set one after the other.  For an implementation that does what is
documented, all of them together do to the objects what `CLObjects.create` and `CLObjects.exec` say
(`OpenCL.Documented.create`, `OpenCL.Documented.exec`), if these have a result.

`plainCL` is an implementation that does, and runs.
-/

namespace ElasticFramework

variable {D : Type*} {cl : OpenCL D} {kernels : Kernels D} {objects : cl.Context → CLObjects}
  {C C' : cl.Context} {found : List (List UInt8)} {S' : CLObjects}

namespace OpenCL

lemma callAll_cons_iff {c : CLCall D} {cs : List (CLCall D)} :
    cl.callAll C (c :: cs) = some (found, C') ↔ ∃ first C₁ rest,
      cl.call C c = some (first, C₁) ∧ cl.callAll C₁ cs = some (rest, C') ∧
        first ++ rest = found := by
  simp only [callAll, Option.bind_eq_some_iff, Option.map_eq_some_iff, Prod.exists, Prod.mk.injEq]
  constructor
  · rintro ⟨first, C₁, hfirst, rest, C₂, hrest, hfound, rfl⟩
    exact ⟨first, C₁, rest, hfirst, hrest, hfound⟩
  · rintro ⟨first, C₁, rest, hfirst, hrest, hfound⟩
    exact ⟨first, C₁, hfirst, rest, C', hrest, hfound, rfl⟩

lemma callAll_singleton_iff {c : CLCall D} :
    cl.callAll C [c] = some (found, C') ↔ cl.call C c = some (found, C') := by
  rw [callAll_cons_iff]
  constructor
  · rintro ⟨first, C₁, rest, hfirst, hrest, rfl⟩
    cases hrest
    rwa [List.append_nil]
  · intro h
    exact ⟨found, C', [], h, rfl, List.append_nil _⟩

lemma callAll_append_iff {cs ds : List (CLCall D)} :
    cl.callAll C (cs ++ ds) = some (found, C') ↔ ∃ first C₁ rest,
      cl.callAll C cs = some (first, C₁) ∧ cl.callAll C₁ ds = some (rest, C') ∧
        first ++ rest = found := by
  induction cs generalizing C found with
  | nil =>
      constructor
      · intro h
        exact ⟨[], C, found, rfl, h, rfl⟩
      · rintro ⟨first, C₁, rest, hfirst, hrest, rfl⟩
        cases hfirst
        exact hrest
  | cons c cs ih =>
      rw [List.cons_append, callAll_cons_iff]
      constructor
      · rintro ⟨first, C₁, rest, hfirst, hrest, rfl⟩
        obtain ⟨more, C₂, last, hmore, hlast, rfl⟩ := ih.1 hrest
        exact ⟨first ++ more, C₂, last, callAll_cons_iff.2 ⟨first, C₁, more, hfirst, hmore, rfl⟩,
          hlast, List.append_assoc ..⟩
      · rintro ⟨first, C₂, rest, hfirst, hrest, rfl⟩
        obtain ⟨one, C₁, more, hone, hmore, rfl⟩ := callAll_cons_iff.1 hfirst
        exact ⟨one, C₁, more ++ rest, hone, ih.2 ⟨more, C₂, rest, hmore, hrest, rfl⟩,
          (List.append_assoc ..).symm⟩

end OpenCL

/-- To write the same once more changes nothing. -/
lemma writeAt_writeAt {contents contents' data : List UInt8} {offset : ℕ}
    (h : writeAt contents offset data = some contents') :
    writeAt contents' offset data = some contents' := by
  rw [writeAt] at h
  split at h
  · next hle =>
      cases h
      have htake : (contents.take offset).length = offset := by
        rw [List.length_take]
        omega
      have hdrop : (contents.take offset ++ (data ++ contents.drop (offset + data.length))).drop
          (offset + data.length) = contents.drop (offset + data.length) := by
        rw [← List.append_assoc]
        exact List.drop_left' (by rw [List.length_append, htake])
      rw [writeAt, hdrop, List.take_left' htake, if_pos]
      simp only [List.length_append, htake, List.length_drop]
      omega
  · cases h

namespace CLObjects

variable {S : CLObjects} {h : ℕ}

@[simp] lemma setBuffer_setBuffer (b b' : Option (List UInt8)) :
    (S.setBuffer h b).setBuffer h b' = S.setBuffer h b' := by
  simp [setBuffer]

lemma setKernel_setKernel (k k' : CLKernelObject) :
    (S.setKernel h k).setKernel h k' = S.setKernel h k' := by
  simp [setKernel]

lemma setKernel_self {k : CLKernelObject} (hk : S.kernel h = some k) : S.setKernel h k = S := by
  rw [setKernel, ← hk, Function.update_eq_self]

end CLObjects

namespace OpenCL.Documented

variable (hdoc : cl.Documented kernels objects)

include hdoc

/-- A handler's call. -/
theorem create {c : Creation} {h : ℕ} (hS : (objects C).create h c = some S')
    (hcl : cl.create C c = some (h, C')) :
    objects C' = S' ∧ ∀ kind, c.object = some kind → ¬ (objects C).Has kind h := by
  cases c with
  | program source =>
      cases hS
      obtain ⟨hnew, hobjects⟩ := hdoc.createProgram hcl
      exact ⟨hobjects, by rintro kind ⟨⟩; exact hnew⟩
  | build program =>
      obtain ⟨p, hp, rfl⟩ := Option.map_eq_some_iff.1 hS
      exact ⟨hdoc.buildProgram hp hcl, by rintro kind ⟨⟩⟩
  | kernel program kernelName =>
      obtain ⟨p, hp, rfl⟩ := Option.map_eq_some_iff.1 hS
      obtain ⟨hnew, hobjects⟩ := hdoc.createKernel hp hcl
      exact ⟨hobjects, by rintro kind ⟨⟩; exact hnew⟩
  | buffer flags size contents =>
      rw [CLObjects.create] at hS
      split at hS
      · next hlength =>
          cases hS
          obtain ⟨hnew, hobjects⟩ := hdoc.createBuffer hlength hcl
          exact ⟨hobjects, by rintro kind ⟨⟩; exact hnew⟩
      · cases hS

/-- A write to all queues. -/
lemma writeAll {mem offset : ℕ} {data contents contents' : List UInt8} (queues : List D)
    (hne : queues ≠ []) (hmem : (objects C).buffer mem = some contents)
    (hwrite : writeAt contents offset data = some contents')
    (h : cl.callAll C (queues.map fun queue => .enqueueWriteBuffer queue mem offset data) =
      some (found, C')) :
    objects C' = (objects C).setBuffer mem (some contents') ∧ found = [] := by
  induction queues generalizing C contents found with
  | nil => exact absurd rfl hne
  | cons queue queues ih =>
      obtain ⟨first, C₁, rest, hfirst, hrest, rfl⟩ := callAll_cons_iff.1 h
      obtain ⟨hobjects, rfl⟩ := hdoc.enqueueWriteBuffer hmem hwrite hfirst
      cases queues with
      | nil =>
          cases hrest
          exact ⟨hobjects, rfl⟩
      | cons queue' queues =>
          have hmem₁ : (objects C₁).buffer mem = some contents' := by
            rw [hobjects]
            exact Function.update_self ..
          obtain ⟨hobjects', rfl⟩ :=
            ih (List.cons_ne_nil _ _) hmem₁ (writeAt_writeAt hwrite) hrest
          rw [hobjects', hobjects, CLObjects.setBuffer_setBuffer]
          exact ⟨rfl, rfl⟩

/-- The arguments of a kernel are set. -/
lemma setArgs {kernel : ℕ} {k : CLKernelObject} (writes : List (ℕ × Binding))
    (hk : (objects C).kernel kernel = some k)
    (h : cl.callAll C (writes.map fun x => .setKernelArg kernel x.1 x.2) = some (found, C')) :
    objects C' = (objects C).setKernel kernel { k with args := replay writes k.args } ∧
      found = [] := by
  induction writes generalizing C k found with
  | nil =>
      cases h
      exact ⟨(CLObjects.setKernel_self hk).symm, rfl⟩
  | cons x writes ih =>
      obtain ⟨first, C₁, rest, hfirst, hrest, rfl⟩ := callAll_cons_iff.1 h
      obtain ⟨hobjects, rfl⟩ := hdoc.setKernelArg hk hfirst
      have hk₁ : (objects C₁).kernel kernel =
          some { k with args := Function.update k.args x.1 (some x.2) } := by
        rw [hobjects]
        exact Function.update_self ..
      obtain ⟨hobjects', rfl⟩ := ih hk₁ hrest
      rw [hobjects', hobjects, CLObjects.setKernel_setKernel]
      exact ⟨rfl, rfl⟩

/-- **The `Exec` of a command.**  A command that is valid does to the objects what it is meant to
do, and has read what there was. -/
theorem exec {devQueue : D} {call : DeviceCall}
    (hS : (objects C).exec kernels devQueue call = some S')
    (h : cl.exec C devQueue call = some (found, C')) :
    objects C' = S' ∧ found = (objects C).reads call := by
  cases call with
  | readBuffer mem offset cb =>
      obtain ⟨contents, hmem, hS⟩ := Option.bind_eq_some_iff.1 hS
      split at hS
      · next hle =>
          cases hS
          have hdata : bytesAt contents offset cb = some ((contents.drop offset).take cb) := by
            rw [bytesAt, if_pos hle.2]
          obtain ⟨hobjects, rfl⟩ :=
            hdoc.enqueueReadBuffer hmem hdata (callAll_singleton_iff.1 h)
          refine ⟨hobjects, ?_⟩
          rw [CLObjects.reads, hmem, Option.bind_some, hdata]
          rfl
      · cases hS
  | writeBuffer mem offset data =>
      obtain ⟨contents, hmem, hS⟩ := Option.bind_eq_some_iff.1 hS
      obtain ⟨contents', hwrite, rfl⟩ := Option.map_eq_some_iff.1 hS
      exact hdoc.writeAll _ (List.cons_ne_nil _ _) hmem hwrite h
  | copyBuffer srcMem dstMem srcOffset dstOffset cb =>
      obtain ⟨src, hsrc, hS⟩ := Option.bind_eq_some_iff.1 hS
      obtain ⟨dst, hdst, hS⟩ := Option.bind_eq_some_iff.1 hS
      obtain ⟨data, hdata, hS⟩ := Option.bind_eq_some_iff.1 hS
      obtain ⟨dst', hdst', rfl⟩ := Option.map_eq_some_iff.1 hS
      exact hdoc.enqueueCopyBuffer hsrc hdst hdata hdst' (callAll_singleton_iff.1 h)
  | releaseMemObject mem =>
      obtain ⟨contents, hmem, rfl⟩ := Option.map_eq_some_iff.1 hS
      refine hdoc.releaseMemObject ?_ (callAll_singleton_iff.1 h)
      rw [CLObjects.Has, hmem]
      rfl
  | launch comm globalWorkSize localWorkSize =>
      obtain ⟨k, hk, hS⟩ := Option.bind_eq_some_iff.1 hS
      dsimp only at hS
      split at hS
      · next hbound =>
          cases hS
          obtain ⟨first, C₁, rest, hfirst, hrest, rfl⟩ := callAll_append_iff.1 h
          obtain ⟨hobjects, rfl⟩ := hdoc.setArgs _ hk hfirst
          have hargs : replay comm.setArgs k.args = comm.exec k.args :=
            (comm.exec_eq_replay k.args).symm
          rw [hargs] at hobjects
          have hk₁ : (objects C₁).kernel comm.kernelId =
              some { k with args := comm.exec k.args } := by
            rw [hobjects]
            exact Function.update_self ..
          have hbound₁ : (objects C₁).Bound (comm.exec k.args) := by
            rw [hobjects]
            exact hbound
          obtain ⟨hobjects', rfl⟩ :=
            hdoc.enqueueKernel hk₁ hbound₁ (callAll_singleton_iff.1 hrest)
          rw [hobjects', hobjects]
          exact ⟨rfl, rfl⟩
      · cases hS
  | finish queueId =>
      rw [CLObjects.exec] at hS
      split at hS
      · cases hS
        cases h
        exact ⟨rfl, rfl⟩
      · cases hS

end OpenCL.Documented

/-! ## An implementation -/

/-- No object of the kind has the handle. -/
def CLObjects.free (S : CLObjects) : ObjectKind → ℕ → Bool
  | .program, h => (S.program h).isNone
  | .kernel, h => (S.kernel h).isNone
  | .mem, h => (S.buffer h).isNone

lemma CLObjects.not_has_of_free {S : CLObjects} {kind : ObjectKind} {h : ℕ}
    (hfree : S.free kind h = true) : ¬ S.Has kind h := by
  cases kind <;> simpa [Has, free, Option.isNone_iff_eq_none] using hfree

/-- What a call reads, and does to the objects. -/
noncomputable def CLObjects.call (kernels : Kernels D) (S : CLObjects) :
    CLCall D → Option (List (List UInt8) × CLObjects)
  | .enqueueReadBuffer _ mem offset cb =>
    (S.buffer mem).bind fun contents => (bytesAt contents offset cb).map fun data => ([data], S)
  | .enqueueWriteBuffer _ mem offset data =>
    (S.buffer mem).bind fun contents => (writeAt contents offset data).map fun contents' =>
      ([], S.setBuffer mem (some contents'))
  | .enqueueCopyBuffer _ srcMem dstMem srcOffset dstOffset cb =>
    (S.buffer srcMem).bind fun src => (S.buffer dstMem).bind fun dst =>
      (copied src srcMem dstMem srcOffset dstOffset cb).bind fun data =>
        (writeAt dst dstOffset data).map fun dst' => ([], S.setBuffer dstMem (some dst'))
  | .releaseMemObject mem => (S.buffer mem).map fun _ => ([], S.setBuffer mem none)
  | .setKernelArg kernel argIdx value => (S.kernel kernel).map fun k =>
    ([], S.setKernel kernel { k with args := Function.update k.args argIdx (some value) })
  | .enqueueKernel queue kernel shape => (S.kernel kernel).map fun k =>
    ([], S.launch kernels queue k shape)

/-- An implementation that gives out handles in order, while there are. -/
noncomputable def plainCL (kernels : Kernels D) (front : D) (others : List D) : OpenCL D where
  Context := ℕ × CLObjects
  initial := (0, .empty)
  front := front
  others := others
  create C c :=
    if c.object.all (C.2.free · C.1) then
      (C.2.create C.1 c).map fun S => (C.1, (C.1 + 1, S))
    else none
  call C c := (C.2.call kernels c).map fun x => (x.1, (C.1, x.2))

section Plain

variable {front : D} {others : List D} {C C' : ℕ × CLObjects} {h : ℕ}

lemma plainCL_create_iff {c : Creation} :
    (plainCL kernels front others).create C c = some (h, C') ↔
      c.object.all (C.2.free · C.1) = true ∧ h = C.1 ∧ C'.1 = C.1 + 1 ∧
        C.2.create C.1 c = some C'.2 := by
  obtain ⟨next, S⟩ := C
  obtain ⟨next', S'⟩ := C'
  change (if c.object.all (S.free · next) then _ else none) = _ ↔ _
  split
  · next hfree =>
      simp only [hfree, true_and, Option.map_eq_some_iff, Prod.mk.injEq]
      constructor
      · rintro ⟨T, hT, rfl, rfl, rfl⟩
        exact ⟨rfl, rfl, hT⟩
      · rintro ⟨rfl, rfl, hT⟩
        exact ⟨S', hT, rfl, rfl, rfl⟩
  · next hfree => simp [hfree]

lemma plainCL_call_eq {c : CLCall D} {x : List (List UInt8) × CLObjects}
    (hx : C.2.call kernels c = some x)
    (h : (plainCL kernels front others).call C c = some (found, C')) :
    C'.2 = x.2 ∧ found = x.1 := by
  change (C.2.call kernels c).map _ = _ at h
  rw [hx] at h
  cases h
  exact ⟨rfl, rfl⟩

/-- It does what is documented. -/
theorem plainCL_documented (kernels : Kernels D) (front : D) (others : List D) :
    (plainCL kernels front others).Documented kernels Prod.snd where
  createProgram h := by
    obtain ⟨hfree, rfl, -, hS⟩ := plainCL_create_iff.1 h
    exact ⟨CLObjects.not_has_of_free hfree, (Option.some.inj hS).symm⟩
  buildProgram hp h := by
    obtain ⟨-, -, -, hS⟩ := plainCL_create_iff.1 h
    rw [CLObjects.create, hp] at hS
    exact (Option.some.inj hS).symm
  createKernel hp h := by
    obtain ⟨hfree, rfl, -, hS⟩ := plainCL_create_iff.1 h
    rw [CLObjects.create, hp] at hS
    exact ⟨CLObjects.not_has_of_free hfree, (Option.some.inj hS).symm⟩
  createBuffer hlength h := by
    obtain ⟨hfree, rfl, -, hS⟩ := plainCL_create_iff.1 h
    rw [CLObjects.create, if_pos hlength] at hS
    exact ⟨CLObjects.not_has_of_free hfree, (Option.some.inj hS).symm⟩
  enqueueReadBuffer hmem hdata h :=
    plainCL_call_eq (by rw [CLObjects.call, hmem, Option.bind_some, hdata, Option.map_some]) h
  enqueueWriteBuffer hmem hwrite h :=
    plainCL_call_eq (by rw [CLObjects.call, hmem, Option.bind_some, hwrite, Option.map_some]) h
  enqueueCopyBuffer hsrc hdst hdata hwrite h :=
    plainCL_call_eq (by rw [CLObjects.call, hsrc, Option.bind_some, hdst, Option.bind_some, hdata,
      Option.bind_some, hwrite, Option.map_some]) h
  releaseMemObject hmem h := by
    obtain ⟨contents, hcontents⟩ := Option.isSome_iff_exists.1 hmem
    exact plainCL_call_eq (by rw [CLObjects.call, hcontents, Option.map_some]) h
  setKernelArg hk h := plainCL_call_eq (by rw [CLObjects.call, hk, Option.map_some]) h
  enqueueKernel hk _ h := plainCL_call_eq (by rw [CLObjects.call, hk, Option.map_some]) h

end Plain

end ElasticFramework
