import ElasticFramework.Construction.NodeMemory
import ElasticFramework.Properties.PendingArgs
import Mathlib.Data.Set.Function

/-!
# Handles in the place of positions

A session names its objects by their positions in the vectors of `Run`, and the context of OpenCL
knows them by handles, next to those of all other sessions.  A `Naming` gives every position its
handle.  Not all of them are apart: a buffer that is released stays in its vector, and its handle
may be that of another one day.  It is the objects that exist which have handles of their own.

As long as they do, what can be done to the objects of the session by themselves can be done to
those of the context under their handles (`exec_image`, `create_image`).  It reads the same bytes,
leaves the same behind, and does not touch what has other handles.  That the arguments of kernels
are set for good is no exception: a buffer that is bound to one has to exist when the kernel is
launched.

With every object named as it is, the same says what has to be known of an object that is created
ahead of a call that was asked for before (`create_ahead`).
-/

namespace ElasticFramework

/-- The handle at every position. -/
abbrev Naming := ObjectKind → ℕ → ℕ

variable {D : Type*} {kernels : Kernels D} {dev : D} {f g : Naming} {x x' y S S' : CLObjects}
  {call : DeviceCall} {args : ℕ → Option Binding}

/-! ## Renaming -/

def Binding.rename (f : Naming) : Binding → Binding
  | .buffer mem => .buffer (f .mem mem)
  | .null => .null
  | .bytes data => .bytes data

def renameArgs (f : Naming) (args : ℕ → Option Binding) (i : ℕ) : Option Binding :=
  (args i).map (Binding.rename f)

def CLKernelObject.rename (f : Naming) (k : CLKernelObject) : CLKernelObject :=
  { k with args := renameArgs f k.args }

def CommandKernel.rename (f : Naming) (comm : CommandKernel) : CommandKernel :=
  { comm with
    kernelId := f .kernel comm.kernelId
    argMemId := comm.argMemId.map fun x => (x.1, f .mem x.2) }

def DeviceCall.rename (f : Naming) : DeviceCall → DeviceCall
  | .readBuffer mem offset cb => .readBuffer (f .mem mem) offset cb
  | .writeBuffer mem offset data => .writeBuffer (f .mem mem) offset data
  | .copyBuffer srcMem dstMem srcOffset dstOffset cb =>
    .copyBuffer (f .mem srcMem) (f .mem dstMem) srcOffset dstOffset cb
  | .releaseMemObject mem => .releaseMemObject (f .mem mem)
  | .launch comm globalWorkSize localWorkSize =>
    .launch (comm.rename f) globalWorkSize localWorkSize
  | .finish queueId => .finish queueId

def Creation.rename (f : Naming) : Creation → Creation
  | .program source => .program source
  | .build h => .build (f .program h)
  | .kernel h kernelName => .kernel (f .program h) kernelName
  | .buffer flags size contents => .buffer flags size contents

/-- Renamed writes rename what a replay leaves. -/
lemma replay_rename (writes : List (ℕ × Binding)) (args : ℕ → Option Binding) :
    replay (writes.map fun x => (x.1, x.2.rename f)) (renameArgs f args) =
      renameArgs f (replay writes args) := by
  funext i
  rw [renameArgs, replay_apply, replay_apply, lastWrite_map]
  cases lastWrite i writes <;> rfl

/-- Constants have no names. -/
lemma constWrites_rename (l : List (ℕ × ℕ)) (data : List UInt8) :
    (constWrites l data).map (fun x => (x.1, x.2.rename f)) = constWrites l data := by
  induction l generalizing data with
  | nil => rfl
  | cons x l ih => rw [constWrites, List.map_cons, ih, Binding.rename]

lemma CommandKernel.exec_rename (comm : CommandKernel) (args : ℕ → Option Binding) :
    (comm.rename f).exec (renameArgs f args) = renameArgs f (comm.exec args) := by
  have hmem : memWrites (comm.rename f).argMemId =
      (memWrites comm.argMemId).map fun x => (x.1, x.2.rename f) := by
    simp [memWrites, CommandKernel.rename, Binding.rename]
  rw [exec_eq_replay, exec_eq_replay, ← replay_rename, List.map_append, constWrites_rename, hmem]
  rfl

lemma CommandKernel.kernelId_rename (comm : CommandKernel) :
    (comm.rename f).kernelId = f .kernel comm.kernelId := rfl

/-! ## What there is -/

namespace CLObjects

variable {kind : ObjectKind} {h i : ℕ}

lemma has_setProgram (p : CLProgram) :
    (S.setProgram h p).Has kind i ↔ S.Has kind i ∨ kind = .program ∧ i = h := by
  cases kind <;> by_cases hi : i = h <;> simp [Has, setProgram, hi]

lemma has_setKernel (k : CLKernelObject) :
    (S.setKernel h k).Has kind i ↔ S.Has kind i ∨ kind = .kernel ∧ i = h := by
  cases kind <;> by_cases hi : i = h <;> simp [Has, setKernel, hi]

lemma has_newBuffer (contents : List UInt8) :
    (S.setBuffer h (some contents)).Has kind i ↔ S.Has kind i ∨ kind = .mem ∧ i = h := by
  cases kind <;> by_cases hi : i = h <;> simp [Has, setBuffer, hi]

/-- A buffer that there is gets other contents, or is released. -/
lemma has_of_setBuffer {b : Option (List UInt8)} (hh : S.Has .mem h)
    (hi : (S.setBuffer h b).Has kind i) : S.Has kind i := by
  cases kind with
  | mem =>
      by_cases hih : i = h
      · rwa [hih]
      · simpa [Has, setBuffer, hih] using hi
  | program => exact hi
  | kernel => exact hi

end CLObjects

/-! ## Names that do not clash -/

namespace Naming

/-- No two objects have one handle. -/
def Apart (f : Naming) (x : CLObjects) : Prop := ∀ kind, Set.InjOn (f kind) {i | x.Has kind i}

/-- The handle is not that of an object. -/
def Foreign (f : Naming) (x : CLObjects) (kind : ObjectKind) (h : ℕ) : Prop :=
  ∀ i, x.Has kind i → f kind i ≠ h

/-- The kernels and buffers under the handles are those at the positions. -/
structure Holds (f : Naming) (x S : CLObjects) : Prop where
  kernel : ∀ i, x.Has .kernel i → S.kernel (f .kernel i) = (x.kernel i).map (·.rename f)
  mem : ∀ i, x.Has .mem i → S.buffer (f .mem i) = x.buffer i

/-- All objects under the handles are those at the positions. -/
structure Image (f : Naming) (x S : CLObjects) : Prop extends f.Holds x S where
  program : ∀ i, x.Has .program i → S.program (f .program i) = x.program i

/-- Of what there was, nothing has changed that has other handles. -/
structure Elsewhere (f : Naming) (x S S' : CLObjects) : Prop where
  program : ∀ h, S.Has .program h → f.Foreign x .program h → S'.program h = S.program h
  kernel : ∀ h, S.Has .kernel h → f.Foreign x .kernel h → S'.kernel h = S.kernel h
  mem : ∀ h, S.Has .mem h → f.Foreign x .mem h → S'.buffer h = S.buffer h

/-- The objects `x` have become `x'`, and with them the context `S` has become `S'`. -/
structure Follows (f : Naming) (x S x' S' : CLObjects) : Prop where
  own : x'.program = x.program
  program : S'.program = S.program
  /-- Nothing new has come. -/
  has : ∀ kind i, x'.Has kind i → x.Has kind i
  kernel : ∀ i, x.Has .kernel i → S'.kernel (f .kernel i) = (x'.kernel i).map (·.rename f)
  mem : ∀ i, x.Has .mem i → S'.buffer (f .mem i) = x'.buffer i
  otherKernel : ∀ h, f.Foreign x .kernel h → S'.kernel h = S.kernel h
  otherMem : ∀ h, f.Foreign x .mem h → S'.buffer h = S.buffer h

lemma Follows.elsewhere (h : f.Follows x S x' S') : f.Elsewhere x S S' where
  program _ _ _ := by rw [h.program]
  kernel i _ hi := h.otherKernel i hi
  mem i _ hi := h.otherMem i hi

lemma Follows.image (h : f.Follows x S x' S') (himage : f.Image x S) : f.Image x' S' where
  kernel i hi := h.kernel i (h.has .kernel i hi)
  mem i hi := h.mem i (h.has .mem i hi)
  program i hi := by rw [h.program, h.own, himage.program i (h.has .program i hi)]

/-- There is an object under the handle of every one. -/
lemma Image.has (h : f.Image x S) {kind : ObjectKind} {i : ℕ} (hi : x.Has kind i) :
    S.Has kind (f kind i) := by
  cases kind with
  | program =>
      rw [CLObjects.Has, h.program i hi]
      exact hi
  | kernel =>
      rw [CLObjects.Has, h.kernel i hi, Option.isSome_map]
      exact hi
  | mem =>
      rw [CLObjects.Has, h.mem i hi]
      exact hi

/-- What is done to the objects of one session leaves those of another alone. -/
lemma Image.elsewhere (h : g.Image y S) (hs : f.Elsewhere x S S')
    (hforeign : ∀ kind i, y.Has kind i → f.Foreign x kind (g kind i)) : g.Image y S' where
  kernel i hi := by rw [hs.kernel _ (h.has hi) (hforeign .kernel i hi), h.kernel i hi]
  mem i hi := by rw [hs.mem _ (h.has hi) (hforeign .mem i hi), h.mem i hi]
  program i hi := by rw [hs.program _ (h.has hi) (hforeign .program i hi), h.program i hi]

end Naming

/-! ## One call -/

/-- A change at a position is a change at its handle. -/
lemma update_handle {α β : Type*} {p : ℕ → ℕ} {F : ℕ → β} {G : ℕ → α} {r : α → β} {i j : ℕ}
    (hp : p j = p i → j = i) (hold : j ≠ i → F (p j) = r (G j)) (a : α) :
    Function.update F (p i) (r a) (p j) = r (Function.update G i a j) := by
  by_cases hij : j = i
  · rw [hij, Function.update_self, Function.update_self]
  · rw [Function.update_of_ne (hij <| hp ·), Function.update_of_ne hij, hold hij]

lemma renameArgs_eq_buffer {i h : ℕ} : renameArgs f args i = some (.buffer h) ↔
    ∃ mem, args i = some (.buffer mem) ∧ f .mem mem = h := by
  rw [renameArgs, Option.map_eq_some_iff]
  constructor
  · rintro ⟨b, hb, heq⟩
    cases b with
    | buffer mem =>
        cases heq
        exact ⟨mem, hb, rfl⟩
    | null => cases heq
    | bytes data => cases heq
  · rintro ⟨mem, hmem, rfl⟩
    exact ⟨_, hmem, rfl⟩

/-- A launch that is valid, and what it does. -/
lemma CLObjects.setAndLaunch_eq_some_iff {comm : CommandKernel} {shape : LaunchShape} :
    S.setAndLaunch kernels dev comm shape = some S' ↔ ∃ k, S.kernel comm.kernelId = some k ∧
      S.Bound (comm.exec k.args) ∧
      S' = { S.setKernel comm.kernelId ⟨k.code, comm.exec k.args⟩ with
        buffer := S.launched (comm.exec k.args)
          (kernels dev k.code shape (S.seen (comm.exec k.args))) } := by
  rw [setAndLaunch, Option.bind_eq_some_iff]
  refine exists_congr fun k => and_congr_right fun _ => ?_
  by_cases hbound : S.Bound (comm.exec k.args)
  · rw [if_pos hbound, Option.some.injEq]
    exact ⟨fun h => ⟨hbound, h.symm⟩, fun h => h.2.symm⟩
  · rw [if_neg hbound]
    exact ⟨nofun, fun h => absurd h.1 hbound⟩

namespace Naming

/-- An argument is bound to the buffer at a position if it is bound to that under its handle. -/
lemma bound_iff (hf : f.Apart x) (hargs : x.Bound args) {mem : ℕ} (hmem : x.Has .mem mem) (i : ℕ) :
    renameArgs f args i = some (.buffer (f .mem mem)) ↔ args i = some (.buffer mem) := by
  rw [renameArgs_eq_buffer]
  constructor
  · rintro ⟨mem', hi, heq⟩
    rwa [← hf .mem (hargs i mem' hi) hmem heq]
  · intro hi
    exact ⟨mem, hi, rfl⟩

lemma firstBound_rename (hf : f.Apart x) (hargs : x.Bound args) {mem : ℕ} (hmem : x.Has .mem mem) :
    firstBound (renameArgs f args) (f .mem mem) = firstBound args mem := by
  simp only [firstBound, bound_iff hf hargs hmem]

/-- The buffers bound to renamed arguments exist in the context. -/
lemma Holds.bound (h : f.Holds x S) (hargs : x.Bound args) : S.Bound (renameArgs f args) := by
  intro i b hb
  obtain ⟨mem, hmem, rfl⟩ := renameArgs_eq_buffer.1 hb
  rw [CLObjects.Has, h.mem mem (hargs i mem hmem)]
  exact hargs i mem hmem

/-- A kernel finds the same under either kind of name. -/
lemma Holds.seen (h : f.Holds x S) (hf : f.Apart x) (hargs : x.Bound args) :
    S.seen (renameArgs f args) = x.seen args := by
  funext i
  rw [CLObjects.seen, CLObjects.seen, renameArgs]
  cases hi : args i with
  | none => rfl
  | some b =>
      cases b with
      | null => rfl
      | bytes data => rfl
      | buffer mem =>
          have hmem : x.Has .mem mem := hargs i mem hi
          simp only [Option.map_some, Binding.rename, h.mem mem hmem,
            firstBound_rename hf hargs hmem]

lemma Follows.refl (h : f.Holds x S) : f.Follows x S x S where
  own := rfl
  program := rfl
  has _ _ hi := hi
  kernel := h.kernel
  mem := h.mem
  otherKernel _ _ := rfl
  otherMem _ _ := rfl

/-- A buffer gets other contents, or is released. -/
lemma Follows.setBuffer (h : f.Holds x S) (hf : f.Apart x) {i : ℕ} (hi : x.Has .mem i)
    (b : Option (List UInt8)) :
    f.Follows x S (x.setBuffer i b) (S.setBuffer (f .mem i) b) where
  own := rfl
  program := rfl
  has _ _ hj := CLObjects.has_of_setBuffer hi hj
  kernel := h.kernel
  mem j hj := update_handle (r := id) (hf .mem hj hi) (fun _ => h.mem j hj) b
  otherKernel _ _ := rfl
  otherMem _ hh := Function.update_of_ne (hh i hi).symm _ _

/-- A kernel has its arguments set and is launched. -/
lemma Follows.launched (h : f.Holds x S) (hf : f.Apart x) {i : ℕ} (hi : x.Has .kernel i)
    (code : KernelCode) (hargs : x.Bound args) (result : ℕ → List UInt8) :
    f.Follows x S
      { x.setKernel i ⟨code, args⟩ with buffer := x.launched args result }
      { S.setKernel (f .kernel i) ⟨code, renameArgs f args⟩ with
        buffer := S.launched (renameArgs f args) result } where
  own := rfl
  program := rfl
  has kind j hj := by
    cases kind with
    | program => exact hj
    | kernel =>
        have hset : (x.setKernel i ⟨code, args⟩).Has .kernel j := hj
        rcases (CLObjects.has_setKernel _).1 hset with hold | ⟨-, rfl⟩
        · exact hold
        · exact hi
    | mem =>
        simp only [CLObjects.Has, CLObjects.launched] at hj
        split at hj
        · next hbound =>
            obtain ⟨k, hk⟩ := hbound
            exact hargs k j hk
        · exact hj
  kernel j hj := update_handle (r := Option.map (CLKernelObject.rename f)) (hf .kernel hj hi)
    (fun _ => h.kernel j hj) (some ⟨code, args⟩)
  mem j hj := by
    have hbound := exists_congr (bound_iff hf hargs hj)
    by_cases hj' : ∃ k, args k = some (.buffer j)
    · exact (if_pos (hbound.2 hj')).trans
        ((congrArg (some <| result ·) (firstBound_rename hf hargs hj)).trans (if_pos hj').symm)
    · exact (if_neg (hj' <| hbound.1 ·)).trans ((h.mem j hj).trans (if_neg hj').symm)
  otherKernel _ hh := Function.update_of_ne (hh i hi).symm _ _
  otherMem b hb := by
    refine if_neg ?_
    rintro ⟨k, hk⟩
    obtain ⟨mem, hmem, rfl⟩ := renameArgs_eq_buffer.1 hk
    exact hb mem (hargs k mem hmem) rfl

/-- **One call under either kind of name.**  What can be done to the session's objects can be done
to the context, and does the same there and nothing else. -/
theorem exec_image (hf : f.Apart x) (h : f.Holds x S) (hx : x.exec kernels dev call = some x') :
    ∃ S', S.exec kernels dev (call.rename f) = some S' ∧ f.Follows x S x' S' := by
  cases call with
  | readBuffer mem offset cb =>
      obtain ⟨contents, hmem, hx⟩ := Option.bind_eq_some_iff.1 hx
      have hhas : x.Has .mem mem := Option.isSome_of_eq_some hmem
      split at hx
      · next hle =>
          cases hx
          refine ⟨S, ?_, .refl h⟩
          rw [DeviceCall.rename, CLObjects.exec, h.mem mem hhas, hmem, Option.bind_some, if_pos hle]
      · cases hx
  | writeBuffer mem offset data =>
      obtain ⟨contents, hmem, hx⟩ := Option.bind_eq_some_iff.1 hx
      obtain ⟨contents', hwrite, rfl⟩ := Option.map_eq_some_iff.1 hx
      have hhas : x.Has .mem mem := Option.isSome_of_eq_some hmem
      refine ⟨_, ?_, Follows.setBuffer h hf hhas (some contents')⟩
      rw [DeviceCall.rename, CLObjects.exec, h.mem mem hhas, hmem, Option.bind_some, hwrite,
        Option.map_some]
  | copyBuffer srcMem dstMem srcOffset dstOffset cb =>
      obtain ⟨src, hsrc, hx⟩ := Option.bind_eq_some_iff.1 hx
      obtain ⟨dst, hdst, hx⟩ := Option.bind_eq_some_iff.1 hx
      obtain ⟨data, hdata, hx⟩ := Option.bind_eq_some_iff.1 hx
      obtain ⟨dst', hdst', rfl⟩ := Option.map_eq_some_iff.1 hx
      have hhasSrc : x.Has .mem srcMem := Option.isSome_of_eq_some hsrc
      have hhasDst : x.Has .mem dstMem := Option.isSome_of_eq_some hdst
      have hsame : f .mem srcMem = f .mem dstMem ↔ srcMem = dstMem :=
        (hf .mem).eq_iff hhasSrc hhasDst
      have hcopied : CLObjects.copied src (f .mem srcMem) (f .mem dstMem) srcOffset dstOffset cb =
          some data := by
        rw [← hdata]
        simp only [CLObjects.copied, hsame]
      refine ⟨_, ?_, Follows.setBuffer h hf hhasDst (some dst')⟩
      rw [DeviceCall.rename, CLObjects.exec, h.mem srcMem hhasSrc, hsrc, Option.bind_some,
        h.mem dstMem hhasDst, hdst, Option.bind_some, hcopied, Option.bind_some, hdst',
        Option.map_some]
  | releaseMemObject mem =>
      obtain ⟨contents, hmem, rfl⟩ := Option.map_eq_some_iff.1 hx
      have hhas : x.Has .mem mem := Option.isSome_of_eq_some hmem
      refine ⟨_, ?_, Follows.setBuffer h hf hhas none⟩
      rw [DeviceCall.rename, CLObjects.exec, h.mem mem hhas, hmem, Option.map_some]
  | launch comm globalWorkSize localWorkSize =>
      obtain ⟨k, hk, hbound, rfl⟩ := CLObjects.setAndLaunch_eq_some_iff.1 hx
      have hhas : x.Has .kernel comm.kernelId := Option.isSome_of_eq_some hk
      refine ⟨_, CLObjects.setAndLaunch_eq_some_iff.2 ⟨k.rename f, ?_, ?_, rfl⟩, ?_⟩
      · rw [comm.kernelId_rename, h.kernel _ hhas, hk, Option.map_some]
      · rw [CLKernelObject.rename, comm.exec_rename]
        exact h.bound hbound
      · simp only [CLKernelObject.rename, comm.exec_rename, h.seen hf hbound]
        exact Follows.launched h hf hhas k.code hbound _
  | finish queueId =>
      rw [CLObjects.exec] at hx
      split at hx
      · next hzero =>
          cases hx
          exact ⟨S, by rw [DeviceCall.rename, CLObjects.exec, if_pos hzero], .refl h⟩
      · cases hx

/-- What is read is the same. -/
lemma Holds.reads (h : f.Holds x S) (hx : x.exec kernels dev call = some x') :
    S.reads (call.rename f) = x.reads call := by
  cases call with
  | readBuffer mem offset cb =>
      obtain ⟨contents, hmem, -⟩ := Option.bind_eq_some_iff.1 hx
      have hhas : x.Has .mem mem := Option.isSome_of_eq_some hmem
      rw [DeviceCall.rename, CLObjects.reads, CLObjects.reads, h.mem mem hhas]
  | _ => rfl

/-! ## Creating an object -/

section Creating

variable {kind : ObjectKind} {c : Creation} {i new : ℕ}

/-- A program is created, or built. -/
lemma Image.setProgram (h : f.Image x S)
    (hi : ∀ j, x.Has .program j → f .program j = f .program i → j = i) (p : CLProgram) :
    f.Image (x.setProgram i p) (S.setProgram (f .program i) p) where
  kernel := h.kernel
  mem := h.mem
  program j hj := by
    rcases (CLObjects.has_setProgram p).1 hj with hold | ⟨-, rfl⟩
    · exact update_handle (r := id) (hi j hold) (fun _ => h.program j hold) (some p)
    · exact update_handle (r := id) (fun _ => rfl) (absurd rfl) (some p)

/-- A kernel is created. -/
lemma Image.setKernel (h : f.Image x S)
    (hi : ∀ j, x.Has .kernel j → f .kernel j = f .kernel i → j = i) (k : CLKernelObject) :
    f.Image (x.setKernel i k) (S.setKernel (f .kernel i) (k.rename f)) where
  kernel j hj := by
    rcases (CLObjects.has_setKernel k).1 hj with hold | ⟨-, rfl⟩
    · exact update_handle (r := Option.map (CLKernelObject.rename f)) (hi j hold)
        (fun _ => h.kernel j hold) (some k)
    · exact update_handle (r := Option.map (CLKernelObject.rename f)) (fun _ => rfl) (absurd rfl)
        (some k)
  mem := h.mem
  program := h.program

/-- A buffer is created. -/
lemma Image.newBuffer (h : f.Image x S)
    (hi : ∀ j, x.Has .mem j → f .mem j = f .mem i → j = i) (contents : List UInt8) :
    f.Image (x.setBuffer i (some contents)) (S.setBuffer (f .mem i) (some contents)) where
  kernel := h.kernel
  mem j hj := by
    rcases (CLObjects.has_newBuffer contents).1 hj with hold | ⟨-, rfl⟩
    · exact update_handle (r := id) (hi j hold) (fun _ => h.mem j hold) (some contents)
    · exact update_handle (r := id) (fun _ => rfl) (absurd rfl) (some contents)
  program := h.program

/-- The session has one object more, or a program built, and the context with it. -/
structure Gains (f : Naming) (x S : CLObjects) (c : Creation) (i : ℕ) (x' S' : CLObjects) :
    Prop where
  image : f.Image x' S'
  elsewhere : f.Elsewhere x S S'
  has : ∀ kind j, x'.Has kind j → x.Has kind j ∨ c.object = some kind ∧ j = i

/-- What can be created in the session can be in the context, under any handle. -/
lemma Image.creates (h : f.Image x S) (hx : x.create i c = some x') (new : ℕ) :
    ∃ S', S.create new (c.rename f) = some S' := by
  cases c with
  | program source => exact ⟨_, rfl⟩
  | build p =>
      obtain ⟨q, hq, -⟩ := Option.map_eq_some_iff.1 hx
      have hp : x.Has .program p := Option.isSome_of_eq_some hq
      exact ⟨_, Option.map_eq_some_iff.2 ⟨q, (h.program p hp).trans hq, rfl⟩⟩
  | kernel p kernelName =>
      obtain ⟨q, hq, -⟩ := Option.map_eq_some_iff.1 hx
      have hp : x.Has .program p := Option.isSome_of_eq_some hq
      exact ⟨_, Option.map_eq_some_iff.2 ⟨q, (h.program p hp).trans hq, rfl⟩⟩
  | buffer flags size contents =>
      rw [CLObjects.create] at hx
      split at hx
      · next hlength => exact ⟨_, if_pos hlength⟩
      · cases hx

/-- **One creation under either kind of name.**  The new object gets the handle that the new
position has, which is no object's. -/
theorem create_image (hf : f.Apart x) (h : f.Image x S) (hx : x.create i c = some x')
    (hnew : ∀ kind, c.object = some kind → f kind i = new ∧ ¬ S.Has kind new)
    (hS : S.create new (c.rename f) = some S') : f.Gains x S c i x' S' := by
  have hfresh : ∀ kind, c.object = some kind → ∀ j, x.Has kind j → f kind j = f kind i → j = i := by
    intro kind hkind j hj heq
    obtain ⟨rfl, hno⟩ := hnew kind hkind
    exact absurd (heq ▸ h.has hj) hno
  -- the new handle is not that of something there was
  have hother : ∀ {kind}, c.object = some kind → ∀ b, S.Has kind b → b ≠ f kind i := by
    rintro kind hkind b hb rfl
    obtain ⟨rfl, hno⟩ := hnew kind hkind
    exact hno hb
  cases c with
  | program source =>
      cases hx
      cases hS
      obtain ⟨rfl, -⟩ := hnew .program rfl
      refine ⟨h.setProgram (hfresh _ rfl) _,
        ⟨fun b hb _ => Function.update_of_ne (hother rfl b hb) _ _, fun _ _ _ => rfl,
          fun _ _ _ => rfl⟩, fun kind j hj => ?_⟩
      exact ((CLObjects.has_setProgram _).1 hj).imp_right fun hj => ⟨congrArg some hj.1.symm, hj.2⟩
  | build p =>
      obtain ⟨q, hq, rfl⟩ := Option.map_eq_some_iff.1 hx
      obtain ⟨q', hq', rfl⟩ := Option.map_eq_some_iff.1 hS
      have hp : x.Has .program p := Option.isSome_of_eq_some hq
      obtain rfl : q = q' := Option.some.inj (hq.symm.trans ((h.program p hp).symm.trans hq'))
      refine ⟨h.setProgram (fun j hj heq => hf .program hj hp heq) _,
        ⟨fun b _ hb => Function.update_of_ne (hb p hp).symm _ _, fun _ _ _ => rfl,
          fun _ _ _ => rfl⟩, fun kind j hj => .inl ?_⟩
      rcases (CLObjects.has_setProgram _).1 hj with hold | ⟨rfl, rfl⟩
      · exact hold
      · exact hp
  | kernel p kernelName =>
      obtain ⟨q, hq, rfl⟩ := Option.map_eq_some_iff.1 hx
      obtain ⟨q', hq', rfl⟩ := Option.map_eq_some_iff.1 hS
      have hp : x.Has .program p := Option.isSome_of_eq_some hq
      obtain rfl : q = q' := Option.some.inj (hq.symm.trans ((h.program p hp).symm.trans hq'))
      obtain ⟨rfl, -⟩ := hnew .kernel rfl
      refine ⟨h.setKernel (hfresh _ rfl) _,
        ⟨fun _ _ _ => rfl, fun b hb _ => Function.update_of_ne (hother rfl b hb) _ _,
          fun _ _ _ => rfl⟩, fun kind j hj => ?_⟩
      exact ((CLObjects.has_setKernel _).1 hj).imp_right fun hj => ⟨congrArg some hj.1.symm, hj.2⟩
  | buffer flags size contents =>
      rw [CLObjects.create] at hx
      split at hx
      · next hlength =>
          cases hx
          obtain rfl := Option.some.inj ((if_pos hlength).symm.trans hS)
          obtain ⟨rfl, -⟩ := hnew .mem rfl
          refine ⟨h.newBuffer (hfresh _ rfl) _,
            ⟨fun _ _ _ => rfl, fun _ _ _ => rfl,
              fun b hb _ => Function.update_of_ne (hother rfl b hb) _ _⟩, fun kind j hj => ?_⟩
          exact ((CLObjects.has_newBuffer _).1 hj).imp_right
            fun hj => ⟨congrArg some hj.1.symm, hj.2⟩
      · cases hx

end Creating

end Naming

/-! ## An object created ahead of a call -/

/-- What comes of a creation depends on the programs alone, and it leaves the others alone. -/
lemma CLObjects.create_frame {R : CLObjects} {c : Creation} {new : ℕ}
    (h : S.create new c = some S') (hR : R.program = S.program) :
    ∃ R', R.create new c = some R' ∧ R'.program = S'.program ∧
      (∀ i, R'.kernel i = if c.object = some .kernel ∧ i = new then S'.kernel i else R.kernel i) ∧
      ∀ i, R'.buffer i = if c.object = some .mem ∧ i = new then S'.buffer i else R.buffer i := by
  cases c with
  | program source =>
      cases h
      exact ⟨_, rfl, congrArg (Function.update · new _) hR, by simp [Creation.object, setProgram],
        by simp [Creation.object, setProgram]⟩
  | build p =>
      obtain ⟨q, hq, rfl⟩ := Option.map_eq_some_iff.1 h
      refine ⟨R.setProgram p { q with built := true }, ?_, congrArg (Function.update · p _) hR,
        by simp [Creation.object, setProgram], by simp [Creation.object, setProgram]⟩
      rw [create, hR, hq, Option.map_some]
  | kernel p kernelName =>
      obtain ⟨q, hq, rfl⟩ := Option.map_eq_some_iff.1 h
      refine ⟨R.setKernel new ⟨⟨q.source, kernelName⟩, fun _ => none⟩, ?_, hR, fun i => ?_,
        by simp [Creation.object, setKernel]⟩
      · rw [create, hR, hq, Option.map_some]
      · by_cases hi : i = new <;> simp [Creation.object, setKernel, hi]
  | buffer flags size contents =>
      rw [create] at h
      split at h
      · next hlength =>
          cases h
          refine ⟨_, if_pos hlength, hR, by simp [Creation.object, setBuffer], fun i => ?_⟩
          by_cases hi : i = new <;> simp [Creation.object, setBuffer, hi]
      · cases h

/-- Every object under its own position. -/
def Naming.same : Naming := fun _ i => i

lemma Naming.same_apart (x : CLObjects) : Naming.same.Apart x := fun _ => Set.injOn_id _

lemma renameArgs_same (args : ℕ → Option Binding) : renameArgs .same args = args := by
  funext i
  rw [renameArgs]
  cases args i with
  | none => rfl
  | some b => cases b <;> rfl

lemma CLKernelObject.map_rename_same (k : Option CLKernelObject) :
    k.map (·.rename .same) = k := by
  cases k with
  | none => rfl
  | some k => rw [Option.map_some, rename, renameArgs_same]

lemma DeviceCall.rename_same (c : DeviceCall) : c.rename .same = c := by
  cases c with
  | launch comm globalWorkSize localWorkSize =>
      simp [DeviceCall.rename, CommandKernel.rename, Naming.same]
  | _ => rfl

lemma Naming.same_holds (x : CLObjects) : Naming.same.Holds x x where
  kernel _ _ := (CLKernelObject.map_rename_same _).symm
  mem _ _ := rfl

/-- Nothing has the position. -/
lemma Naming.same_foreign {kind : ObjectKind} {i : ℕ} (hi : ¬ x.Has kind i) :
    Naming.same.Foreign x kind i :=
  fun _ hj heq => hi (heq ▸ hj)

namespace CLObjects

variable {T U : CLObjects} {c : Creation} {new : ℕ}

/-- A call by itself. -/
lemma exec_follows (hT : S.exec kernels dev call = some T) : Naming.same.Follows S S T T := by
  obtain ⟨T', hT', hfollows⟩ := Naming.exec_image (Naming.same_apart _) (Naming.same_holds _) hT
  rw [DeviceCall.rename_same, hT] at hT'
  cases hT'
  exact hfollows

/-- What there was is still there after a creation. -/
lemma create_holds (hnew : ∀ kind, c.object = some kind → ¬ S.Has kind new)
    (h : S.create new c = some S') : Naming.same.Holds S S' := by
  obtain ⟨R', hR', -, hkernel, hmem⟩ := create_frame h rfl
  cases h.symm.trans hR'
  refine ⟨fun i hi => ?_, fun i hi => ?_⟩
  · rw [CLKernelObject.map_rename_same]
    exact (hkernel i).trans (if_neg fun hi' => hnew _ hi'.1 (hi'.2 ▸ hi))
  · exact (hmem i).trans (if_neg fun hi' => hnew _ hi'.1 (hi'.2 ▸ hi))

/-- **An object may be created ahead of a call.** -/
theorem create_ahead (hnew : ∀ kind, c.object = some kind → ¬ S.Has kind new)
    (hT : S.exec kernels dev call = some T) (hU : T.create new c = some U) :
    ∃ S', S.create new c = some S' ∧ S'.exec kernels dev call = some U := by
  have hplain := exec_follows hT
  obtain ⟨S', hS', -, -⟩ := create_frame hU hplain.own.symm
  have hahead := Naming.exec_image (Naming.same_apart _) (create_holds hnew hS') hT
  rw [DeviceCall.rename_same] at hahead
  obtain ⟨V, hV, hahead⟩ := hahead
  -- where a call may change them the two are the same, and elsewhere they differ by what is created
  obtain ⟨U', hU', hprogram, hkernel, hmem⟩ := create_frame hS' hplain.own
  cases hU.symm.trans hU'
  obtain ⟨R, hR, -, hkernel', hmem'⟩ := create_frame hS' rfl
  cases hS'.symm.trans hR
  have hcreated : ∀ kind i, S.Has kind i → ¬ (c.object = some kind ∧ i = new) :=
    fun kind i hi hi' => hnew kind hi'.1 (hi'.2 ▸ hi)
  refine ⟨S', hS', hV.trans (congrArg some (CLObjects.ext ?_ (funext fun i => ?_)
    (funext fun i => ?_)))⟩
  · exact hahead.program.trans hprogram.symm
  · by_cases hi : S.Has .kernel i
    · have hsame := hahead.kernel i hi
      rw [CLKernelObject.map_rename_same] at hsame
      exact hsame.trans ((hkernel i).trans (if_neg (hcreated _ i hi))).symm
    · rw [hkernel i, hplain.otherKernel i (Naming.same_foreign hi), ← hkernel' i]
      exact hahead.otherKernel i (Naming.same_foreign hi)
  · by_cases hi : S.Has .mem i
    · exact (hahead.mem i hi).trans ((hmem i).trans (if_neg (hcreated _ i hi))).symm
    · rw [hmem i, hplain.otherMem i (Naming.same_foreign hi), ← hmem' i]
      exact hahead.otherMem i (Naming.same_foreign hi)

end CLObjects

end ElasticFramework
