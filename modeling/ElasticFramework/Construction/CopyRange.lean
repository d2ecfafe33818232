import ElasticFramework.Construction.Wire

/-!
# Copying between buffers

`newscl::clEnqueueCopyBuffer` checks the queue and the two ranges before it sends anything: ranges
of one buffer must not overlap, and each must end within its buffer.  Offsets, sizes and the ends
it compares are `size_t`, so a sum is one modulo `2 ^ 64`.

`CopyCall.Within` is what is asked of the ranges, with sums that do not wrap.
-/

namespace ElasticFramework

def clMemCopyOverlap : ℤ := -8

def clInvalidValue : ℤ := -30

def clInvalidCommandQueue : ℤ := -36

/-- `struct _cl_mem`, with the fields that a copy reads. -/
structure ClMem where
  id : UInt32
  size : UInt64

/-- The arguments of a copy; a `cl_mem` is a pointer. -/
structure CopyCall where
  srcBuffer : ℕ
  dstBuffer : ℕ
  srcOffset : UInt64
  dstOffset : UInt64
  cb : UInt64

namespace CopyCall

/-- The request that is sent for the copy. -/
def request (mem : ℕ → ClMem) (c : CopyCall) : Call :=
  .enqueueCopyBuffer (mem c.srcBuffer).id.toNat (mem c.dstBuffer).id.toNat c.srcOffset.toNat
    c.dstOffset.toNat c.cb.toNat

/-- The two tests on offsets in one buffer. -/
def Overlaps (c : CopyCall) : Prop :=
  c.srcBuffer = c.dstBuffer ∧
    ((c.srcOffset ≤ c.dstOffset ∧ c.srcOffset + c.cb > c.dstOffset) ∨
      (c.dstOffset < c.srcOffset ∧ c.dstOffset + c.cb > c.srcOffset))

/-- The two tests on sizes. -/
def Exceeds (mem : ℕ → ClMem) (c : CopyCall) : Prop :=
  c.srcOffset + c.cb > (mem c.srcBuffer).size ∨ c.dstOffset + c.cb > (mem c.dstBuffer).size

instance (c : CopyCall) : Decidable c.Overlaps := inferInstanceAs (Decidable (_ ∧ _))

instance (mem : ℕ → ClMem) (c : CopyCall) : Decidable (c.Exceeds mem) :=
  inferInstanceAs (Decidable (_ ∨ _))

/-- Both ranges are in their buffers, and those of one buffer have no byte in common. -/
def Within (mem : ℕ → ClMem) (c : CopyCall) : Prop :=
  c.srcOffset.toNat + c.cb.toNat ≤ (mem c.srcBuffer).size.toNat ∧
    c.dstOffset.toNat + c.cb.toNat ≤ (mem c.dstBuffer).size.toNat ∧
      (c.srcBuffer = c.dstBuffer → ∀ i,
        ¬ ((c.srcOffset.toNat ≤ i ∧ i < c.srcOffset.toNat + c.cb.toNat) ∧
          c.dstOffset.toNat ≤ i ∧ i < c.dstOffset.toNat + c.cb.toNat))

end CopyCall

/-- `newscl::clEnqueueCopyBuffer`: the error code, and the request if one is sent. -/
def clEnqueueCopyBuffer (getCommandQueue : ℕ) (mem : ℕ → ClMem) (commandQueue : ℕ) (c : CopyCall) :
    ℤ × Option Call :=
  if commandQueue ≠ getCommandQueue then (clInvalidCommandQueue, none)
  else if c.Overlaps then (clMemCopyOverlap, none)
  else if c.Exceeds mem then (clInvalidValue, none)
  else (clSuccess, some (c.request mem))

end ElasticFramework
