import ElasticFramework.Framework.Transition

/-!
# Registering with the compute node

`HandlerRegister` (`cn/handler.cc`) adds the weight of an application to the weight of the node,
with the accessors `CNInfo::weight` and `CNInfo::set_weight` (`cn_info.h`).  Each of the two locks
the mutex, and between them it is free.

A session makes its calls one at a time, and any number of sessions make them at the same time.
A step is one of the accessors; the reply that follows `set_weight` touches nothing here.
-/

namespace ElasticFramework

/-- A `HandlerRegister` that has read the weight and has not written it. -/
structure RegisterCall (ι K : Type*) where
  session : ι
  appWeight : K
  /-- What `weight()` returned. -/
  read : K
  deriving DecidableEq

/-- `weight_`, and the calls that are under way. -/
structure NodeWeight (ι K : Type*) where
  weight : K
  inCall : List (RegisterCall ι K)
  deriving DecidableEq

/-- The accessor that a session calls next. -/
inductive RegisterStep (ι K : Type*)
  | weight (session : ι) (appWeight : K)
  | setWeight (session : ι)

namespace NodeWeight

variable {ι K : Type*}

/-- A node with no call under way. -/
def idle (weight : K) : NodeWeight ι K where
  weight := weight
  inCall := []

variable [DecidableEq ι]

/-- The call a session is in. -/
def callOf (s : NodeWeight ι K) (session : ι) : Option (RegisterCall ι K) :=
  s.inCall.find? fun c => c.session == session

/-- `HandlerRegister`, in two steps: `weight()`, and `set_weight` of the sum. -/
def machine [Add K] : Machine (NodeWeight ι K) (RegisterStep ι K) where
  step s
    | .weight session appWeight =>
      match s.callOf session with
      | none => some { s with inCall := s.inCall ++ [⟨session, appWeight, s.weight⟩] }
      | some _ => none
    | .setWeight session =>
      (s.callOf session).map fun c =>
        { weight := c.read + c.appWeight
          inCall := s.inCall.eraseP fun c => c.session == session }

/-- The application weights of the calls. -/
def registered (_ : NodeWeight ι K) : RegisterStep ι K → List K
  | .weight _ appWeight => [appWeight]
  | .setWeight _ => []

end NodeWeight

end ElasticFramework
