import Ferron.Http.Header

/-!
# Bodies as sequences of polled frames

A body is read by polling it for frames. `Polled` is the result of one `poll_frame` call. A body
that ends without an error is a list of `BodyEvent`s, after which every poll returns `None`;
`polls` lists the results of polling it to its end and twice beyond. `runPolls` drives a body
wrapper that turns each result of its inner body into one result of its own.
-/

set_option autoImplicit false

namespace Ferron.Http

/-- An error of a body or of a stream. -/
structure IoError where
  message : Str
  deriving DecidableEq, Repr

/-- One frame of a body. -/
inductive Frame where
  | data (bytes : Bytes)
  | trailers (headers : HeaderMap)
  deriving DecidableEq, Repr

/-- The result of polling a future or a stream once. -/
inductive Poll (α : Type) where
  | pending
  | ready (value : α)
  deriving DecidableEq, Repr

/-- The result of one `poll_frame` call. -/
abbrev Polled := Poll (Option (Except IoError Frame))

instance : DecidableEq (Except IoError Frame)
  | .ok a, .ok b => decidable_of_iff (a = b) (by simp)
  | .error a, .error b => decidable_of_iff (a = b) (by simp)
  | .ok _, .error _ => isFalse (by simp)
  | .error _, .ok _ => isFalse (by simp)

namespace Frame

/-- The data bytes of a frame. -/
def dataBytes : Frame → Bytes
  | data bytes => bytes
  | trailers _ => []

/-- The trailers of a frame. -/
def trailerMap : Frame → Option HeaderMap
  | data _ => none
  | trailers headers => some headers

end Frame

/-- The data of a sequence of frames, concatenated. -/
def dataOf (frames : List Frame) : Bytes := frames.flatMap Frame.dataBytes

/-- The trailers of a sequence of frames. -/
def trailersOf (frames : List Frame) : List HeaderMap := frames.filterMap Frame.trailerMap

@[simp] theorem dataOf_nil : dataOf [] = [] := rfl

@[simp] theorem dataOf_cons (frame : Frame) (frames : List Frame) :
    dataOf (frame :: frames) = frame.dataBytes ++ dataOf frames := rfl

@[simp] theorem dataOf_append (xs ys : List Frame) : dataOf (xs ++ ys) = dataOf xs ++ dataOf ys :=
  List.flatMap_append

@[simp] theorem trailersOf_nil : trailersOf [] = [] := rfl

@[simp] theorem trailersOf_data_cons (bytes : Bytes) (frames : List Frame) :
    trailersOf (.data bytes :: frames) = trailersOf frames := rfl

@[simp] theorem trailersOf_trailers_cons (headers : HeaderMap) (frames : List Frame) :
    trailersOf (.trailers headers :: frames) = headers :: trailersOf frames := rfl

/-! ## Polling -/

/-- What one poll of a body that does not fail can return before the end. -/
inductive BodyEvent where
  | pending
  | frame (frame : Frame)
  deriving DecidableEq, Repr

/-- The result of the poll that an event stands for. -/
def BodyEvent.polled : BodyEvent → Polled
  | pending => .pending
  | frame f => .ready (some (.ok f))

/-- The frames of a body, in order. -/
def framesOf (body : List BodyEvent) : List Frame :=
  body.filterMap fun
    | .pending => none
    | .frame f => some f

/-- The chunks of data of a body: one for each data frame, in order. -/
def chunksOf (body : List BodyEvent) : List Bytes :=
  body.filterMap fun
    | .frame (.data bytes) => some bytes
    | _ => none

/-- The results of polling a body to its end and twice beyond it. -/
def polls (body : List BodyEvent) : List Polled :=
  body.map BodyEvent.polled ++ [.ready none, .ready none]

/-- The frames among polled results, in order. -/
def polledFrames (results : List Polled) : List Frame :=
  results.filterMap fun
    | .ready (some (.ok f)) => some f
    | _ => none

theorem dataOf_framesOf (body : List BodyEvent) :
    dataOf (framesOf body) = (chunksOf body).flatten := by
  induction body with
  | nil => rfl
  | cons event body ih =>
      cases event with
      | pending => simpa [framesOf, chunksOf] using ih
      | frame f =>
          cases f with
          | data bytes => simpa [framesOf, chunksOf, Frame.dataBytes] using ih
          | trailers headers => simpa [framesOf, chunksOf, Frame.dataBytes] using ih

/-- Runs a body wrapper over the results of polling its inner body. -/
def runPolls {σ : Type} (pollFrame : σ → Polled → σ × Polled) : σ → List Polled → List Polled
  | _, [] => []
  | this, polled :: rest =>
      (pollFrame this polled).2 :: runPolls pollFrame (pollFrame this polled).1 rest

end Ferron.Http
