import DocumentPreview.Uuid

namespace DocumentPreview

inductive Admission where
  | admitted
  | alreadyQueued
  | full
  | closed
  deriving DecidableEq, Repr

def Admission.fullMessage : String :=
  "Job queue is at capacity"

def Admission.closedMessage : String :=
  "Job queue is closed"

inductive SendError where
  | full
  | closed
  deriving DecidableEq, Repr

structure Channel where
  capacity : Nat
  buffer : List Uuid
  receiving : Bool
  deriving DecidableEq, Repr

def Channel.trySend (c : Channel) (id : Uuid) : Except SendError Channel :=
  if !c.receiving then .error .closed
  else if c.buffer.length < c.capacity then .ok { c with buffer := c.buffer ++ [id] }
  else .error .full

structure JobQueue where
  capacity : Nat
  buffer : List Uuid
  admitted : List Uuid
  deriving DecidableEq, Repr

namespace JobQueue

def new? (capacity : Nat) : Option JobQueue :=
  if capacity = 0 then none else some ⟨capacity, [], []⟩

def depth (q : JobQueue) : Nat :=
  q.buffer.length

def isQueued (q : JobQueue) (id : Uuid) : Bool :=
  q.admitted.contains id

-- The queue keeps the receiver of its channel for as long as it stands, and never closes it.
def channel (q : JobQueue) : Channel :=
  ⟨q.capacity, q.buffer, true⟩

def tryAdmit (q : JobQueue) (id : Uuid) : Admission × JobQueue :=
  if q.isQueued id then (.alreadyQueued, q)
  else
    match q.channel.trySend id with
    | .ok sent => (.admitted, { q with buffer := sent.buffer, admitted := id :: q.admitted })
    | .error .full => (.full, q)
    | .error .closed => (.closed, q)

def dequeue? (q : JobQueue) : Option (Uuid × JobQueue) :=
  match q.buffer with
  | [] => none
  | id :: rest => some (id, { q with buffer := rest, admitted := q.admitted.filter (· ≠ id) })

end JobQueue

end DocumentPreview
