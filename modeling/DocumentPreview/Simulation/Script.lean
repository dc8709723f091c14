import DocumentPreview.Pipeline.Call

namespace DocumentPreview.Simulation

inductive StoreMethod where
  | create
  | get
  | latest
  | claim
  | complete
  | recordFailure
  | reset
  | requeueDue
  | pending
  | reapStale
  | counts
  | ping
  deriving DecidableEq, Repr

def StoreMethod.of : StoreOp → StoreMethod
  | .create .. => create
  | .get _ => get
  | .latest _ => latest
  | .claim .. => claim
  | .complete .. => complete
  | .recordFailure .. => recordFailure
  | .reset _ => reset
  | .requeueDue .. => requeueDue
  | .pending _ => pending
  | .reapStale .. => reapStale
  | .counts => counts
  | .ping => ping

inductive Target where
  | store (method : StoreMethod)
  | find
  | download
  | upload
  | consume
  | purge
  deriving DecidableEq, Repr

inductive Effect where
  | store (op : StoreOp)
  | put (job : Job)
  deriving DecidableEq, Repr

inductive FailureKind where
  | corrupt
  | status
  | config
  | other
  deriving DecidableEq, Repr

structure Failure where
  kind : FailureKind
  text : String
  deriving DecidableEq, Repr

namespace Failure

def store (f : Failure) : StoreError :=
  match f.kind with
  | .corrupt => .corrupt f.text
  | _ => .database .poolClosed

def catalog (f : Failure) : CatalogError :=
  ⟨f.text⟩

def storage (key : String) (f : Failure) : StorageError :=
  match f.kind with
  | .status => .status key ((Text.natural? f.text.toList).getD 0)
  | .config => .config f.text
  | _ => .notFound key

def replay (f : Failure) : Redis.Error :=
  .failed "scripted " .busyLoading (some f.text)

end Failure

structure Fault where
  delay : Nat
  effects : List Effect
  failure : Option Failure
  deriving DecidableEq, Repr

inductive ConverterAnswer where
  | echo
  | output (bytes : Bytes)
  | empty
  | status (code : Nat) (body : String)
  | hang
  deriving DecidableEq, Repr

structure Conversion where
  delay : Nat
  effects : List Effect
  answer : ConverterAnswer
  deriving DecidableEq, Repr

def Conversion.plain : Conversion :=
  ⟨0, [], .echo⟩

def ConverterAnswer.result? (source : Bytes) :
    ConverterAnswer → Option (Except ConversionError Bytes)
  | echo => some (.ok (Utf8.ofString "%PDF-" ++ source))
  | output bytes => some (.ok bytes)
  | empty => some (.error .emptyOutput)
  | status code body => some (.error (.status code body))
  | hang => none

end DocumentPreview.Simulation
