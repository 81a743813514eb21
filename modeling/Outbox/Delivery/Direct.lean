import Outbox.Batch.Collector
import Outbox.Disk.Path

/-!
# Direct delivery

Every operation is sent at once, in a batch of its own. Nothing is kept, and every failure is
reported to the caller.
-/

namespace Outbox

/-- Removes the local files that were to be removed once they are uploaded. -/
def Disk.removeUploaded (d : Disk) (batch : Bundle) : Disk :=
  batch.uploads.foldl (fun d op =>
    match op.mutation with
    | .uploadFile _ filePath true => d.removeFile filePath
    | _ => d) d

/-- Direct delivery to a service with states of type `σ`. -/
structure Direct (σ : Type) where
  container : Container
  disk : Disk
  backend : σ

namespace Direct

variable {σ : Type}

/-- Sends one operation. -/
def enqueue (b : Backend σ) (p : Direct σ) (op : Operation) : Direct σ × Except DeliveryError Unit :=
  match b.resolve p.backend op with
  | (s, .error e) => ({ p with backend := s }, .error (.backend e))
  | (s, .ok op') =>
    let batch := Bundle.ofOperations [op']
    match b.execute s p.container batch with
    | (s', .error e) => ({ p with backend := s' }, .error (.backend e))
    | (s', .ok receipt) =>
      ({ p with backend := s', disk := p.disk.removeUploaded batch },
        if receipt.rejected.isEmpty then .ok () else .error (.rejected receipt.rejected))

end Direct

end Outbox
