import Outbox.AttributePath
import Outbox.Backend.Memory
import Outbox.Batch.Collector
import Outbox.Batch.Sources
import Outbox.Delivery.Processor
import Outbox.Json.Fields
import Outbox.Merge.Merger
import Outbox.Operation.Codec
import Outbox.Operation.Parts
import Outbox.Proofs.Batch.Copies
import Outbox.Proofs.Batch.Coverage
import Outbox.Proofs.Batch.Limits
import Outbox.Proofs.Batch.Losses
import Outbox.Proofs.Batch.MergeErrors
import Outbox.Proofs.Delivery.Episodes
import Outbox.Proofs.Delivery.Equivalence
import Outbox.Proofs.Delivery.Order
import Outbox.Proofs.Delivery.Retries
import Outbox.Proofs.Delivery.Stops
import Outbox.Proofs.Delivery.Tenants
import Outbox.Proofs.Delivery.Waiting
import Outbox.Proofs.Merge.Again
import Outbox.Proofs.Merge.Conflicts
import Outbox.Proofs.Merge.Deletion
import Outbox.Proofs.Merge.Interleaving
import Outbox.Proofs.Merge.Lanes
import Outbox.Proofs.Merge.Points
import Outbox.Proofs.Merge.Provenance
import Outbox.Proofs.Merge.Refusals
import Outbox.Proofs.Merge.Replay
import Outbox.Proofs.Operation.RoundTrip
import Outbox.Proofs.Path.Order
import Outbox.Proofs.Queue.Acknowledged
import Outbox.Proofs.Queue.Bursts
import Outbox.Proofs.Queue.Corruption
import Outbox.Proofs.Queue.Damage
import Outbox.Proofs.Queue.Decoding
import Outbox.Proofs.Queue.Delimiting
import Outbox.Proofs.Queue.Naming
import Outbox.Proofs.Queue.Refused
import Outbox.Proofs.Queue.Restarts
import Outbox.Proofs.Queue.Retention
import Outbox.Proofs.Queue.Truncation
import Outbox.Queue.Basic
import Outbox.Settings.CommandLine
