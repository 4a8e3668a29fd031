import Shiplog.ForStd.Commands
import Shiplog.ForStd.Double
import Shiplog.ForStd.Evolves
import Shiplog.ForStd.Except
import Shiplog.ForStd.Hex
import Shiplog.ForStd.Iterate
import Shiplog.ForStd.JobQueue
import Shiplog.ForStd.Join
import Shiplog.ForStd.KeyedStore
import Shiplog.ForStd.Ledger
import Shiplog.ForStd.List
import Shiplog.ForStd.Pool
import Shiplog.ForStd.Readable
import Shiplog.ForStd.Upsert
import Shiplog.ForStd.Walk
import Shiplog.Native.App
import Shiplog.Native.Backoff
import Shiplog.Native.Collections
import Shiplog.Native.Errors
import Shiplog.Native.Hash
import Shiplog.Native.Ingest
import Shiplog.Native.IngestJob
import Shiplog.Native.Js
import Shiplog.Native.Models
import Shiplog.Native.Normalize
import Shiplog.Native.Pipeline
import Shiplog.Native.Producers
import Shiplog.Native.Raw
import Shiplog.Native.Reconcile
import Shiplog.Native.ReconcileQueue
import Shiplog.Native.Schema
import Shiplog.Native.Sync
import Shiplog.Native.Verify
import Shiplog.Native.Webhook
import Shiplog.Native.Workers
import Shiplog.Spec.Addressable
import Shiplog.Spec.AttemptCorrect
import Shiplog.Spec.Backfill
import Shiplog.Spec.BackoffCorrect
import Shiplog.Spec.BatchAccounting
import Shiplog.Spec.BatchQueue
import Shiplog.Spec.ContentFields
import Shiplog.Spec.ContentHash
import Shiplog.Spec.CursorInvariant
import Shiplog.Spec.DeliveryCorrect
import Shiplog.Spec.DeliveryGuarantee
import Shiplog.Spec.DeliveryLoops
import Shiplog.Spec.Durability
import Shiplog.Spec.EndToEnd
import Shiplog.Spec.EntityLedger
import Shiplog.Spec.EntityLocality
import Shiplog.Spec.HandlerAdds
import Shiplog.Spec.Independent
import Shiplog.Spec.IngestCorrect
import Shiplog.Spec.JobLife
import Shiplog.Spec.JsonText
import Shiplog.Spec.KeySeparation
import Shiplog.Spec.Lineage
import Shiplog.Spec.NetworkErrors
import Shiplog.Spec.NoSilentLoss
import Shiplog.Spec.Noninterference
import Shiplog.Spec.ObjectIdentity
import Shiplog.Spec.Pagination
import Shiplog.Spec.PipelineCorrect
import Shiplog.Spec.Polling
import Shiplog.Spec.Provenance
import Shiplog.Spec.RawLayer
import Shiplog.Spec.Rebuild
import Shiplog.Spec.RecordShape
import Shiplog.Spec.Reingest
import Shiplog.Spec.ReplayTrail
import Shiplog.Spec.Requests
import Shiplog.Spec.Resume
import Shiplog.Spec.RetryAfter
import Shiplog.Spec.SelfHealing
import Shiplog.Spec.Serializable
import Shiplog.Spec.Settling
import Shiplog.Spec.Signature
import Shiplog.Spec.SingleWriter
import Shiplog.Spec.SpineSafety
import Shiplog.Spec.StaleReplay
import Shiplog.Spec.StoredPayload
import Shiplog.Spec.SyncRetries
import Shiplog.Spec.SystemSerial
import Shiplog.Spec.TenantIngest
import Shiplog.Spec.UpsertRace
import Shiplog.Spec.VersionBump
import Shiplog.Spec.WebhookCorrect
import Shiplog.Spec.WebhookSweep
import Shiplog.Spec.WorkerSerial
