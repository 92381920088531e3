import PartialBatch.Consumer
import PartialBatch.Json.Writer
import PartialBatch.Proofs.Queue.Calls
import PartialBatch.Proofs.Queue.Plan
import PartialBatch.Proofs.Batch.Cleanup
import PartialBatch.Proofs.Batch.Stages
import PartialBatch.Proofs.Batch.Blocks
import PartialBatch.Proofs.Batch.NoLoss
import PartialBatch.Proofs.Batch.Passages
import PartialBatch.Proofs.Batch.Exactness
import PartialBatch.Proofs.Batch.Isolation
import PartialBatch.Proofs.Batch.Raised
import PartialBatch.Proofs.Batch.Bookkeeping
import PartialBatch.Proofs.Batch.Suppression
import PartialBatch.Proofs.Batch.FailStop
import PartialBatch.Proofs.Batch.Untouched
import PartialBatch.Proofs.Batch.Order
import PartialBatch.Proofs.Batch.Interruption
import PartialBatch.Proofs.Batch.Answers
import PartialBatch.Proofs.Batch.Contract
import PartialBatch.Proofs.Batch.Separation
import PartialBatch.Proofs.Batch.Fulfilment
import PartialBatch.Proofs.Json.Places
import PartialBatch.Proofs.Consumer.Bodies
import PartialBatch.Proofs.Consumer.Invocation
import PartialBatch.Proofs.Consumer.Session
import PartialBatch.Proofs.Batch.Passes
import PartialBatch.Proofs.Batch.Requests
import PartialBatch.Proofs.Batch.EntryWise
import PartialBatch.Proofs.Error.Lines
import PartialBatch.Proofs.Batch.Sizes
import PartialBatch.Proofs.Validation
import PartialBatch.Proofs.Message.Records
import PartialBatch.Proofs.Message.Content
import PartialBatch.Proofs.Queue.Policies
import PartialBatch.Proofs.Queue.PolicyTexts
import PartialBatch.Proofs.Queue.Addresses
import PartialBatch.Proofs.Settings
import PartialBatch.Proofs.Batch.Questions
import PartialBatch.Proofs.Batch.Objects
import PartialBatch.Proofs.Batch.Accounts
import PartialBatch.Proofs.Batch.Partition
