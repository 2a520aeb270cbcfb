import VectorQuery.Main
import VectorQuery.Proofs.Label.Set
import VectorQuery.Proofs.Label.Signature
import VectorQuery.Proofs.Join.Index
import VectorQuery.Proofs.Join.Outcome
import VectorQuery.Proofs.Join.Pairs
import VectorQuery.Proofs.Join.Collision
import VectorQuery.Proofs.Join.Order
import VectorQuery.Proofs.Join.Symmetry
import VectorQuery.Proofs.Join.Mirror
import VectorQuery.Proofs.Join.BoolForm
import VectorQuery.Proofs.Join.Single
import VectorQuery.Proofs.Aggregate
import VectorQuery.Proofs.Aggregate.Partition
import VectorQuery.Proofs.Aggregate.RollUp
import VectorQuery.Proofs.KeptNames
import VectorQuery.Proofs.Operator.Set
import VectorQuery.Proofs.Operator.SetLaws
import VectorQuery.Proofs.Operator.BoolForm
import VectorQuery.Proofs.Operator.Broadcast
import VectorQuery.Proofs.Operator.Semijoin
import VectorQuery.Proofs.Operator.Unread
import VectorQuery.Proofs.Operator.Errors
import VectorQuery.Proofs.Eval.Rules
import VectorQuery.Proofs.Eval.Distinct
import VectorQuery.Proofs.Eval.Substitution
import VectorQuery.Proofs.Eval.Shape
import VectorQuery.Proofs.Eval.Chains
import VectorQuery.Proofs.Eval.NonFinite
import VectorQuery.Proofs.Eval.Origin
import VectorQuery.Proofs.Eval.Strict
import VectorQuery.Proofs.Text.ByteOrder
import VectorQuery.Proofs.Text.Sized
import VectorQuery.Proofs.Number.Nearest
import VectorQuery.Proofs.Json.Record
import VectorQuery.Proofs.Json.StringText
import VectorQuery.Proofs.Json.Token
import VectorQuery.Proofs.Json.Reader
import VectorQuery.Proofs.Json.StringObject
import VectorQuery.Proofs.Text.Quoted
import VectorQuery.Proofs.Codec.Label
import VectorQuery.Proofs.Codec.Time
import VectorQuery.Proofs.Codec.Value
import VectorQuery.Proofs.Codec.Spelling
import VectorQuery.Proofs.Number.Rounding
import VectorQuery.Proofs.Number.Operations
import VectorQuery.Proofs.Instant.Milliseconds
import VectorQuery.Proofs.Label.Text
import VectorQuery.Proofs.Label.Stored
import VectorQuery.Proofs.Aggregate.Extremes
import VectorQuery.Proofs.Eval.NormalForm
import VectorQuery.Proofs.Instant.Saturation
