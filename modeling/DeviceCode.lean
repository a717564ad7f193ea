import DeviceCode.Number.Numeral
import DeviceCode.Text.Layout
import DeviceCode.Text.Escape
import DeviceCode.Text.Utf8
import DeviceCode.Module.Query
import DeviceCode.Module.Agreement
import DeviceCode.Module.Assembly
import DeviceCode.Assembly.Reading
import DeviceCode.Binary.Container
import DeviceCode.Partition.Split
import DeviceCode.SpecConstant.Lowering
import DeviceCode.File.Tree
import DeviceCode.Run.Host
import DeviceCode.Main
import DeviceCode.Proofs.Reachability
import DeviceCode.Proofs.Module.WellFormed
import DeviceCode.Proofs.Assembly.Trace
import DeviceCode.Proofs.Assembly.Acts
import DeviceCode.Proofs.Assembly.Entities
import DeviceCode.Proofs.Assembly.Scoping
import DeviceCode.Proofs.Assembly.WellFormed
import DeviceCode.Proofs.Module.Equality
import DeviceCode.Proofs.Cleanup.Liveness
import DeviceCode.Proofs.Partition.CallClosure
import DeviceCode.Proofs.Partition.Content
import DeviceCode.Proofs.Partition.Groups
import DeviceCode.Proofs.Partition.Kernels
import DeviceCode.Proofs.SpecConstant.Lowering
import DeviceCode.Proofs.SpecConstant.Default
import DeviceCode.Proofs.SpecConstant.Uses
import DeviceCode.Proofs.File.Path
import DeviceCode.Proofs.Run.FileNames
import DeviceCode.Proofs.Output.Table
import DeviceCode.Proofs.Run.Artifacts
import DeviceCode.Proofs.File.Tree
import DeviceCode.Proofs.Run.Properties
import DeviceCode.Proofs.Run.Session
import DeviceCode.Proofs.Binary.Encoding
import DeviceCode.Proofs.SpecConstant.Numbers
import DeviceCode.Proofs.SpecConstant.Recovery
import DeviceCode.Proofs.Assembly.Resolution
import DeviceCode.Proofs.Number.Decimal
import DeviceCode.Proofs.Number.Numeral
import DeviceCode.Proofs.Assembly.Reads
import DeviceCode.Proofs.Assembly.ReadsBody
import DeviceCode.Proofs.Assembly.ReadsEntity
import DeviceCode.Proofs.Assembly.Checks
import DeviceCode.Proofs.Assembly.RoundTrip
import DeviceCode.Proofs.Partition.Stub
import DeviceCode.Proofs.Partition.SelfContained
import DeviceCode.Proofs.Partition.SpecIds
import DeviceCode.Proofs.SpecConstant.SecondRun
import DeviceCode.Proofs.SpecConstant.Visits
import DeviceCode.Proofs.SpecConstant.Exhaustion
import DeviceCode.Proofs.SpecConstant.Declarations
import DeviceCode.Proofs.Run.Store
import DeviceCode.Proofs.Run.Rows
import DeviceCode.Proofs.Run.Readback
import DeviceCode.Proofs.Text.Lines
import DeviceCode.Proofs.Output.Written
import DeviceCode.Proofs.Run.Order
import DeviceCode.Proofs.Run.FileTable
import DeviceCode.Proofs.Run.Places
import DeviceCode.Proofs.Run.Content
import DeviceCode.Proofs.Run.ReusedInput
import DeviceCode.Proofs.Assembly.Writable
import DeviceCode.Proofs.SpecConstant.Writable
import DeviceCode.Proofs.Partition.Definitions
import DeviceCode.Proofs.Text.Utf8
import DeviceCode.Proofs.Run.Definitions
import DeviceCode.Proofs.Partition.Granularity
import DeviceCode.Proofs.Partition.Repeated
import DeviceCode.Proofs.Partition.Rearranged
import DeviceCode.Proofs.SpecConstant.Zeros
import DeviceCode.Proofs.Partition.Lowered
import DeviceCode.Proofs.Module.Canonical
import DeviceCode.Proofs.Cleanup.Fixpoint
import DeviceCode.Proofs.Binary.Truncation
import DeviceCode.Proofs.Run.Accepted
import DeviceCode.Proofs.Assembly.Coupled
import DeviceCode.Proofs.Assembly.CoupledBody
import DeviceCode.Proofs.Assembly.CoupledEntity
import DeviceCode.Proofs.Assembly.Concatenation
import DeviceCode.Proofs.Output.Building
import DeviceCode.Proofs.Cleanup.Records
import DeviceCode.Proofs.Cleanup.Chains
import DeviceCode.Proofs.SpecConstant.Rewritten
import DeviceCode.Proofs.SpecConstant.Replaced
import DeviceCode.Proofs.SpecConstant.Faults
import DeviceCode.Proofs.SpecConstant.Failure
import DeviceCode.Proofs.Output.InPlace
import DeviceCode.Proofs.Output.Reread
import DeviceCode.Proofs.Assembly.Padding
import DeviceCode.Proofs.Assembly.Faithful
import DeviceCode.Proofs.Assembly.FaithfulBody
import DeviceCode.Proofs.Assembly.FaithfulEntity
import DeviceCode.Proofs.Assembly.Diagnostics
import DeviceCode.Proofs.Text.Order
import DeviceCode.Proofs.Partition.Sorted
import DeviceCode.Proofs.Output.Readable
import DeviceCode.Proofs.SpecConstant.Telling
import DeviceCode.Proofs.Run.PropertyText
import DeviceCode.Proofs.Module.SignedZeros
