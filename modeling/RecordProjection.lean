import RecordProjection.Defaults
import RecordProjection.Main
import RecordProjection.Shape.Declared
import RecordProjection.Proofs.Shape.RoundTrip
import RecordProjection.Proofs.Shape.Positions
import RecordProjection.Proofs.Descriptor.Exactness
import RecordProjection.Proofs.CommandLine.Printing
import RecordProjection.Proofs.Record.Composition
import RecordProjection.Proofs.Record.Agreement
import RecordProjection.Proofs.Record.Nesting
import RecordProjection.Proofs.Record.FlatEncoding
import RecordProjection.Proofs.Record.Printed
import RecordProjection.Proofs.Engine.Failures
import RecordProjection.Proofs.Engine.DescriptorTable
import RecordProjection.Proofs.Engine.Bookkeeping
import RecordProjection.Proofs.Descriptor.Depth
import RecordProjection.Proofs.Record.Relocation
import RecordProjection.Proofs.Shape.Failures
import RecordProjection.Proofs.Shape.Balance
import RecordProjection.Proofs.Shape.ErrorCodes
import RecordProjection.Proofs.Shape.Tokens
import RecordProjection.Proofs.Shape.Layout
import RecordProjection.Proofs.Record.Obstacles
import RecordProjection.Proofs.Engine.Lists
import RecordProjection.Proofs.Descriptor.Building
import RecordProjection.Proofs.Descriptor.Merging
import RecordProjection.Proofs.Schema.Loading
import RecordProjection.Proofs.Descriptor.WellFormed
import RecordProjection.Proofs.Descriptor.Wildcards
import RecordProjection.Proofs.Descriptor.DepthLimit
import RecordProjection.Proofs.Calendar.DayNumbers
import RecordProjection.Proofs.Calendar.PlainTimestamps
import RecordProjection.Proofs.Calendar.Repairs
import RecordProjection.Proofs.Text.Octets
import RecordProjection.Proofs.Calendar.DateForms
import RecordProjection.Proofs.Json.ReadingBack
import RecordProjection.Proofs.FifoCache.Histories
import RecordProjection.Proofs.Record.UnflattenedKeys
import RecordProjection.Proofs.Shape.Rebuilding
import RecordProjection.Proofs.Schema.Catalogs
import RecordProjection.Proofs.Shape.Surroundings
