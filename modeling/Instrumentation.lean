import Instrumentation.Body.Listing
import Instrumentation.ModuleFile
import Instrumentation.Proofs.Calls.FirstMatch
import Instrumentation.Proofs.Calls.FormatText
import Instrumentation.Proofs.Calls.FoundMethods
import Instrumentation.Proofs.Calls.IndexLimits
import Instrumentation.Proofs.Calls.OwnInstances
import Instrumentation.Proofs.Calls.TypedArguments
import Instrumentation.Proofs.Calls.WrittenTypes
import Instrumentation.Proofs.Flow.DeclaredStack
import Instrumentation.Proofs.Flow.Refusals
import Instrumentation.Proofs.Flow.Reordering
import Instrumentation.Proofs.Flow.Termination
import Instrumentation.Proofs.Json.Decoding
import Instrumentation.Proofs.Json.ReadBack
import Instrumentation.Proofs.ListEdits
import Instrumentation.Proofs.ListFamilies
import Instrumentation.Proofs.ResolutionHistory
import Instrumentation.Proofs.Stored.Loading
import Instrumentation.Proofs.Stored.Nesting
import Instrumentation.Proofs.Stored.RenamedBodies
import Instrumentation.Proofs.Stored.Renaming
import Instrumentation.Proofs.Stored.RoundTrip
import Instrumentation.Proofs.Stored.Texts
import Instrumentation.Proofs.Typing.Heights
import Instrumentation.Proofs.Weaving.AddedNesting
import Instrumentation.Proofs.Weaving.BalancedInsertion
import Instrumentation.Proofs.Weaving.ExitCalls
import Instrumentation.Proofs.Weaving.Extensions
import Instrumentation.Proofs.Weaving.FailedPlans
import Instrumentation.Proofs.Weaving.Histories
import Instrumentation.Proofs.Weaving.InsertionOutcome
import Instrumentation.Proofs.Weaving.LoadingAgain
import Instrumentation.Proofs.Weaving.PassReport
import Instrumentation.Proofs.Weaving.Regions
import Instrumentation.Proofs.Weaving.RenamedPasses
import Instrumentation.Proofs.Weaving.RepeatedPasses
import Instrumentation.Proofs.Weaving.StalePlans
import Instrumentation.Stored.Report
import Instrumentation.Stored.Settings
import Instrumentation.Verification
