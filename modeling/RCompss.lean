import RCompss.Serialization.Documented
import RCompss.Serialization.ProtectStack
import RCompss.Serialization.Versions
import RCompss.Serialization.Truncation
import RCompss.Serialization.Buffered
import RCompss.Serialization.LengthHeaders
import RCompss.Serialization.Halting
import RCompss.Executor.Truthful
import RCompss.Executor.Isolation
import RCompss.Executor.Strings
import RCompss.Executor.Decoding
import RCompss.Executor.OwnFunction
import RCompss.Executor.AffinityLists
import RCompss.Payload.Methods
import RCompss.Payload.FileNames
import RCompss.Submission.Alignment
import RCompss.Submission.Registration
import RCompss.Submission.CoreElements
import RCompss.Submission.SubmitOrThrow
import RCompss.Submission.Dispatch
import RCompss.Submission.MatchingRefines
import RCompss.Submission.FunctionName
import RCompss.Submission.Sessions
import RCompss.Submission.ConstraintStrings
import RCompss.Submission.ReadBack
import RCompss.Submission.WaitOn
import RCompss.Kernels.WorkBuffers
import RCompss.Kernels.Placement
import RCompss.Kernels.Lifetimes
import RCompss.Kernels.LiveContexts
import RCompss.Kernels.DefaultContext
import RCompss.Kernels.SyncMode
import RCompss.Kernels.HandleSafety
import RCompss.Kernels.Leaks
import RCompss.Kernels.LaunchCoverage
import RCompss.Kernels.Dgemm
import RCompss.Worker.ExitStatus
import RCompss.System.PartialSums
import RCompss.Kernels.GpuLinalgMemory
