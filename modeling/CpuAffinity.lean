import CpuAffinity.Text.Outline
import CpuAffinity.CpuId
import CpuAffinity.Error
import CpuAffinity.Comparison
import CpuAffinity.Selection.Basic
import CpuAffinity.Selection.Recorder
import CpuAffinity.Selection.Congruence
import CpuAffinity.Mask.Words
import CpuAffinity.Mask.Basic
import CpuAffinity.Mask.Session
import CpuAffinity.GroupWord
import CpuAffinity.Host.Basic
import CpuAffinity.Host.Call
import CpuAffinity.Thread.Event
import CpuAffinity.Thread.Basic
import CpuAffinity.Thread.MaskCalls
import CpuAffinity.Thread.GroupCalls
import CpuAffinity.Thread.Operations
import CpuAffinity.Thread.Session
import CpuAffinity.Proofs.Members
import CpuAffinity.Proofs.MaskScans
import CpuAffinity.Proofs.SetSession
import CpuAffinity.Proofs.MaskCallRuns
import CpuAffinity.Proofs.GroupMembers
import CpuAffinity.Proofs.GroupCallRuns
import CpuAffinity.Proofs.OperationRuns
import CpuAffinity.Proofs.HostRequests
import CpuAffinity.Proofs.MaskCallSetting
import CpuAffinity.Proofs.GroupCallSetting
import CpuAffinity.Proofs.Correspondence
import CpuAffinity.Proofs.CallFamilies
import CpuAffinity.Proofs.GrantedRequests
import CpuAffinity.Proofs.AllowedAffinity
import CpuAffinity.Proofs.SavedAffinity
import CpuAffinity.Proofs.SingleGroup
import CpuAffinity.Proofs.Refusals
import CpuAffinity.Proofs.CallEffects
import CpuAffinity.Proofs.CodeProvenance
import CpuAffinity.Proofs.EventMirror
import CpuAffinity.Proofs.ReportedAffinity
import CpuAffinity.Proofs.RequestedSets
import CpuAffinity.Proofs.MaskLists
import CpuAffinity.Proofs.Pinning
import CpuAffinity.Proofs.CpuSources
import CpuAffinity.Proofs.WordScans
import CpuAffinity.Proofs.OutlineTexts
import CpuAffinity.Proofs.MaskTexts
import CpuAffinity.Proofs.DerivedOperations
import CpuAffinity.Proofs.ProcessorCounts
import CpuAffinity.Proofs.ErrorTexts
import CpuAffinity.Proofs.PartialMasks
import CpuAffinity.Proofs.PartialThreads
import CpuAffinity.Proofs.GroupCodec
