import LLBuild.Analysis.CriticalPath
import LLBuild.Basic.LaneBasedExecutionQueue
import LLBuild.BuildSystem.BuildHistory
import LLBuild.BuildSystem.BuiltinTools
import LLBuild.BuildSystem.ChildEnvironment
import LLBuild.BuildSystem.DescriptionBuilder
import LLBuild.BuildSystem.DirectoryPaths
import LLBuild.BuildSystem.DirectoryTasks
import LLBuild.BuildSystem.NodeSignature
import LLBuild.BuildSystem.OwnershipAnalysis
import LLBuild.Core.Checks
import LLBuild.Core.CycleBreaking
import LLBuild.Core.DependencyInfoParser
import LLBuild.Core.DependencyOrder
import LLBuild.Core.Lifecycle
import LLBuild.Core.MakefileDepsCursor
import LLBuild.Core.ResultLookup
import LLBuild.LLBuild3.ActionExecutor
import LLBuild.LLBuild3.CASLog
import LLBuild.LLBuild3.LocalExecutor
import LLBuild.LLBuild3.Requests
import LLBuild.LLBuild3.TransitionCache
import LLBuild.Ninja.Keywords
import LLBuild.Ninja.PoolDepth
import LLBuild.Ninja.RootTargets
import LLBuild.Ninja.RuleScopes
import LLBuild.Ninja.StatusLine
import LLBuild.Ninja.ValueObject
