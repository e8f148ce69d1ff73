import TypeIndex.CMemory.Basic
import TypeIndex.CMemory.Compare
import TypeIndex.CMemory.Occurrence
import TypeIndex.CxxObject.Hierarchy
import TypeIndex.CxxObject.Cast
import TypeIndex.CxxObject.Dispatch
import TypeIndex.KeySet
import TypeIndex.HashedSet
import TypeIndex.SearchTree
import TypeIndex.SharedOwnership
import TypeIndex.Strcmp
import TypeIndex.Facade
import TypeIndex.Search
import TypeIndex.Skip
import TypeIndex.CttiTypeIndex
import TypeIndex.LengthCheck
import TypeIndex.ClangNames
import TypeIndex.IndexSequence
import TypeIndex.GccNames
import TypeIndex.Compilers
import TypeIndex.NamespaceCheck
import TypeIndex.StlTypeIndex
import TypeIndex.Comparison
import TypeIndex.CppTypes
import TypeIndex.Identities
import TypeIndex.ReadableNames
import TypeIndex.DemangledNames
import TypeIndex.ExactTypes
import TypeIndex.SortedTypes
import TypeIndex.Registry
import TypeIndex.OrderedRegistry
import TypeIndex.UserTypeIndex
import TypeIndex.RuntimeCast.Search
import TypeIndex.RuntimeCast.Casts
import TypeIndex.RuntimeCast.Chains
import TypeIndex.RuntimeCast.RoundTrips
import TypeIndex.RuntimeCast.Ownership
import TypeIndex.RuntimeCast.Registration
import TypeIndex.RuntimeCast.CollapsedNames
import TypeIndex.RuntimeTypeId
