import Paging.Word
import Paging.Fault
import Paging.Numeral
import Paging.Halt
import Paging.Level
import Paging.Mode.Basic
import Paging.Mode.Geometry
import Paging.Entry
import Paging.Segment
import Paging.Register
import Paging.Identifier
import Paging.Frame.Allocator
import Paging.Bytes
import Paging.Lock
import Paging.Log.Ring
import Paging.Log.Logger
import Paging.Log.Prefix
import Paging.Memory
import Paging.Machine.Basic
import Paging.Machine.Hart
import Paging.Machine.Space
import Paging.Machine.Translate
import Paging.Log.Text
import Paging.Machine.Boot
import Paging.Command.Options
import Paging.Command.Unsigned
import Paging.Main
import Paging.Proofs.IdentifierWidth
import Paging.Proofs.FrameAccounts
import Paging.Proofs.SoundMode
import Paging.Proofs.Alignment
import Paging.Proofs.TableMemory
import Paging.Proofs.RunSpec
import Paging.Proofs.TableTree
import Paging.Proofs.SpaceTree
import Paging.Proofs.SpaceMap
import Paging.Proofs.SpaceOwnership
import Paging.Proofs.MapProgress
import Paging.Proofs.IdentifierAccounts
import Paging.Proofs.LogQueue
import Paging.Proofs.FreshSpace
import Paging.Proofs.Untouched
import Paging.Proofs.HartSetup
import Paging.Proofs.MapHistory
import Paging.Proofs.MapRefinement
import Paging.Proofs.TableCount
import Paging.Proofs.BootOutcome
import Paging.Proofs.RequestChecks
import Paging.Proofs.LargestBlocks
import Paging.Proofs.Translation
import Paging.Proofs.TableEconomy
import Paging.Proofs.EntryEncoding
import Paging.Proofs.ByteFill
import Paging.Proofs.FrameFaults
import Paging.Proofs.TaggedLines
import Paging.Proofs.TableClearing
import Paging.Proofs.HostReservation
