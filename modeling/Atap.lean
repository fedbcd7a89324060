import Atap.Data.Tree
import Atap.Data.Search
import Atap.Interleave.Machine
import Atap.Interleave.Run
import Atap.Interleave.Word
import Atap.Interleave.Tickets
import Atap.Interleave.Fair
import Atap.Interleave.Links
import Atap.Interleave.Stakes
import Atap.Slot.State
import Atap.Slot.Handshake
import Atap.Slot.Payload
import Atap.Slot.Readers
import Atap.Slot.Ownership
import Atap.Gate.Machine
import Atap.Gate.OneRun
import Atap.Gate.Limit
import Atap.Gate.Values
import Atap.Gate.Refusal
import Atap.Gate.NoLostGive
import Atap.Gate.Mailbox
import Atap.Table.Machine
import Atap.Table.Ids
import Atap.Table.Whole
import Atap.Table.Refused
import Atap.Table.Pages
import Atap.Claims.Machine
import Atap.Claims.Moves
import Atap.Claims.Count
import Atap.Claims.Lives
import Atap.Series.Machine
import Atap.Series.Settle
import Atap.Series.LastOutput
import Atap.Series.Clock
import Atap.Gather.Machine
import Atap.Gather.Flight
import Atap.Gather.Rounds
import Atap.Gather.LetGo
import Atap.Timeout.Machine
import Atap.Timeout.OwnRun
import Atap.Timeout.Durations
import Atap.Closing.Machine
import Atap.Closing.OneParty
import Atap.Exit.Machine
import Atap.Exit.Closed
import Atap.Receivers.Machine
import Atap.Receivers.Order
import Atap.Receivers.Walks
import Atap.Receivers.Once
import Atap.Receivers.Link
import Atap.Sweep.Machine
import Atap.Sweep.Moves
import Atap.Sweep.Linked
import Atap.Stream.Recv
import Atap.Stream.Account
import Atap.Stream.Until
import Atap.Stream.Spawned
import Atap.Channel.Core
import Atap.Pool.Injector
import Atap.Pool.Spin
import Atap.Pool.Shared
import Atap.Pool.Phantom
import Atap.Pool.Fifo
import Atap.Pool.Ring
import Atap.Pool.Backlog
import Atap.Pool.Rings
import Atap.Pool.Manager
import Atap.Pool.Aging
import Atap.Pool.Census
import Atap.Pool.Reap
import Atap.Pool.Park
import Atap.Signal.Dispatch
import Atap.Process.Exchange
import Atap.Process.Environment
import Atap.Process.Reaping
import Atap.Process.Signalled
import Atap.Unwind.Run
import Atap.Unwind.Contained
import Atap.Stream.Tls
import Atap.Stream.Upgrade
import Atap.Stream.Send
import Atap.Stream.Readable
import Atap.Pool.Helping
import Atap.Interleave.Owned
import Atap.Wait.Machine
import Atap.Wait.Noticed
import Atap.Select.Machine
import Atap.Select.Returned
import Atap.File.Watch
import Atap.File.Remove
import Atap.Lifecycle.Machine
