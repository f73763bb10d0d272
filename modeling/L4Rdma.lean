import L4Rdma.Pool.Free
import L4Rdma.Lib.Run
import L4Rdma.Word
import L4Rdma.Pool.Kinds
import L4Rdma.Pool.Spec
import L4Rdma.Pool.Run
import L4Rdma.Pool.Uar
import L4Rdma.Event.Ring
import L4Rdma.Cmd.Model
import L4Rdma.Cmd.Mailbox
import L4Rdma.Cmd.Create
import L4Rdma.Cmd.Device
import L4Rdma.Cmd.Call
import L4Rdma.Cmd.Threads
import L4Rdma.Cmd.Interleaving
import L4Rdma.Pool.Pages
import L4Rdma.Driver.Model
import L4Rdma.Driver.Provide
import L4Rdma.Driver.Handler
import L4Rdma.Driver.Reclaim
import L4Rdma.Driver.Teardown
import L4Rdma.Cmd.Chains
import L4Rdma.Driver.Init
import L4Rdma.Server.HandOver
import L4Rdma.Pool.FirstFit
import L4Rdma.Pool.InSync
import L4Rdma.Queue.Model
import L4Rdma.Queue.Alloc
import L4Rdma.Driver.Queues
import L4Rdma.Pool.Reached
import L4Rdma.Driver.Room
import L4Rdma.Driver.Payload
import L4Rdma.Driver.Rings
import L4Rdma.Driver.Overrun
import L4Rdma.Driver.Creating
import L4Rdma.Driver.Exhaustion
import L4Rdma.Device.Pci
import L4Rdma.Device.Bar
import L4Rdma.Driver.Setup
import L4Rdma.Queue.Count
import L4Rdma.Queue.Release
import L4Rdma.Driver.WorkQueues
import L4Rdma.Driver.Bounds
import L4Rdma.Driver.Rollback
import L4Rdma.Cmd.Doorbell
import L4Rdma.Driver.Ownership
import L4Rdma.Device.Msix
import L4Rdma.Interrupt.Args
import L4Rdma.Lib.Ledger
import L4Rdma.Server.Resources
import L4Rdma.Server.Accounts
import L4Rdma.Server.Answers
import L4Rdma.Server.GivenBack
import L4Rdma.Lib.Dialogue
import L4Rdma.Lib.Poll
import L4Rdma.Driver.Waiting
import L4Rdma.Cmd.Exchange
import L4Rdma.Driver.Boot
import L4Rdma.Driver.Talk
import L4Rdma.Driver.Lifecycle
import L4Rdma.Pool.Stock
import L4Rdma.Driver.Upholding
import L4Rdma.Driver.Requests
import L4Rdma.Driver.Serving
import L4Rdma.Pool.Snug
import L4Rdma.Driver.Ledger
import L4Rdma.Driver.Program
