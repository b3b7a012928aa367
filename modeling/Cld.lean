import Cld.Framework.Transition
import Cld.Framework.SortedMap
import Cld.Framework.Regex
import Cld.Model.Basic
import Cld.Model.Stream
import Cld.Model.HttpBuffer
import Cld.Model.Request
import Cld.Model.Worker
import Cld.Model.Download
import Cld.Controller.Indexes
import Cld.Framework.Ledger
import Cld.Framework.Spans
import Cld.Controller.Client
import Cld.Worker.Process
import Cld.Download.Slots
import Cld.Download.Step
import Cld.Download.Invariant
import Cld.Download.Consistency
import Cld.Download.Stall
import Cld.Download.Recovery
import Cld.Body.Chunked
import Cld.Head.Segmentation
import Cld.Body.Loop
import Cld.Body.Transfer
import Cld.Download.Workers
import Cld.Head.Entry
import Cld.Download.Complete
import Cld.Download.Content
import Cld.Download.Refinement
import Cld.Framework.Split
import Cld.Model.Options
import Cld.Model.Redirect
import Cld.Redirect.Clean
import Cld.Download.Requests
import Cld.Redirect.Requests
import Cld.Controller.Choice
import Cld.Download.Assignment
import Cld.Controller.Splits
import Cld.Head.Lines
import Cld.Head.Termination
import Cld.Head.RoundTrip
import Cld.Model.Numerals
import Cld.Body.Length
import Cld.Body.ChunkHead
import Cld.Body.EndOfStream
import Cld.Body.Decoding
import Cld.Body.Framing
import Cld.Url.Text
import Cld.Url.Printing
import Cld.Url.Reference
import Cld.Redirect.Resolution
import Cld.Framework.Orbit
import Cld.Redirect.Cookies
import Cld.Redirect.Termination
import Cld.Download.Ranges
import Cld.Head.Fields
import Cld.Head.LetterCase
import Cld.Worker.Sending
import Cld.Body.LastRead
import Cld.Head.Ending
import Cld.Worker.Draining
import Cld.Download.Lifecycle
import Cld.Framework.Deeds
import Cld.Model.Transport
import Cld.Transport.Descriptors
import Cld.Model.Wrapper
import Cld.Transport.Readline
import Cld.Head.Grammar
import Cld.Body.Fetch
import Cld.Model.Single
import Cld.Single.Content
import Cld.Single.Accounting
import Cld.Download.Rate
import Cld.Download.Whole
import Cld.Download.Progress
import Cld.Model.Program
import Cld.Program.Output
import Cld.Program.Resource
import Cld.Wire.Exchange
import Cld.Wire.Saved
import Cld.Redirect.CommandLine
import Cld.Model.Address
import Cld.Redirect.Addresses
import Cld.Controller.Shares
import Cld.Download.Shares
import Cld.Model.Socket
import Cld.Transport.Interrupts
import Cld.Model.Transfer
import Cld.Transport.Transfer
import Cld.Download.Reads
import Cld.Transport.Tls
import Cld.Worker.Delivery
